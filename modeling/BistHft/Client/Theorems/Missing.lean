import BistHft.Client.Theorems.Watermark

-- The vector of missing sequence numbers, and which datagrams make the client look at the top of an
-- empty one.

section PopReceived

variable {N k s n : ℕ} {d : Datagram} {ns : List UInt64}

theorem popReceived_nil_eq_error_iff : popReceived [] ns = .error .backOfEmpty ↔ ns ≠ [] := by
  cases ns
  case nil  => exact iff_of_false Run.ok_ne_error fun h => h rfl
  case cons => exact iff_of_true rfl <| List.cons_ne_nil _ _

theorem popReceived_of_notMem (hk : k < N) (h : .ofNat k ∉ ns) :
    popReceived (countdown N k) ns = .ok (countdown N k) := by
  induction ns
  case nil => rfl
  case cons n ns hi =>
    obtain ⟨hn, hns⟩ := not_or.mp <| List.mem_cons.not.mp h
    rw [popReceived, countdown_getLast? hk]
    simp only [if_neg hn]
    exact hi hns

-- Numbers that go up from at most `k` pop all of the vector with `N - 1`, and nothing may come behind.
theorem popReceived_range'_iff (hs : s ≤ k) (hk : k ≤ N) (he : k = N → s = N) (hN : N < 2 ^ 64) (hn : s + n < 2 ^ 64) :
    popReceived (countdown N k) ((List.range' s n).map .ofNat) = .error .backOfEmpty ↔ N < s + n := by
  induction n generalizing s k
  case zero => exact iff_of_false Run.ok_ne_error (by omega)
  case succ n hi =>
    rw [List.range'_succ, List.map_cons]
    cases Nat.lt_or_eq_of_le hk
    case inr heq =>
      subst heq
      cases he rfl
      rw [countdown_self, popReceived_nil_eq_error_iff]
      exact iff_of_true (List.cons_ne_nil _ _) (by omega)
    case inl hlt =>
      rw [popReceived, countdown_getLast? hlt]
      cases Nat.lt_or_eq_of_le hs
      case inl hlt' =>
        have hne : UInt64.ofNat k ≠ .ofNat s := (UInt64.ofNat_inj (by omega) (by omega)).not.mpr (Nat.ne_of_gt hlt')
        simp only [if_neg hne]
        rw [hi hlt' hk (absurd · hlt.ne) (by omega)]
        omega
      case inr heq =>
        subst heq
        simp only [if_true]
        rw [countdown_back hlt, List.dropLast_concat, hi (Nat.le_refl _) hlt id (by omega)]
        omega

theorem populateVector_of_wrap (h : 2 ^ 64 ≤ d.1.toNat + d.2.toNat) :
    populateVector d.1 d.2 = .replicate d.2.toNat 0 := by
  have hc : d.2.toUInt64.toNat = d.2.toNat := UInt16.toNat_toUInt64 _
  have hd := d.1.toNat_lt
  have hd' := d.2.toNat_lt
  refine if_neg ?_
  rw [UInt64.lt_iff_toNat_lt, UInt64.toNat_add, hc]
  omega

theorem populateVector_ne_nil_iff : populateVector d.1 d.2 ≠ [] ↔ d.2 ≠ 0 := by
  have hl : (populateVector d.1 d.2).length = d.2.toNat := by
    rw [populateVector]
    split <;> simp
  rw [ne_eq, ← List.length_eq_zero_iff, hl, ne_eq, ← UInt16.toNat_inj]
  rfl

end PopReceived

namespace Recovery

variable {r r' r₁ : Recovery} {d : Datagram} {ds : List Datagram} {N k : ℕ}

-- While rewinding there is something missing, and a datagram that begins at or below the lowest
-- missing number ends no later than behind the highest one.
def Covered (r : Recovery) (d : Datagram) : Prop :=
  r.state = .rewinding → d.2 ≠ 0 →
    ∃ front back, r.missingSequenceNumbers.head? = some front ∧ r.missingSequenceNumbers.getLast? = some back ∧
      (d.1.toNat + d.2.toNat < 2 ^ 64 → d.1 ≤ back → d.1.toNat + d.2.toNat ≤ front.toNat + 1)

-- What is missing counts down, and nothing is missing before the sync.
inductive Outstanding (r : Recovery) : Prop
  | none (missing : r.missingSequenceNumbers = [])
  | some (N k : ℕ) (pos : 1 ≤ k) (lt : k < N) (bound : N < 2 ^ 64)
    (missing : r.missingSequenceNumbers = countdown N k) (state : r.state ≠ .initial)

theorem popReceived_countdown_eq_error_iff (hk : 1 ≤ k) (hlt : k < N) (hN : N < 2 ^ 64) :
    popReceived (countdown N k) (populateVector d.1 d.2) = .error .backOfEmpty ↔
      d.1.toNat + d.2.toNat < 2 ^ 64 ∧ d.1.toNat ≤ k ∧ N < d.1.toNat + d.2.toNat := by
  have hkt : (UInt64.ofNat k).toNat = k := UInt64.toNat_ofNat_of_lt' (by omega : k < 2 ^ 64)
  cases Nat.lt_or_ge (d.1.toNat + d.2.toNat) (2 ^ 64)
  case inr hge =>
    have hz : UInt64.ofNat k ∉ List.replicate d.2.toNat 0 := by
      intro hm
      have hz := congrArg UInt64.toNat (List.eq_of_mem_replicate hm)
      rw [hkt] at hz
      exact absurd hz (Nat.ne_of_gt hk)
    rw [populateVector_of_wrap hge, popReceived_of_notMem hlt hz]
    exact iff_of_false Run.ok_ne_error fun h => Nat.not_lt.mpr hge h.left
  case inl hf =>
    rw [populateVector_eq hf, and_iff_right hf]
    cases Nat.lt_or_ge k d.1.toNat
    case inl hlow =>
      have hm : UInt64.ofNat k ∉ (List.range' d.1.toNat d.2.toNat).map .ofNat := by
        intro hm
        rw [← populateVector_eq hf] at hm
        exact Nat.not_le.mpr hlow (mem_populateVector hf (by omega) hm).left
      rw [popReceived_of_notMem hlt hm]
      exact iff_of_false Run.ok_ne_error fun h => Nat.not_le.mpr hlow h.left
    case inr hle =>
      rw [popReceived_range'_iff hle hlt.le (absurd · hlt.ne) hN hf, and_iff_right hle]

theorem covered_iff_of_nil (hr : r.state = .rewinding) (hm : r.missingSequenceNumbers = []) : r.Covered d ↔ d.2 = 0 := by
  simp [Covered, hr, hm]

theorem covered_iff_of_countdown (hr : r.state = .rewinding) (hk : 1 ≤ k) (hlt : k < N) (hN : N < 2 ^ 64)
    (hm : r.missingSequenceNumbers = countdown N k) :
    r.Covered d ↔ ¬(d.1.toNat + d.2.toNat < 2 ^ 64 ∧ d.1.toNat ≤ k ∧ N < d.1.toNat + d.2.toNat) := by
  have hf : (UInt64.ofNat (N - 1)).toNat = N - 1 := UInt64.toNat_ofNat_of_lt' (by omega : N - 1 < 2 ^ 64)
  have hb : (UInt64.ofNat k).toNat = k := UInt64.toNat_ofNat_of_lt' (by omega : k < 2 ^ 64)
  have hc : d.2 ≠ 0 ↔ d.2.toNat ≠ 0 := UInt16.toNat_inj.not.symm
  rw [Covered, imp_iff_right hr, hm, countdown_front hlt, countdown_getLast? hlt, hc]
  constructor
  case mp =>
    rintro h ⟨h₁, h₂, h₃⟩
    obtain ⟨_, _, hfront, hback, hle⟩ := h (by omega)
    cases hfront
    cases hback
    rw [UInt64.le_iff_toNat_le, hf, hb] at hle
    have := hle h₁ h₂
    omega
  case mpr =>
    refine fun h _ => ⟨_, _, rfl, rfl, fun h₁ h₂ => ?_⟩
    rw [UInt64.le_iff_toNat_le, hb] at h₂
    rw [hf]
    omega

theorem requestMissingPackets_missing {e s : UInt64} :
    (r.requestMissingPackets e s).missingSequenceNumbers = r.missingSequenceNumbers := by
  rw [requestMissingPackets]
  split <;> rfl

theorem continueRewinding_missing : r.continueRewinding.missingSequenceNumbers = r.missingSequenceNumbers := by
  rw [continueRewinding]
  split
  case h_2 => rfl
  case h_1 =>
    split
    case isTrue  => exact requestMissingPackets_missing
    case isFalse => rfl

theorem checkGap_missing : (r.checkGap d.1 d.2).missingSequenceNumbers = r.missingSequenceNumbers := by
  cases Classical.em (r.Gap d.1)
  case inl hg => rw [checkGap_of_gap hg, requestMissingPackets_missing]
  case inr hg => rw [checkGap_of_not_gap hg]

theorem checkGap_state (h : r.state ≠ .initial) : (r.checkGap d.1 d.2).state ≠ .initial := by
  cases Classical.em (r.Gap d.1)
  case inl hg => exact checkGap_of_gap hg ▸ requestMissingPackets_state h
  case inr hg => exact checkGap_of_not_gap hg ▸ h

namespace Outstanding

theorem step_eq_error_iff (h : Outstanding r) : r.step d = .error .backOfEmpty ↔ ¬r.Covered d := by
  cases Decidable.em (r.state = .rewinding)
  case inr hr =>
    refine iff_of_false ?_ fun hc => hc fun hr' => absurd hr' hr
    rw [Recovery.step, track, if_neg hr]
    split <;> exact Run.ok_ne_error
  case inl hr =>
    rw [Recovery.step, track, if_pos hr]
    refine Run.bind_error_iff.trans <| Run.bind_error_iff.trans ?_
    cases h
    case none hm => rw [hm, popReceived_nil_eq_error_iff, covered_iff_of_nil hr hm, populateVector_ne_nil_iff]
    case some N k hk hlt hN hm _ =>
      rw [hm, popReceived_countdown_eq_error_iff hk hlt hN, covered_iff_of_countdown hr hk hlt hN hm, not_not]

theorem of (h : Outstanding r) (hm : r'.missingSequenceNumbers = r.missingSequenceNumbers)
    (hs : r.state ≠ .initial → r'.state ≠ .initial) : Outstanding r' := by
  cases h
  case none hr                   => exact .none (hm.trans hr)
  case some N k h₁ h₂ h₃ h₄ hst => exact .some N k h₁ h₂ h₃ (hm.trans h₄) (hs hst)

theorem missing (h : Outstanding r) (hs : r.state = .initial) : r.missingSequenceNumbers = [] := by
  cases h
  case none hm => exact hm
  case some hr => exact absurd hs hr

theorem popped {ns missing : List UInt64} (h : Outstanding r) (hs : r.state ≠ .initial)
    (hp : popReceived r.missingSequenceNumbers ns = .ok missing) :
    Outstanding { r with missingSequenceNumbers := missing } := by
  cases h
  case none hm =>
    rw [hm] at hp
    cases ns
    case nil  => exact .none (Except.ok.inj hp).symm
    case cons => cases hp
  case some N k hk hlt hN hm _ =>
    have ⟨k', hk₁, hk₂, hm', _⟩ := popReceived_countdown hlt.le (hm ▸ hp)
    subst hm'
    cases Nat.lt_or_eq_of_le hk₂
    case inl hlt' => exact .some N k' (hk.trans hk₁) hlt' hN rfl hs
    case inr he   => exact .none (he ▸ countdown_self)

theorem checks (h : Outstanding r) (hc : r.Checks d r₁) : Outstanding r₁ := by
  cases hc
  case live => exact h
  case rewound hr hw =>
    have hs : r.state ≠ .initial := hr ▸ State.noConfusion
    have hc := (Checks.rewound hr hw).state hs
    obtain ⟨missing, hp, rfl⟩ := whileRewinding_ok hw
    exact (h.popped hs hp).of continueRewinding_missing fun _ => hc

theorem step (h : Outstanding r) (hd : 1 ≤ d.1.toNat) (he : r.step d = .ok r') : Outstanding r' := by
  cases step_cases he
  case inl hs =>
    obtain ⟨hs, rfl⟩ := hs
    have ⟨hm, hst, _, hlt⟩ := initialSync_eq hd hs (h.missing hs.left)
    exact .some d.1.toNat 1 (Nat.le_refl 1) hlt d.1.toNat_lt hm (hst ▸ State.noConfusion)
  case inr hc =>
    obtain ⟨r₁, hc, rfl⟩ := hc
    exact (h.checks hc).of checkGap_missing checkGap_state

theorem of_run (hd : ∀ d ∈ ds, 1 ≤ d.1.toNat) (h : run ds = .ok r) : Outstanding r := by
  induction ds using List.reverseRecOn generalizing r
  case nil =>
    cases h
    exact .none rfl
  case append_singleton ds d hi =>
    obtain ⟨hd, hlast⟩ := List.forall_mem_append.mp hd
    obtain ⟨r₀, h₀, he⟩ := Run.exec_snoc_ok h
    exact (hi hd h₀).step (hlast d (List.mem_singleton_self d)) he

end Outstanding

end Recovery

section Payload

-- The payload can make the client fail, too, but not in this way.

variable {levels : Levels} {b : OrderbookBuilder} {call : Call} {payload : Memory}

theorem Levels.executeOrderImpl_ne_backOfEmpty {price : Int32} {qty : UInt64} :
    levels.executeOrderImpl price qty ≠ .error .backOfEmpty := by
  simp only [executeOrderImpl]
  split
  case h_1 => split <;> simp
  case h_2 => simp

theorem Levels.deleteOrder_ne_backOfEmpty {price : Int32} {qty : UInt64} :
    levels.deleteOrder price qty ≠ .error .backOfEmpty := by
  simp only [deleteOrder]
  split
  case h_2 => simp
  case h_1 =>
    split
    case isFalse => simp
    case isTrue  => split <;> simp

theorem Call.apply_ne_backOfEmpty : call.apply b ≠ .error .backOfEmpty := by
  cases call
  case addOrder => exact Run.ok_ne_error
  case executeOrder e =>
    rw [apply, OrderbookBuilder.executeOrder]
    split
    case h_1 => exact Run.ok_ne_error
    case h_2 =>
      intro he
      have he := Run.bind_error_iff.mp he
      rw [L2Orderbook.executeOrder_eq, Run.bind_error_iff] at he
      exact Levels.executeOrderImpl_ne_backOfEmpty he
  case deleteOrder e =>
    rw [apply, OrderbookBuilder.deleteOrder]
    split
    case h_1 => exact Run.ok_ne_error
    case h_2 =>
      intro he
      have he := Run.bind_error_iff.mp he
      rw [L2Orderbook.deleteOrder_eq, Run.bind_error_iff] at he
      exact Levels.deleteOrder_ne_backOfEmpty he

namespace ItchParser

theorem handle_ne_backOfEmpty : handle Call.apply b payload ≠ .error .backOfEmpty := by
  rw [handle_eq_exec]
  cases payload.call?
  case none => exact Run.ok_ne_error
  case some =>
    rw [Option.toList_some, Run.exec_singleton]
    exact Call.apply_ne_backOfEmpty

theorem parsePayload_ne_backOfEmpty {count : UInt16} :
    parsePayload Call.apply b payload count ≠ .error .backOfEmpty := by
  have hl n offset : parsePayload.loop Call.apply payload n offset b ≠ .error .backOfEmpty := by
    induction n generalizing offset b
    case zero => exact Run.ok_ne_error
    case succ n hi =>
      rw [parsePayload.loop]
      cases hh : handle Call.apply b (payload.shift (offset.toNat + 2))
      case ok b' => exact hi _
      case error e =>
        intro he
        cases he
        exact handle_ne_backOfEmpty hh
  exact hl _ _

end ItchParser

end Payload

namespace MarketDataClient

open ItchParser Recovery

variable {client : MarketDataClient} {m : Memory} {ms : List Memory}

-- Only a datagram whose payload is accepted gets as far as the vector.
theorem parse_eq_error_iff (h : Outstanding client.toRecovery) :
    client.parse m = .error .backOfEmpty ↔
      ∃ b, parsePayload Call.apply client.builder (m.shift 20) m.datagram.2 = .ok b ∧
        ¬client.toRecovery.Covered m.datagram := by
  rw [parse_eq]
  cases hp : parsePayload Call.apply client.builder (m.shift 20) m.datagram.2
  case error e =>
    refine iff_of_false (fun he => ?_) fun ⟨_, hb, _⟩ => Run.ok_ne_error hb.symm
    cases he
    exact parsePayload_ne_backOfEmpty hp
  case ok b =>
    refine (Run.bind_error_iff.trans h.step_eq_error_iff).trans ⟨fun hc => ⟨b, rfl, hc⟩, ?_⟩
    rintro ⟨_, _, hc⟩
    exact hc

theorem run_ne_backOfEmpty_iff (hd : ∀ m ∈ ms, 1 ≤ m.datagram.1.toNat) :
    run ms ≠ .error .backOfEmpty ↔
      Run.Admits parse {} (fun _ client m =>
        ∀ b, parsePayload Call.apply client.builder (m.shift 20) m.datagram.2 = .ok b →
          client.toRecovery.Covered m.datagram) ms := by
  induction ms using List.reverseRecOn
  case nil => exact iff_of_true Run.ok_ne_error .nil
  case append_singleton ms m hi =>
    obtain ⟨hd, hlast⟩ := List.forall_mem_append.mp hd
    cases hr : run ms
    case error e =>
      rw [run, Run.exec_append_of_error hr, Run.admits_snoc_iff_of_error hr, ← hi hd, hr]
    case ok client =>
      have ho : Outstanding client.toRecovery := .of_run (List.forall_mem_map.mpr hd) (run_recovery hr)
      rw [run, Run.exec_snoc_of_ok hr, Run.admits_snoc_iff hr, ne_eq, parse_eq_error_iff ho,
        and_iff_right ((hi hd).mp (hr ▸ Run.ok_ne_error))]
      simp

section Samples

-- Three messages of a type that is ignored.
def crossing : Packet where
  session        := sampleSession
  sequenceNumber := 1
  messages       := .replicate 3 [0]

def crossed : List Memory :=
  buffers [heartbeat sampleSession 3, crossing]

theorem crossed_pos : ∀ m ∈ crossed, 1 ≤ m.datagram.1.toNat := by
  have hd : crossed.map Memory.datagram = [(3, 0), (1, 3)] := by decide +kernel
  have hp : ∀ d ∈ crossed.map Memory.datagram, 1 ≤ d.1.toNat := by
    rw [hd, List.forall_mem_cons, List.forall_mem_singleton]
    exact ⟨by decide, by decide⟩
  exact fun m hm => hp _ (List.mem_map_of_mem hm)

theorem run_ne_backOfEmpty_iff_crossed :
    run crossed ≠ .error .backOfEmpty ↔
      Run.Admits parse {} (fun _ client m =>
        ∀ b, parsePayload Call.apply client.builder (m.shift 20) m.datagram.2 = .ok b →
          client.toRecovery.Covered m.datagram) crossed :=
  run_ne_backOfEmpty_iff crossed_pos

-- The client joins at 3 and is sent 1, 2 and 3 again.
theorem crossed_reads_empty : (∀ m ∈ crossed, 1 ≤ m.datagram.1.toNat) ∧ run crossed = .error .backOfEmpty :=
  ⟨crossed_pos, rfl⟩

end Samples

end MarketDataClient
