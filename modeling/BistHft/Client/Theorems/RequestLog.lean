import BistHft.Client.Theorems.Reordering

-- How often a client asks for what it has missed, when it is sent again in ascending order.

variable {ds pieces : List Datagram} {d : Datagram} {N k : ℕ}

-- The numbers from `k` up to `N`, one datagram after the other.
inductive Pieces (N : ℕ) : ℕ → List Datagram → Prop
  | nil : Pieces N N []
  | cons {k : ℕ} {d : Datagram} {ds : List Datagram} (starts : d.1.toNat = k) (carries : 0 < d.2.toNat)
    (h : Pieces N (k + d.2.toNat) ds) : Pieces N k (d :: ds)

theorem Pieces.le (h : Pieces N k pieces) : k ≤ N := by
  induction h
  case nil        => exact Nat.le_refl N
  case cons _ _ h => exact Nat.le_of_add_right_le h

-- Where the first of them begins.
theorem Pieces.map_fst (h : Pieces N k pieces) :
    pieces.map (fun d => (d.1, UInt64.ofNat N)) =
      (if k < N then [(.ofNat k, .ofNat N)] else []) ++ pieces.tail.map fun d => (d.1, .ofNat N) := by
  cases h
  case nil => rw [if_neg (lt_irrefl N)]; rfl
  case cons d ds hc hk h =>
    have hle := h.le
    subst hk
    rw [if_pos (by omega), UInt64.ofNat_toNat]
    rfl

-- Whether a datagram sends something again that comes before `N`. The others are live or have no messages.
def Resends (N : ℕ) (d : Datagram) : Bool :=
  d.1.toNat < N ∧ d.2 ≠ 0

namespace Recovery

variable {r r' : Recovery}

-- The client waits for `k`, and has asked for everything from there on.
structure Asked (r : Recovery) (N k : ℕ) : Prop where
  awaits    : r.Awaits N k
  requested : k < N → r.lastRequestedSequenceNumber = .ofNat k

theorem requestMissingPackets_lastRequested {e s : UInt64} :
    (r.requestMissingPackets e s).lastRequestedSequenceNumber = r.lastRequestedSequenceNumber := by
  rw [requestMissingPackets]
  split <;> rfl

namespace Asked

theorem checkGap (h : r.Asked N k) (hf : d.1.toNat + d.2.toNat < 2 ^ 64) :
    (r.checkGap d.1 d.2).Asked N k ∧ (r.checkGap d.1 d.2).requests = r.requests := by
  have ha := h.awaits.checkGap hf
  obtain ⟨n, he⟩ := checkGap_eq (r := r) hf
  rw [he] at ha ⊢
  exact ⟨⟨ha, h.requested⟩, rfl⟩

-- With numbers left that it has not asked for, the client asks for all of them.
theorem continueRewinding (hr : r.state = .rewinding) (hk : k ≤ N) (hN : N < 2 ^ 64)
    (hm : r.missingSequenceNumbers = countdown N k) :
    r.continueRewinding.Asked N k ∧
      (r.lastRequestedSequenceNumber = .ofNat k → r.continueRewinding.requests = r.requests) ∧
      (r.lastRequestedSequenceNumber ≠ .ofNat k → r.continueRewinding.requests =
        r.requests ++ if k < N then [(.ofNat k, .ofNat N)] else []) := by
  have ha := Awaits.continueRewinding hr hk hN hm
  cases Nat.eq_or_lt_of_le hk
  case inl he =>
    subst he
    have he := continueRewinding_nil (hm.trans countdown_self)
    rw [he] at ha ⊢
    simp only [lt_irrefl, if_false, List.append_nil]
    exact ⟨⟨ha, fun h => absurd h (lt_irrefl _)⟩, fun _ => trivial, fun _ => trivial⟩
  case inr hlt =>
    have he := continueRewinding_countdown hlt hm
    rw [he] at ha ⊢
    split at ha
    case isTrue hl =>
      rw [if_pos hl]
      have hlt' := (UInt64.ofNat_lt_iff_lt (hlt.trans hN) hN).mpr hlt
      refine ⟨⟨ha, fun _ => requestMissingPackets_lastRequested⟩, fun h => absurd h hl, fun _ => ?_⟩
      rw [if_pos hlt]
      exact (requestMissingPackets_of_lt hlt').left
    case isFalse hl =>
      rw [if_neg hl]
      exact ⟨⟨ha, fun _ => not_not.mp hl⟩, fun _ => rfl, fun h => absurd h hl⟩

-- A live datagram, or one without messages, leaves the client waiting for the same number.
theorem step_other (h : r.Asked N k) (hk : k ≤ N) (hN : N < 2 ^ 64) (hf : d.1.toNat + d.2.toNat < 2 ^ 64)
    (hd : Resends N d = false) : ∃ r', r.step d = .ok r' ∧ r'.Asked N k ∧ r'.requests = r.requests := by
  cases Nat.eq_or_lt_of_le hk
  case inl he =>
    subst he
    have hs := h.awaits.continuous_iff.mpr rfl
    refine ⟨_, ?_, h.checkGap hf⟩
    rw [Recovery.step, track, if_neg (by simp [hs]), if_neg (by simp [SyncNeeded, hs])]
  case inr hlt =>
    have hr := h.awaits.rewinding hlt
    have hc : ¬d.Carries k := by
      rintro ⟨h₁, h₂⟩
      simp only [Resends, ne_eq, decide_eq_false_iff_not, not_and, not_not] at hd
      have hz := congrArg UInt16.toNat (hd (h₁.trans_lt hlt))
      rw [UInt16.toNat_zero] at hz
      omega
    have hp : popReceived (countdown N k) (populateVector d.1 d.2) = .ok (countdown N k) :=
      popReceived_of_notMem hlt fun hm => hc (mem_populateVector hf (hlt.trans hN) hm)
    obtain ⟨ha, hq, _⟩ := continueRewinding (r := { r with missingSequenceNumbers := countdown N k }) hr hk hN rfl
    have hg := ha.checkGap hf
    refine ⟨_, ?_, hg.left, hg.right.trans (hq (h.requested hlt))⟩
    rw [Recovery.step, track, if_pos hr, whileRewinding, h.awaits.missing, hp]
    rfl

-- A piece of what is missing makes the client ask for the rest of it.
theorem step_piece (h : r.Asked N k) (hN : N < 2 ^ 64) (hk : d.1.toNat = k) (hc : 0 < d.2.toNat)
    (hle : k + d.2.toNat ≤ N) :
    ∃ r', r.step d = .ok r' ∧ r'.Asked N (k + d.2.toNat) ∧
      r'.requests = r.requests ++ if k + d.2.toNat < N then [(.ofNat (k + d.2.toNat), .ofNat N)] else [] := by
  have hf : d.1.toNat + d.2.toNat < 2 ^ 64 := hk ▸ hle.trans_lt hN
  have hlt : k < N := by omega
  have hr := h.awaits.rewinding hlt
  have hp := popReceived_advance (d := d) hlt hN hf (fun _ => hk) (by rw [advance, if_pos hk]; exact hle)
  rw [advance, if_pos hk] at hp
  obtain ⟨ha, _, hq⟩ := continueRewinding (r := {
    r with missingSequenceNumbers := countdown N (k + d.2.toNat) }) hr hle hN rfl
  have hg := ha.checkGap hf
  have hl : r.lastRequestedSequenceNumber ≠ .ofNat (k + d.2.toNat) := by
    rw [h.requested hlt, ne_eq, UInt64.ofNat_inj (by omega) (by omega)]
    omega
  refine ⟨_, ?_, hg.left, hg.right.trans (hq hl)⟩
  rw [Recovery.step, track, if_pos hr, whileRewinding, h.awaits.missing, hp]
  rfl

-- The first of the pieces has been asked for already, and each other one is asked for once more.
theorem exec (h : r.Asked N k) (hN : N < 2 ^ 64) (hf : ∀ d ∈ ds, d.1.toNat + d.2.toNat < 2 ^ 64)
    (hp : Pieces N k (ds.filter (Resends N))) :
    ∃ r', Run.exec Recovery.step r ds = .ok r' ∧ r'.Asked N N ∧
      r'.requests = r.requests ++ (ds.filter (Resends N)).tail.map fun d => (d.1, .ofNat N) := by
  induction ds generalizing k r
  case nil =>
    cases hp
    exact ⟨r, rfl, h, (List.append_nil _).symm⟩
  case cons d ds hi =>
    obtain ⟨hd, hf⟩ := List.forall_mem_cons.mp hf
    cases hr : Resends N d
    case false =>
      rw [List.filter_cons_of_neg (by simp [hr])] at hp ⊢
      obtain ⟨r₁, he, h₁, hq⟩ := h.step_other hp.le hN hd hr
      rw [Run.exec_cons_of_ok he, ← hq]
      exact hi h₁ hf hp
    case true =>
      rw [List.filter_cons_of_pos hr] at hp ⊢
      cases hp
      case cons hc hk hp =>
        obtain ⟨r₁, he, h₁, hq⟩ := h.step_piece hN hk hc hp.le
        obtain ⟨r', he', h', hq'⟩ := hi h₁ hf hp
        rw [Run.exec_cons_of_ok he]
        refine ⟨r', he', h', ?_⟩
        rw [hq', hq, List.append_assoc, List.tail_cons, hp.map_fst]

end Asked

theorem step_late (h : 1 < d.1.toNat) :
    ∃ r', step {} d = .ok r' ∧ r'.Asked d.1.toNat 1 ∧ r'.requests = [(1, d.1)] := by
  have h1 : (1 : UInt64) < d.1 := h
  have hs : SyncNeeded {} d.1 := ⟨rfl, (UInt64.ne_of_lt h1).symm, rfl⟩
  obtain ⟨hm, hr, _, _⟩ := initialSync_eq h.le hs rfl
  refine ⟨initialSync {} d.1, ?_, ⟨⟨hm, ?_⟩, fun _ => requestMissingPackets_lastRequested⟩, (requestMissingPackets_of_lt h1).left⟩
  case refine_1 => rw [step, track, if_neg State.noConfusion, if_pos hs]
  case refine_2 => rw [hr, if_neg h.ne]

end Recovery

namespace MarketDataClient

variable {client : MarketDataClient} {m : Memory} {ms : List Memory}

-- What the client is sent again of the messages before `N`.
def resent (N : UInt64) (ms : List Memory) : List Datagram :=
  (ms.map Memory.datagram).filter (Resends N.toNat)

-- Whatever live datagrams come in between, the client sends one request for each datagram that it is sent
-- again, and each of them asks for everything that is then missing.
theorem requests_per_datagram (hN : 1 < m.datagram.1.toNat)
    (hf : ∀ m ∈ ms, m.datagram.1.toNat + m.datagram.2.toNat < 2 ^ 64)
    (hp : Pieces m.datagram.1.toNat 1 (resent m.datagram.1 ms)) (h : run (m :: ms) = .ok client) :
    client.state = .continuous ∧ client.missingSequenceNumbers = [] ∧
      client.requests = (resent m.datagram.1 ms).map fun d => (d.1, m.datagram.1) := by
  have h := run_recovery h
  rw [List.map_cons] at h
  obtain ⟨r₁, hs, ha, hq⟩ := Recovery.step_late hN
  obtain ⟨r, he, ha, hq'⟩ := ha.exec m.datagram.1.toNat_lt (List.forall_mem_map.mpr hf) hp
  rw [Recovery.run, Run.exec_cons_of_ok hs, he] at h
  cases h
  refine ⟨ha.awaits.continuous_iff.mpr rfl, ha.awaits.missing.trans countdown_self, ?_⟩
  have hm := hp.map_fst
  rw [if_pos hN] at hm
  rw [UInt64.ofNat_toNat] at hq' hm
  exact hq'.trans (hq ▸ hm.symm)

-- The client joins at 3, and is sent 1 and 2 again with a live message in between.
theorem requests_per_datagram_joined :
    ∃ client, run (buffers [heartbeat sampleSession 3, ignored 1, ignored 3, ignored 2]) = .ok client ∧
      client.state = .continuous ∧ client.missingSequenceNumbers = [] ∧ client.requests = [(1, 3), (2, 3)] := by
  have hd : (Memory.ofList (heartbeat sampleSession 3).bytes).datagram = (3, 0) := by decide +kernel
  have hm : (buffers [ignored 1, ignored 3, ignored 2]).map Memory.datagram = [(1, 1), (3, 1), (2, 1)] := by
    decide +kernel
  have hr : resent 3 (buffers [ignored 1, ignored 3, ignored 2]) = [(1, 1), (2, 1)] := by rw [resent, hm]; decide
  have hf : ∀ d ∈ (buffers [ignored 1, ignored 3, ignored 2]).map Memory.datagram, d.1.toNat + d.2.toNat < 2 ^ 64 := by
    simp [hm]
  have hp : Pieces 3 1 (resent 3 (buffers [ignored 1, ignored 3, ignored 2])) :=
    hr ▸ .cons rfl (by decide) (.cons rfl (by decide) .nil)
  have hN : 1 < (Memory.ofList (heartbeat sampleSession 3).bytes).datagram.1.toNat := hd ▸ by decide
  have h := requests_per_datagram hN (List.forall_mem_map.mp hf) (hd ▸ hp) rfl
  rw [hd, hr] at h
  exact ⟨_, rfl, h⟩

end MarketDataClient
