import BistHft.Client.Theorems.Application

-- The requests that a client sends while it recovers, as they are put on the wire.

-- Sequence number and message count of the datagram at the pointer.
def Memory.datagram (m : Memory) : Datagram :=
  (be64toh m.downstreamHeader.sequenceNumber, be16toh m.downstreamHeader.messageCount)

-- The header that asks for the sequence numbers from `request.1` to `request.2 - 1`.
def requestHeader (sessionName : List UInt8) (request : UInt64 × UInt64) : DownstreamHeader where
  session        := sessionName
  sequenceNumber := htobe64 request.1
  messageCount   := htobe16 (request.2 - request.1).toUInt16

namespace MarketDataClient

variable {client client' : MarketDataClient} {m : Memory} {ms : List Memory}

theorem parse_eq :
    client.parse m =
      ItchParser.parsePayload Call.apply client.builder (m.shift 20) m.datagram.2 >>= fun builder =>
        client.toRecovery.step m.datagram >>= fun r =>
          .ok { toRecovery := r, builder, itchParser := { session := m.downstreamHeader.session } } := by
  rw [parse, ItchParser.parse, bind_assoc]
  rfl

theorem parse_maps : Run.Maps parse Recovery.step toRecovery Memory.datagram := by
  intro client m client' h
  rw [parse_eq] at h
  obtain ⟨builder, _, h⟩ := Run.bind_ok h
  obtain ⟨r, hr, h⟩ := Run.bind_ok h
  cases h
  exact hr

end MarketDataClient

namespace Recovery

variable {r r' r'' : Recovery} {d : Datagram} {ds : List Datagram} {q q' : List (UInt64 × UInt64)}
variable {e s : UInt64} {N k : ℕ}

-- The requests `q` have been sent, each of them with its header.
structure Sent (r r' : Recovery) (q : List (UInt64 × UInt64)) : Prop where
  requests    : r'.requests = r.requests ++ q
  written     : r'.written = r.written ++ q.map (requestHeader r.sessionName)
  sessionName : r'.sessionName = r.sessionName
  ascending   : ∀ x ∈ q, x.1 < x.2

namespace Sent

theorem none (hr : r'.requests = r.requests) (hw : r'.written = r.written) (hs : r'.sessionName = r.sessionName) :
    Sent r r' [] :=
  ⟨by simp [hr], by simp [hw], hs, List.forall_mem_nil _⟩

theorem of (h : Sent r' r'' q) (hr : r'.requests = r.requests) (hw : r'.written = r.written)
    (hs : r'.sessionName = r.sessionName) : Sent r r'' q :=
  ⟨hr ▸ h.requests, hw ▸ hs ▸ h.written, h.sessionName.trans hs, h.ascending⟩

theorem trans (h : Sent r r' q) (h' : Sent r' r'' q') : Sent r r'' (q ++ q') where
  requests    := by rw [h'.requests, h.requests, List.append_assoc]
  written     := by rw [h'.written, h.written, h.sessionName, List.map_append, List.append_assoc]
  sessionName := h'.sessionName.trans h.sessionName
  ascending   := List.forall_mem_append.mpr ⟨h.ascending, h'.ascending⟩

end Sent

section Steps

theorem requestMissingPackets_sent :
    r.Sent (r.requestMissingPackets e s) (if e < s then [(e, s)] else []) := by
  rw [requestMissingPackets]
  split
  case isFalse => exact .none rfl rfl rfl
  case isTrue h => exact ⟨rfl, rfl, rfl, List.forall_mem_singleton.mpr h⟩

-- The fields that the check for missing packets reads.
def expectation (r : Recovery) : UInt64 × UInt64 :=
  (r.rewindNeededTillThisSequenceNumberExclusive, r.nextExpectedSeqNo)

theorem requestMissingPackets_expectation : (r.requestMissingPackets e s).expectation = r.expectation := by
  rw [requestMissingPackets]
  split <;> rfl

theorem continueRewinding_expectation : r.continueRewinding.expectation = r.expectation := by
  rw [continueRewinding]
  split
  case h_2 => rfl
  case h_1 =>
    split
    case isTrue  => exact requestMissingPackets_expectation
    case isFalse => rfl

theorem continueRewinding_sent : ∃ q, r.Sent r.continueRewinding q := by
  rw [continueRewinding]
  split
  case h_2 => exact ⟨[], .none rfl rfl rfl⟩
  case h_1 back front _ _ =>
    split
    case isTrue  => exact ⟨_, requestMissingPackets_sent.of rfl rfl rfl⟩
    case isFalse => exact ⟨[], .none rfl rfl rfl⟩

-- `calculateNextSequenceNumber` is called and returns `GapDetected`.
def Gap (r : Recovery) (sequenceNumber : UInt64) : Prop :=
  sequenceNumber > r.rewindNeededTillThisSequenceNumberExclusive ∧
    r.nextExpectedSeqNo ≠ 0 ∧ sequenceNumber ≠ r.nextExpectedSeqNo

theorem gap_iff : r.Gap d.1 ↔ d.1 > r.rewindNeededTillThisSequenceNumberExclusive ∧
    (r.calculateNextSequenceNumber d.1 d.2).1 = .gapDetected := by
  simp [Gap, calculateNextSequenceNumber]

theorem checkGap_of_gap (h : r.Gap d.1) :
    r.checkGap d.1 d.2 =
      { r with nextExpectedSeqNo := d.1 + d.2.toUInt64 }.requestMissingPackets (d.1 + d.2.toUInt64) d.1 := by
  have ⟨hw, hg⟩ := h
  simp [checkGap, calculateNextSequenceNumber, hw, hg]

theorem checkGap_of_not_gap (h : ¬r.Gap d.1) :
    r.checkGap d.1 d.2 =
      { r with nextExpectedSeqNo :=
          if d.1 > r.rewindNeededTillThisSequenceNumberExclusive then d.1 + d.2.toUInt64 else r.nextExpectedSeqNo } := by
  rw [checkGap]
  split
  case isFalse => rfl
  case isTrue hw =>
    have hg : ¬(r.nextExpectedSeqNo ≠ 0 ∧ d.1 ≠ r.nextExpectedSeqNo) := fun hg => h ⟨hw, hg⟩
    simp only [calculateNextSequenceNumber, if_neg hg]

-- The state in which `track` gets to the check for missing packets.
inductive Checks (r : Recovery) (d : Datagram) : Recovery → Prop
  | rewound {r₁ : Recovery} (state : r.state = .rewinding) (he : r.whileRewinding d.1 d.2 = .ok r₁) : Checks r d r₁
  | live (state : r.state ≠ .rewinding) (h : ¬r.SyncNeeded d.1) : Checks r d r

theorem step_cases (h : r.step d = .ok r') :
    r.SyncNeeded d.1 ∧ r' = r.initialSync d.1 ∨ ∃ r₁, r.Checks d r₁ ∧ r' = r₁.checkGap d.1 d.2 := by
  cases Decidable.em (r.state = .rewinding)
  case inl hr =>
    have ⟨r₁, hw, he⟩ := step_rewinding hr h
    exact .inr ⟨r₁, .rewound hr hw, he⟩
  case inr hr =>
    rw [step, track, if_neg hr] at h
    cases Decidable.em (r.SyncNeeded d.1)
    case inl hs =>
      rw [if_pos hs] at h
      exact .inl ⟨hs, (Except.ok.inj h).symm⟩
    case inr hs =>
      rw [if_neg hs] at h
      exact .inr ⟨r, .live hr hs, (Except.ok.inj h).symm⟩

namespace Checks

variable {r₁ : Recovery}

theorem not_syncNeeded (h : r.Checks d r₁) : ¬r.SyncNeeded d.1 := by
  cases h
  case rewound hr _ => exact fun hs => State.noConfusion (hr.symm.trans hs.left)
  case live _ hs    => exact hs

theorem expectation (h : r.Checks d r₁) : r₁.expectation = r.expectation := by
  cases h
  case live => rfl
  case rewound _ hw =>
    obtain ⟨_, _, rfl⟩ := whileRewinding_ok hw
    exact continueRewinding_expectation

theorem gap_iff (h : r.Checks d r₁) : r₁.Gap s ↔ r.Gap s := by
  have ⟨hw, hn⟩ := Prod.mk.inj h.expectation
  rw [Gap, Gap, hw, hn]

theorem sent (h : r.Checks d r₁) : ∃ q, r.Sent r₁ q := by
  cases h
  case live => exact ⟨[], .none rfl rfl rfl⟩
  case rewound _ hw =>
    obtain ⟨missing, _, rfl⟩ := whileRewinding_ok hw
    have ⟨q, hq⟩ := continueRewinding_sent (r := { r with missingSequenceNumbers := missing })
    exact ⟨q, hq.of rfl rfl rfl⟩

end Checks

theorem initialSync_sent : r.Sent (r.initialSync s) (if 1 < s then [(1, s)] else []) :=
  requestMissingPackets_sent.of rfl rfl rfl

theorem checkGap_sent : ∃ q, r.Sent (r.checkGap d.1 d.2) q := by
  cases Classical.em (r.Gap d.1)
  case inr h => exact checkGap_of_not_gap h ▸ ⟨[], .none rfl rfl rfl⟩
  case inl h => exact checkGap_of_gap h ▸ ⟨_, requestMissingPackets_sent.of rfl rfl rfl⟩

theorem step_sent (h : r.step d = .ok r') : ∃ q, r.Sent r' q := by
  cases step_cases h
  case inl h => exact h.right ▸ ⟨_, initialSync_sent⟩
  case inr h =>
    obtain ⟨r₁, hc, rfl⟩ := h
    obtain ⟨q, hq⟩ := hc.sent
    obtain ⟨q', hq'⟩ := checkGap_sent (r := r₁) (d := d)
    exact ⟨q ++ q', hq.trans hq'⟩

-- All headers are those of the requests, with the session name that the client starts with.
theorem run_sent (h : run ds = .ok r) : ∃ q, Sent {} r q := by
  refine Run.exec_induction (I := fun _ r => ∃ q, Sent {} r q) ⟨[], .none rfl rfl rfl⟩ ?next h
  case next =>
    intro _ _ _ _ _ ⟨q, hq⟩ he
    have ⟨q', hq'⟩ := step_sent he
    exact ⟨q ++ q', hq.trans hq'⟩

end Steps

section Asking

-- The datagram makes the client ask for something that it does not have asked for before: the client
-- joins late, or there is a gap at a datagram whose end wraps around.
inductive Asks (r : Recovery) (d : Datagram) : Prop
  | sync (h : r.SyncNeeded d.1) (late : 1 < d.1)
  | gap (h : ¬r.SyncNeeded d.1) (gap : r.Gap d.1) (wraps : d.1 + d.2.toUInt64 < d.1)

-- Nothing has been asked for so far.
structure Idle (r : Recovery) : Prop where
  requests : r.requests = []
  state    : r.state ≠ .rewinding

theorem Idle.requestMissingPackets (h : r.Idle) :
    ((r.requestMissingPackets e s).requests = [] ↔ ¬e < s) ∧
      ((r.requestMissingPackets e s).requests = [] → (r.requestMissingPackets e s).Idle) := by
  cases Decidable.em (e < s)
  case inl hlt =>
    have hn : (r.requestMissingPackets e s).requests ≠ [] := by
      rw [(requestMissingPackets_of_lt hlt).left, h.requests]
      exact List.cons_ne_nil _ _
    exact ⟨iff_of_false hn (not_not.mpr hlt), fun he => absurd he hn⟩
  case inr hle =>
    rw [requestMissingPackets_of_le (UInt64.not_lt.mp hle)]
    exact ⟨iff_of_true h.requests hle, fun _ => h⟩

theorem Idle.step (h : r.Idle) (he : r.step d = .ok r') :
    (r'.requests = [] ↔ ¬r.Asks d) ∧ (r'.requests = [] → r'.Idle) := by
  cases step_cases he
  case inl hs =>
    obtain ⟨hs, rfl⟩ := hs
    have hi : Idle { r with
        missingSequenceNumbers := r.missingSequenceNumbers ++ missingBefore d.1
        lastRequestedSequenceNumber := 1
        rewindNeededTillThisSequenceNumberExclusive := d.1 } := ⟨h.requests, h.state⟩
    have ha : r.Asks d ↔ 1 < d.1 := by
      refine ⟨fun ha => ?_, .sync hs⟩
      cases ha
      case sync late  => exact late
      case gap hn _ _ => exact absurd hs hn
    rw [ha]
    exact hi.requestMissingPackets
  case inr hc =>
    obtain ⟨r₁, hc, rfl⟩ := hc
    have hn := hc.not_syncNeeded
    cases hc
    case rewound hr _ => exact absurd hr h.state
    case live =>
      cases Classical.em (r.Gap d.1)
      case inr hg =>
        rw [checkGap_of_not_gap hg]
        refine ⟨iff_of_true h.requests fun ha => ?_, fun _ => ⟨h.requests, h.state⟩⟩
        cases ha
        case sync hs _   => exact hn hs
        case gap _ hg' _ => exact hg hg'
      case inl hg =>
        have hi : Idle { r with nextExpectedSeqNo := d.1 + d.2.toUInt64 } := ⟨h.requests, h.state⟩
        have ha : r.Asks d ↔ d.1 + d.2.toUInt64 < d.1 := by
          refine ⟨fun ha => ?_, .gap hn hg⟩
          cases ha
          case sync hs _ => exact absurd hs hn
          case gap wraps => exact wraps
        rw [checkGap_of_gap hg, ha]
        exact hi.requestMissingPackets

-- Only a step that asks for something new makes a client begin to rewind, and without one it sends nothing.
theorem run_requests_iff (h : run ds = .ok r) :
    (r.requests = [] ↔ Run.Admits Recovery.step {} (fun _ r d => ¬r.Asks d) ds) ∧ (r.requests = [] → r.Idle) := by
  induction ds using List.reverseRecOn generalizing r
  case nil =>
    cases h
    exact ⟨iff_of_true rfl .nil, fun _ => ⟨rfl, State.noConfusion⟩⟩
  case append_singleton ds d hi =>
    obtain ⟨r₀, h₀, he⟩ := Run.exec_snoc_ok h
    obtain ⟨hi, hidle⟩ := hi h₀
    rw [Run.admits_snoc_iff h₀, ← hi]
    cases Classical.em (r₀.requests = [])
    case inl hq =>
      rw [and_iff_right hq]
      exact (hidle hq).step he
    case inr hq =>
      obtain ⟨q, hs⟩ := step_sent he
      have hn : r.requests ≠ [] := hs.requests ▸ List.append_ne_nil_of_left_ne_nil hq q
      exact ⟨iff_of_false hn fun h => hq h.left, fun h => absurd h hn⟩

end Asking

section Exact

variable {x : UInt64 × UInt64} {sessionName : List UInt8} {r₁ : Recovery}

-- The header asks for the sequence numbers that the request is about, and for at least one.
structure Exact (request : UInt64 × UInt64) (header : DownstreamHeader) : Prop where
  sequenceNumber : be64toh header.sequenceNumber = request.1
  messageCount   : request.1.toNat + (be16toh header.messageCount).toNat = request.2.toNat
  nonempty       : be16toh header.messageCount ≠ 0

-- The distance fits in the message count.
def Short (request : UInt64 × UInt64) : Prop :=
  request.2.toNat - request.1.toNat < 2 ^ 16

theorem exact_iff (h : x.1 < x.2) : Exact x (requestHeader sessionName x) ↔ Short x := by
  have hlt := UInt64.lt_iff_toNat_lt.mp h
  have hc : (be16toh (requestHeader sessionName x).messageCount).toNat = (x.2.toNat - x.1.toNat) % 2 ^ 16 := by
    rw [requestHeader, htobe16, be16toh_be16toh, UInt64.toNat_toUInt16, UInt64.toNat_sub_of_le _ _ (UInt64.le_of_lt h)]
  constructor
  case mp =>
    intro he
    have hm := he.messageCount
    rw [hc] at hm
    rw [Short]
    omega
  case mpr =>
    intro hs
    rw [Nat.mod_eq_of_lt hs] at hc
    refine ⟨be64toh_be64toh, by omega, fun hz => ?_⟩
    have hz : (be16toh (requestHeader sessionName x).messageCount).toNat = 0 := by rw [hz]; rfl
    omega

-- Where the end of a datagram wraps it is almost 2^64 below the beginning.
theorem not_short_of_wrap (h : d.1 + d.2.toUInt64 < d.1) : ¬Short (d.1 + d.2.toUInt64, d.1) := by
  have hc : d.2.toUInt64.toNat = d.2.toNat := UInt16.toNat_toUInt64 _
  have hd := d.1.toNat_lt
  have hd' := d.2.toNat_lt
  rw [UInt64.lt_iff_toNat_lt, UInt64.toNat_add, hc] at h
  simp only [Short, UInt64.toNat_add, hc]
  omega

-- A join at a distance that fits, and no gap at a datagram that ends beyond the last sequence number.
structure Fits (r : Recovery) (d : Datagram) : Prop where
  sync : r.SyncNeeded d.1 → d.1.toNat ≤ 2 ^ 16
  gap  : ¬r.SyncNeeded d.1 → r.Gap d.1 → d.1.toNat + d.2.toNat < 2 ^ 64

-- Where the client is as long as its requests have been short.
inductive Tracked (r : Recovery) : Prop
  | before (state : r.state = .initial) (missing : r.missingSequenceNumbers = [])
  | rewinding (N k : ℕ) (pos : 1 ≤ k) (lt : k < N) (le : N ≤ 2 ^ 16) (state : r.state = .rewinding)
    (missing : r.missingSequenceNumbers = countdown N k)
  | after (state : r.state = .continuous)

namespace Tracked

theorem of (h : Tracked r) (hs : r'.state = r.state) (hm : r'.missingSequenceNumbers = r.missingSequenceNumbers) :
    Tracked r' := by
  cases h
  case before h₁ h₂                => exact .before (hs.trans h₁) (hm.trans h₂)
  case rewinding N k h₁ h₂ h₃ h₄ h₅ => exact .rewinding N k h₁ h₂ h₃ (hs.trans h₄) (hm.trans h₅)
  case after h₁                    => exact .after (hs.trans h₁)

theorem missing (h : Tracked r) (hs : r.state = .initial) : r.missingSequenceNumbers = [] := by
  cases h
  case before h              => exact h
  case rewinding hr _        => exact State.noConfusion (hr.symm.trans hs)
  case after hc              => exact State.noConfusion (hc.symm.trans hs)

-- What is asked for again lies between 1 and the number at which the client has joined.
theorem checks (h : Tracked r) (hc : r.Checks d r₁) : ∃ q, r.Sent r₁ q ∧ (∀ x ∈ q, Short x) ∧ Tracked r₁ := by
  cases hc
  case live => exact ⟨[], .none rfl rfl rfl, List.forall_mem_nil _, h⟩
  case rewound hr hw =>
    cases h
    case before hi _ => exact State.noConfusion (hr.symm.trans hi)
    case after hi    => exact State.noConfusion (hr.symm.trans hi)
    case rewinding N k pos lt le _ hm =>
      obtain ⟨missing, hp, rfl⟩ := whileRewinding_ok hw
      obtain ⟨k', hk₁, hk₂, rfl, _⟩ := popReceived_countdown lt.le (hm ▸ hp)
      cases Nat.eq_or_lt_of_le hk₂
      case inl he =>
        subst he
        rw [countdown_self, continueRewinding_nil rfl]
        exact ⟨[], .none rfl rfl rfl, List.forall_mem_nil _, .after rfl⟩
      case inr hlt =>
        have hN : (UInt64.ofNat N).toNat = N := UInt64.toNat_ofNat_of_lt' (by omega : N < 2 ^ 64)
        have hk : (UInt64.ofNat k').toNat = k' := UInt64.toNat_ofNat_of_lt' (by omega : k' < 2 ^ 64)
        have hs : UInt64.ofNat k' < .ofNat N := by rwa [UInt64.lt_iff_toNat_lt, hk, hN]
        rw [continueRewinding_countdown (r := { r with missingSequenceNumbers := countdown N k' }) hlt rfl]
        split
        case isFalse =>
          exact ⟨[], .none rfl rfl rfl, List.forall_mem_nil _, .rewinding N k' (pos.trans hk₁) hlt le hr rfl⟩
        case isTrue =>
          refine ⟨_, requestMissingPackets_sent.of rfl rfl rfl, ?short, ?tracked⟩
          case short => simp [hs, Short, hk, hN]; omega
          case tracked =>
            have ⟨_, hst, hm, _⟩ := requestMissingPackets_of_lt (r := {
              r with missingSequenceNumbers := countdown N k', lastRequestedSequenceNumber := .ofNat k' }) hs
            exact .rewinding N k' (pos.trans hk₁) hlt le hst hm

theorem initialSync (h : Tracked r) (hp : 1 ≤ d.1.toNat) (hs : r.SyncNeeded d.1) :
    ∃ q, r.Sent (r.initialSync d.1) q ∧ ((∀ x ∈ q, Short x) ↔ d.1.toNat ≤ 2 ^ 16) ∧
      ((∀ x ∈ q, Short x) → Tracked (r.initialSync d.1)) := by
  have ⟨hm, hst, _, hlt⟩ := initialSync_eq hp hs (h.missing hs.left)
  have h1 : (1 : UInt64).toNat = 1 := rfl
  have hlt' : 1 < d.1 := UInt64.lt_iff_toNat_lt.mpr hlt
  have hq : (∀ x ∈ if 1 < d.1 then [(1, d.1)] else [], Short x) ↔ d.1.toNat ≤ 2 ^ 16 := by
    simp [hlt', Short, h1]
    omega
  exact ⟨_, initialSync_sent, hq, fun hx => .rewinding _ 1 (Nat.le_refl 1) hlt (hq.mp hx) hst hm⟩

-- A request that the check for missing packets makes is never short.
theorem checkGap (h : Tracked r) :
    ∃ q, r.Sent (r.checkGap d.1 d.2) q ∧
      ((∀ x ∈ q, Short x) ↔ (r.Gap d.1 → d.1.toNat + d.2.toNat < 2 ^ 64)) ∧
      ((∀ x ∈ q, Short x) → Tracked (r.checkGap d.1 d.2)) := by
  cases Classical.em (r.Gap d.1)
  case inr hg =>
    rw [checkGap_of_not_gap hg]
    exact ⟨[], .none rfl rfl rfl, iff_of_true (List.forall_mem_nil _) (absurd · hg), fun _ => h.of rfl rfl⟩
  case inl hg =>
    have hc : d.2.toUInt64.toNat = d.2.toNat := UInt16.toNat_toUInt64 _
    have hd := d.1.toNat_lt
    have hd' := d.2.toNat_lt
    rw [checkGap_of_gap hg]
    cases Nat.lt_or_ge (d.1.toNat + d.2.toNat) (2 ^ 64)
    case inl hlt =>
      have hle : d.1 ≤ d.1 + d.2.toUInt64 := by
        rw [UInt64.le_iff_toNat_le, UInt64.toNat_add_of_lt (hc ▸ hlt)]
        exact Nat.le_add_right ..
      rw [requestMissingPackets_of_le hle]
      exact ⟨[], .none rfl rfl rfl, iff_of_true (List.forall_mem_nil _) fun _ => hlt, fun _ => h.of rfl rfl⟩
    case inr hge =>
      have hs : (d.1 + d.2.toUInt64).toNat = d.1.toNat + d.2.toNat - 2 ^ 64 := by
        rw [UInt64.toNat_add, hc]
        omega
      have hlt : d.1 + d.2.toUInt64 < d.1 := by rw [UInt64.lt_iff_toNat_lt, hs]; omega
      have hn := not_short_of_wrap hlt
      refine ⟨_, requestMissingPackets_sent.of rfl rfl rfl, ?_, fun hx => absurd (hx _ ?_) hn⟩
      · simpa [hlt, hg, hn] using hge
      · simp [hlt]

theorem step (h : Tracked r) (hp : 1 ≤ d.1.toNat) (he : r.step d = .ok r') :
    ∃ q, r.Sent r' q ∧ ((∀ x ∈ q, Short x) ↔ r.Fits d) ∧ ((∀ x ∈ q, Short x) → Tracked r') := by
  cases step_cases he
  case inl hs =>
    obtain ⟨hs, rfl⟩ := hs
    obtain ⟨q, hq, hi, ht⟩ := h.initialSync hp hs
    exact ⟨q, hq, ⟨fun hx => ⟨fun _ => hi.mp hx, fun hn => absurd hs hn⟩, fun hf => hi.mpr (hf.sync hs)⟩, ht⟩
  case inr hc =>
    obtain ⟨r₁, hc, rfl⟩ := hc
    obtain ⟨q, hq, hshort, ht⟩ := h.checks hc
    obtain ⟨q', hq', hi, ht'⟩ := ht.checkGap (d := d)
    have hall : (∀ x ∈ q ++ q', Short x) ↔ ∀ x ∈ q', Short x := by
      simp only [List.forall_mem_append, and_iff_right hshort]
    rw [hc.gap_iff] at hi
    refine ⟨q ++ q', hq.trans hq', hall.trans ?_, fun hx => ht' (hall.mp hx)⟩
    exact ⟨fun hx => ⟨fun hs => absurd hs hc.not_syncNeeded, fun _ => hi.mp hx⟩, fun hf => hi.mpr (hf.gap hc.not_syncNeeded)⟩

end Tracked

theorem run_short_iff (hd : ∀ d ∈ ds, 1 ≤ d.1.toNat) (h : run ds = .ok r) :
    ∃ q, Sent {} r q ∧ ((∀ x ∈ q, Short x) ↔ Run.Admits Recovery.step {} (fun _ => Fits) ds) ∧
      ((∀ x ∈ q, Short x) → Tracked r) := by
  induction ds using List.reverseRecOn generalizing r
  case nil =>
    cases h
    exact ⟨[], .none rfl rfl rfl, iff_of_true (List.forall_mem_nil _) .nil, fun _ => .before rfl rfl⟩
  case append_singleton ds d hi =>
    obtain ⟨hd, hlast⟩ := List.forall_mem_append.mp hd
    obtain ⟨r₀, h₀, he⟩ := Run.exec_snoc_ok h
    obtain ⟨q, hq, hi, ht⟩ := hi hd h₀
    rw [Run.admits_snoc_iff h₀]
    cases Classical.em (∀ x ∈ q, Short x)
    case inl hx =>
      obtain ⟨q', hq', hi', ht'⟩ := (ht hx).step (hlast d (List.mem_singleton_self d)) he
      refine ⟨q ++ q', hq.trans hq', ?_, fun h => ht' (List.forall_mem_append.mp h).right⟩
      rw [List.forall_mem_append, hi, hi']
    case inr hx =>
      obtain ⟨q', hq'⟩ := step_sent he
      have hn : ¬∀ x ∈ q ++ q', Short x := fun h => hx (List.forall_mem_append.mp h).left
      exact ⟨q ++ q', hq.trans hq', iff_of_false hn fun h => hx (hi.mpr h.left), fun h => absurd h hn⟩

end Exact

end Recovery

namespace MarketDataClient

open ItchParser Recovery

variable {client : MarketDataClient} {m : Memory} {ms : List Memory} {sessionName : List UInt8}

theorem run_recovery (h : run ms = .ok client) : Recovery.run (ms.map Memory.datagram) = .ok client.toRecovery :=
  parse_maps.exec h

theorem requests_exact_iff (hp : ∀ m ∈ ms, 1 ≤ m.datagram.1.toNat) (h : run ms = .ok client) :
    List.Forall₂ Exact client.requests client.written ↔
      Run.Admits parse {} (fun _ client m => client.toRecovery.Fits m.datagram) ms := by
  have hd : ∀ d ∈ ms.map Memory.datagram, 1 ≤ d.1.toNat := List.forall_mem_map.mpr hp
  obtain ⟨q, hq, hi, _⟩ := run_short_iff hd (run_recovery h)
  have hx : List.Forall₂ Exact client.requests client.written ↔ ∀ x ∈ q, Short x := by
    rw [hq.requests, hq.written, List.nil_append, List.nil_append, List.forall₂_map_right_iff, List.forall₂_same]
    exact forall₂_congr fun x hm => exact_iff (hq.ascending x hm)
  rw [hx, hi]
  exact parse_maps.admits_iff h

section Joined

variable {p : Packet} {session : List UInt8} {N : UInt64}

theorem header_of_holds (hm : m.Holds p.bytes) (hp : p.WellFormed) :
    m.datagram = datagram p ∧ m.downstreamHeader.session = p.session :=
  have ⟨hs, hn, hc⟩ := p.header hm hp
  ⟨congrArg₂ Prod.mk hn hc, hs⟩

-- A packet without messages, such as a rewinder sends when it has nothing to say.
def heartbeat (session : List UInt8) (N : UInt64) : Packet where
  session        := session
  sequenceNumber := N
  messages       := []

theorem heartbeat_wellFormed (N : UInt64) (hs : session.length = 10) : (heartbeat session N).WellFormed :=
  ⟨hs, Nat.zero_le _, List.forall_mem_nil _⟩

-- A client that joins at `N` asks for everything before.
theorem run_join (N : UInt64) (hs : session.length = 10) (hN : 1 < N) :
    ∃ client, run [.ofList (heartbeat session N).bytes] = .ok client ∧ client.requests = [(1, N)] ∧
      client.written = [requestHeader (.replicate 10 0) (1, N)] := by
  have ⟨hd, hh⟩ := header_of_holds Memory.holds_ofList (heartbeat_wellFormed N hs)
  have hn : Recovery.SyncNeeded {} N := ⟨rfl, fun h => UInt64.lt_irrefl 1 (h ▸ hN), rfl⟩
  have hr : Recovery.step {} (N, 0) = .ok (Recovery.initialSync {} N) := if_pos hn
  have hq := initialSync_sent (r := {}) (s := N)
  rw [if_pos hN] at hq
  refine ⟨{ toRecovery := Recovery.initialSync {} N, itchParser := ⟨session⟩ }, ?_, hq.requests, hq.written⟩
  rw [run, Run.exec_singleton, parse_eq, hd, hh]
  change Recovery.step {} (N, 0) >>= _ = _
  rw [hr]
  rfl

end Joined

-- The name that the client starts with is never replaced by that of the datagrams, so that a client which
-- asks for anything names the session only if its name is the one that it starts with.
theorem requests_session_iff (h : run ms = .ok client) :
    (∀ m ∈ ms, client.written = client.requests.map (requestHeader m.downstreamHeader.session)) ↔
      (∀ m ∈ ms, m.downstreamHeader.session = .replicate 10 0) ∨
        Run.Admits parse {} (fun _ client m => ¬client.toRecovery.Asks m.datagram) ms := by
  have ⟨q, hq⟩ := run_sent (run_recovery h)
  have hi := (run_requests_iff (run_recovery h)).left.trans (parse_maps.admits_iff h)
  rw [← hi, hq.requests, hq.written, List.nil_append, List.nil_append]
  cases q
  case nil            => exact iff_of_true (fun _ _ => rfl) (.inr rfl)
  case cons request q =>
    rw [or_iff_left (List.cons_ne_nil _ _)]
    constructor
    case mp  => exact fun h m hm => congrArg DownstreamHeader.session (List.cons.inj (h m hm)).left |>.symm
    case mpr => exact fun h m hm => by rw [h m hm]

-- No name but that one is named in all of the runs.
theorem session_named_iff (hs : sessionName.length = 10) :
    (∀ ms client, run ms = .ok client → (∀ m ∈ ms, m.downstreamHeader.session = sessionName) →
      client.written = client.requests.map (requestHeader sessionName)) ↔ sessionName = .replicate 10 0 := by
  constructor
  case mp =>
    intro h
    have ⟨client, hr, hq, hw⟩ := run_join 2 hs (by decide)
    have ⟨_, hm⟩ := header_of_holds Memory.holds_ofList (heartbeat_wellFormed 2 hs)
    have h := h _ client hr (List.forall_mem_singleton.mpr hm)
    rw [hq, hw] at h
    exact congrArg DownstreamHeader.session (List.cons.inj h).left |>.symm
  case mpr =>
    rintro rfl ms client h _
    have ⟨q, hq⟩ := run_sent (run_recovery h)
    rw [hq.requests, hq.written]
    rfl

section Samples

def sampleSession : List UInt8 :=
  .replicate 10 'S'.toUInt8

theorem sampleSession_length : sampleSession.length = 10 :=
  rfl

-- A message of a type that is ignored.
def ignored (n : UInt64) : Packet where
  session        := sampleSession
  sequenceNumber := n
  messages       := [[0]]

-- A client that joins at 4, and is sent 1 again
def rewound : List Memory :=
  buffers [heartbeat sampleSession 4, ignored 1]

theorem requests_session_iff_sample :
    ∃ client, run rewound = .ok client ∧ client.requests = [(1, 4), (2, 4)] ∧
      ((∀ m ∈ rewound, client.written = client.requests.map (requestHeader m.downstreamHeader.session)) ↔
        (∀ m ∈ rewound, m.downstreamHeader.session = .replicate 10 0) ∨
          Run.Admits parse {} (fun _ client m => ¬client.toRecovery.Asks m.datagram) rewound) :=
  ⟨_, rfl, rfl, requests_session_iff rfl⟩

theorem session_not_named :
    ¬∀ sessionName ms client, sessionName.length = 10 → run ms = .ok client →
      (∀ m ∈ ms, m.downstreamHeader.session = sessionName) →
      ∀ header ∈ client.written, header.session = sessionName := by
  intro h
  have ⟨client, hr, _, hw⟩ := run_join 2 sampleSession_length (by decide)
  have ⟨_, hm⟩ := header_of_holds Memory.holds_ofList (heartbeat_wellFormed 2 sampleSession_length)
  have h := h sampleSession _ client rfl hr (List.forall_mem_singleton.mpr hm)
  rw [hw] at h
  have h := h _ (List.mem_singleton_self _)
  contradiction

-- The distance from 1 to 65537 is a multiple of 2^16.
theorem far_join_asks_for_nothing :
    ¬∀ ms client, (∀ m ∈ ms, 1 ≤ m.datagram.1.toNat) → run ms = .ok client →
      List.Forall₂ Exact client.requests client.written := by
  intro h
  have ⟨client, hr, hq, hw⟩ := run_join 65537 sampleSession_length (by decide)
  have ⟨hd, _⟩ := header_of_holds Memory.holds_ofList (heartbeat_wellFormed 65537 sampleSession_length)
  have h := h _ client (List.forall_mem_singleton.mpr (hd ▸ by decide)) hr
  rw [hq, hw, List.forall₂_cons] at h
  exact h.left.nonempty (by decide)

-- Both the first request and the one for the rest
theorem requests_exact_iff_sample :
    ∃ client, run rewound = .ok client ∧ client.requests = [(1, 4), (2, 4)] ∧
      (List.Forall₂ Exact client.requests client.written ↔
        Run.Admits parse {} (fun _ client m => client.toRecovery.Fits m.datagram) rewound) := by
  have hd : ∀ m ∈ rewound, 1 ≤ m.datagram.1.toNat := by decide +kernel
  exact ⟨_, rfl, rfl, requests_exact_iff hd rfl⟩

end Samples

end MarketDataClient
