import BistHft.Client.Theorems.Requests

-- The gaps that a client reports, when it joins late and when it starts with the session.

namespace Recovery

variable {r r' r₁ : Recovery} {d : Datagram} {ds : List Datagram} {N next : UInt64} {n : ℕ}

-- The datagram leads to a call of `calculateNextSequenceNumber` that returns `GapDetected`.
def Reports (r : Recovery) (d : Datagram) : Prop :=
  ∃ r₁, r.Checks d r₁ ∧ d.1 > r₁.rewindNeededTillThisSequenceNumberExclusive ∧
    (r₁.calculateNextSequenceNumber d.1 d.2).1 = .gapDetected

theorem reports_iff (h : r.Checks d r₁) : r.Reports d ↔ r.Gap d.1 where
  mp  := fun ⟨_, hc, hg⟩ => hc.gap_iff.mp (gap_iff.mpr hg)
  mpr := fun hg => ⟨r₁, h, gap_iff.mp (h.gap_iff.mpr hg)⟩

section LateJoin

-- The datagrams that reach a client that joins at `N`, and the number that the next live one has.
inductive LateJoin (N : UInt64) : List Datagram → UInt64 → Prop
  | join (c : UInt16) : LateJoin N [(N, c)] (N + c.toUInt64)
  | live {ds : List Datagram} {next : UInt64} (h : LateJoin N ds next) (c : UInt16) :
    LateJoin N (ds ++ [(next, c)]) (next + c.toUInt64)
  | rewound {ds : List Datagram} {next : UInt64} {d : Datagram} (h : LateJoin N ds next) (pos : 1 ≤ d.1)
    (lt : d.1 < N) (within : d.1.toNat + d.2.toNat ≤ N.toNat) : LateJoin N (ds ++ [d]) next

-- The sync has set the watermark, but the first datagram has not been counted.
structure Joined (N : UInt64) (r : Recovery) : Prop where
  state     : r.state ≠ .initial
  watermark : r.rewindNeededTillThisSequenceNumberExclusive = N
  expected  : r.nextExpectedSeqNo = 1

theorem requestMissingPackets_state {e s : UInt64} (h : r.state ≠ .initial) :
    (r.requestMissingPackets e s).state ≠ .initial := by
  rw [requestMissingPackets]
  split
  case isTrue  => exact State.noConfusion
  case isFalse => exact h

theorem Checks.state (hc : r.Checks d r₁) (h : r.state ≠ .initial) : r₁.state ≠ .initial := by
  cases hc
  case live => exact h
  case rewound _ hw =>
    obtain ⟨_, _, rfl⟩ := whileRewinding_ok hw
    rw [continueRewinding]
    split
    case h_2 => exact State.noConfusion
    case h_1 =>
      split
      case isTrue  => exact requestMissingPackets_state h
      case isFalse => exact h

theorem joined_initialSync (hr : r.nextExpectedSeqNo = 1) (hN : 1 < N) : Joined N (r.initialSync N) := by
  rw [initialSync, requestMissingPackets, if_pos hN]
  exact ⟨State.noConfusion, rfl, hr⟩

-- As long as no datagram is beyond the one that has been joined at, 1 is still expected.
theorem Joined.step (h : Joined N r) (hN : 1 < N) (he : r.step d = .ok r') :
    (r.Reports d ↔ N < d.1) ∧ (d.1 ≤ N → Joined N r') := by
  cases step_cases he
  case inl hs => exact absurd hs.left.left h.state
  case inr hc =>
    obtain ⟨r₁, hc, rfl⟩ := hc
    have hg : r.Gap d.1 ↔ N < d.1 := by
      rw [Gap, h.watermark, h.expected]
      exact and_iff_left_of_imp fun hd => ⟨by decide, (UInt64.ne_of_lt <| UInt64.lt_trans hN hd).symm⟩
    refine ⟨(reports_iff hc).trans hg, fun hd => ?_⟩
    have hng : ¬r₁.Gap d.1 := fun h => UInt64.not_lt.mpr hd (hg.mp (hc.gap_iff.mp h))
    obtain ⟨hw, hn⟩ := Prod.mk.inj hc.expectation
    rw [checkGap_of_not_gap hng, hw, h.watermark, if_neg (UInt64.not_lt.mpr hd), hn]
    exact ⟨hc.state h.state, rfl, h.expected⟩

theorem lateJoin_gap_iff (hl : LateJoin N ds next) (hN : 1 < N) (h : run ds = .ok r) :
    (Run.Admits step {} (fun _ r d => ¬r.Reports d) ds ↔ ∀ d ∈ ds, d.1 ≤ N) ∧
      ((∀ d ∈ ds, d.1 ≤ N) → Joined N r) := by
  -- what follows the first datagram, whether live or rewound
  have hnext {ds d r} (h : run (ds ++ [d]) = .ok r)
      (hi : ∀ {r}, run ds = .ok r → (Run.Admits step {} (fun _ r d => ¬r.Reports d) ds ↔ ∀ d ∈ ds, d.1 ≤ N) ∧
        ((∀ d ∈ ds, d.1 ≤ N) → Joined N r)) :
      (Run.Admits step {} (fun _ r d => ¬r.Reports d) (ds ++ [d]) ↔ ∀ d' ∈ ds ++ [d], d'.1 ≤ N) ∧
        ((∀ d' ∈ ds ++ [d], d'.1 ≤ N) → Joined N r) := by
    obtain ⟨r₀, h₀, he⟩ := Run.exec_snoc_ok h
    obtain ⟨hi, hj⟩ := hi h₀
    rw [Run.admits_snoc_iff h₀, hi, List.forall_mem_append, List.forall_mem_singleton]
    refine ⟨and_congr_right fun hd => ?_, fun hd => ((hj hd.left).step hN he).right hd.right⟩
    rw [((hj hd).step hN he).left, UInt64.not_lt]
  induction hl generalizing r
  case join c =>
    have hs : SyncNeeded {} N := ⟨rfl, (UInt64.ne_of_lt hN).symm, rfl⟩
    have he : r = initialSync {} N := by
      rw [run, Run.exec_singleton, step, track, if_neg State.noConfusion, if_pos hs] at h
      exact (Except.ok.inj h).symm
    have hr : ¬Reports {} (N, c) := by
      rintro ⟨_, hc, _⟩
      exact hc.not_syncNeeded hs
    exact ⟨iff_of_true (.singleton hr) (List.forall_mem_singleton.mpr UInt64.le_rfl), fun _ => he ▸ joined_initialSync rfl hN⟩
  case live hi    => exact hnext h hi
  case rewound hi => exact hnext h hi

end LateJoin

section InOrder

-- Datagrams that arrive in order from the first one of the session on, and how many messages they carry.
inductive InOrder : List Datagram → ℕ → Prop
  | nil : InOrder [] 0
  | next {ds : List Datagram} {n : ℕ} {d : Datagram} (h : InOrder ds n) (hd : d.1.toNat = 1 + n) :
    InOrder (ds ++ [d]) (n + d.2.toNat)

-- A client that has received `n` messages in order is like a new one apart from what it expects.
def inSync (n : ℕ) : Recovery :=
  { nextExpectedSeqNo := 1 + .ofNat n }

theorem step_inSync (h : d.1.toNat = 1 + n) :
    (inSync n).step d = .ok (inSync (n + d.2.toNat)) ∧ ¬(inSync n).Reports d := by
  have hd : d.1 = 1 + .ofNat n := by
    rw [← UInt64.ofNat_toNat (x := d.1), h, UInt64.ofNat_add]
    rfl
  have hs : ¬(inSync n).SyncNeeded d.1 := fun hs => hs.right.left (hd.trans hs.right.right)
  have hg : ¬(inSync n).Gap d.1 := fun hg => hg.right.right hd
  have hp : d.1 > 0 := by
    rw [gt_iff_lt, UInt64.lt_iff_toNat_lt, h]
    exact Nat.add_comm 1 n ▸ Nat.succ_pos n
  have hc : (inSync n).checkGap d.1 d.2 = inSync (n + d.2.toNat) := by
    rw [checkGap_of_not_gap hg]
    have hn : d.1 + d.2.toUInt64 = 1 + .ofNat (n + d.2.toNat) := by
      rw [hd, UInt64.ofNat_add, UInt64.add_assoc, UInt64.ofNat_uInt16ToNat]
    simp only [inSync, hn, if_pos hp]
  have hl : (inSync n).Checks d (inSync n) := .live State.noConfusion hs
  refine ⟨?_, (reports_iff hl).not.mpr hg⟩
  rw [step, track, if_neg State.noConfusion, if_neg hs, hc]

theorem run_inOrder (h : InOrder ds n) :
    run ds = .ok (inSync n) ∧ Run.Admits step {} (fun _ r d => ¬r.Reports d) ds := by
  induction h
  case nil => exact ⟨rfl, .nil⟩
  case next hd hi =>
    obtain ⟨hr, ha⟩ := hi
    obtain ⟨hs, hg⟩ := step_inSync hd
    exact ⟨(Run.exec_snoc_of_ok hr).trans hs, (Run.admits_snoc_iff hr).mpr ⟨ha, hg⟩⟩

end InOrder

end Recovery

namespace MarketDataClient

open ItchParser Recovery

variable {client client' : MarketDataClient} {packets : List Packet} {ms : List Memory} {r : Recovery} {N next : UInt64} {n : ℕ}

-- While the recovery does not fail, the builder does what the messages tell it to do.
theorem exec_builder (hm : List.Forall₂ (fun m p => m.Holds p.bytes) ms packets)
    (hp : ∀ p ∈ packets, p.WellFormed)
    (hr : Run.exec Recovery.step client.toRecovery (packets.map datagram) = .ok r) :
    (Run.exec parse client ms).map (·.builder) = Run.exec Call.apply client.builder (calls <| allMessages packets) := by
  induction hm generalizing client
  case nil => rfl
  case cons m p ms packets hm _ hi =>
    obtain ⟨hp, hps⟩ := List.forall_mem_cons.mp hp
    obtain ⟨r₁, h₁, hr⟩ := Run.exec_cons_ok hr
    rw [Run.exec_cons, parse, parse_packet hm hp, allMessages, List.flatMap_cons, calls_append, Run.exec_append]
    cases Run.exec Call.apply client.builder (calls p.messages)
    case error => rfl
    case ok b =>
      change (client.toRecovery.step (datagram p) >>= _ >>= _ : Except Fault MarketDataClient).map _ = _
      rw [h₁]
      let next : MarketDataClient := { toRecovery := r₁, builder := b, itchParser := ⟨p.session⟩ }
      have hr : Run.exec Recovery.step next.toRecovery (packets.map datagram) = .ok r := hr
      exact hi hps hr

theorem map_datagram (hm : List.Forall₂ (fun m p => m.Holds p.bytes) ms packets) (hp : ∀ p ∈ packets, p.WellFormed) :
    ms.map Memory.datagram = packets.map datagram := by
  induction hm
  case nil => rfl
  case cons hm _ hi =>
    obtain ⟨hp, hps⟩ := List.forall_mem_cons.mp hp
    rw [List.map_cons, List.map_cons, (header_of_holds hm hp).left, hi hps]

-- Also the first datagram after the one that has been joined at is taken for a gap.
theorem late_join_gap_iff (hN : 1 < N) (hl : LateJoin N (ms.map Memory.datagram) next) (h : run ms = .ok client) :
    Run.Admits parse {} (fun _ client m => ¬client.toRecovery.Reports m.datagram) ms ↔ ∀ m ∈ ms, m.datagram.1 ≤ N := by
  have hi : Run.Admits Recovery.step {} (fun _ r d => ¬r.Reports d) (ms.map Memory.datagram) ↔ _ :=
    parse_maps.admits_iff h
  rw [← hi, (lateJoin_gap_iff hl hN (run_recovery h)).left, List.forall_mem_map]

-- Nothing but the next sequence number changes, and the builder gets each message once, in order.
theorem clean_start (hm : List.Forall₂ (fun m p => m.Holds p.bytes) ms packets)
    (hp : ∀ p ∈ packets, p.WellFormed) (ho : InOrder (packets.map datagram) n) :
    Run.Admits parse {} (fun _ client m => ¬client.toRecovery.Reports m.datagram) ms ∧
    (∀ client, run ms = .ok client → client.toRecovery = { nextExpectedSeqNo := 1 + .ofNat n }) ∧
    (run ms).map (·.builder) = OrderbookBuilder.run (calls <| allMessages packets) := by
  obtain ⟨hr, ha⟩ := run_inOrder ho
  refine ⟨?_, fun client h => ?_, exec_builder hm hp hr⟩
  case refine_1 =>
    rw [← map_datagram hm hp] at ha
    have ha : Run.Admits Recovery.step (toRecovery {}) (fun _ r d => ¬r.Reports d) (ms.map Memory.datagram) := ha
    exact parse_maps.admits ha
  case refine_2 =>
    have h := run_recovery h
    rw [map_datagram hm hp] at h
    exact Except.ok.inj (h.symm.trans hr)

section Samples

-- Two live packets, one after the other.
def samplePackets : List Packet :=
  [samplePacketOf 5, samplePacketOf 6]

theorem samplePackets_wellFormed : ∀ p ∈ samplePackets, p.WellFormed := by
  simp only [samplePackets, List.mem_cons, List.not_mem_nil, or_false, forall_eq_or_imp, forall_eq]
  exact ⟨⟨rfl, by decide, by decide +kernel⟩, ⟨rfl, by decide, by decide +kernel⟩⟩

theorem samplePackets_lateJoin : LateJoin 5 ((buffers samplePackets).map Memory.datagram) 7 := by
  rw [map_datagram buffers_hold samplePackets_wellFormed]
  exact .live (.join 1) 1

theorem late_join_gap_iff_sample :
    ∃ client, run (buffers samplePackets) = .ok client ∧
      (Run.Admits parse {} (fun _ client m => ¬client.toRecovery.Reports m.datagram) (buffers samplePackets) ↔
        ∀ m ∈ buffers samplePackets, m.datagram.1 ≤ 5) :=
  ⟨_, rfl, late_join_gap_iff (by decide) samplePackets_lateJoin rfl⟩

theorem late_join_reports_gap :
    ¬∀ N next ms client, 1 < N → LateJoin N (ms.map Memory.datagram) next → run ms = .ok client →
      Run.Admits parse {} (fun _ client m => ¬client.toRecovery.Reports m.datagram) ms := by
  intro h
  have hm := map_datagram buffers_hold samplePackets_wellFormed
  have ha := h 5 7 (buffers samplePackets) _ (by decide) samplePackets_lateJoin rfl
  have hi : Run.Admits Recovery.step {} (fun _ r d => ¬r.Reports d) ((buffers samplePackets).map Memory.datagram) ↔ _ :=
    parse_maps.admits_iff (rfl : run (buffers samplePackets) = .ok _)
  rw [← hi, hm] at ha
  have hd := (lateJoin_gap_iff (hm ▸ samplePackets_lateJoin) (by decide) rfl).left.mp ha
  exact absurd (hd (6, 1) (by decide)) (by decide)

theorem clean_start_sample :
    Run.Admits parse {} (fun _ client m => ¬client.toRecovery.Reports m.datagram)
      (buffers [samplePacketOf 1, samplePacketOf 2]) ∧
    (∀ client, run (buffers [samplePacketOf 1, samplePacketOf 2]) = .ok client →
      client.toRecovery = { nextExpectedSeqNo := 1 + .ofNat 2 }) ∧
    (run (buffers [samplePacketOf 1, samplePacketOf 2])).map (·.builder) =
      OrderbookBuilder.run (calls <| allMessages [samplePacketOf 1, samplePacketOf 2]) :=
  clean_start buffers_hold (fun p hp => (samplePacketOf_delivers p hp).left) (.next (.next .nil rfl) rfl)

end Samples

end MarketDataClient
