import BistHft.Client.Theorems.Gaps

-- The next expected sequence number: what becomes of a gap that it reveals, and how it moves.

namespace Recovery

variable {r r' r₁ : Recovery} {d : Datagram} {E s : UInt64} {sessionName : List UInt8}

section Requested

-- One more header has been sent, and it asks for the numbers from `E` to `s - 1`.
def Rewinds (r r' : Recovery) (E s : UInt64) : Prop :=
  (∃ header, r'.written = r.written ++ [header] ∧ Exact (E, s) header) ∧ r'.state = .rewinding

theorem not_rewinds_of_written (h : r'.written = r.written) : ¬Rewinds r r' E s := by
  rintro ⟨⟨header, hw, _⟩, _⟩
  exact List.cons_ne_nil header [] <| List.self_eq_append_right.mp (h.symm.trans hw)

-- The header that has been sent is the only one that can ask for the right numbers.
theorem exact_of_rewinds {request : UInt64 × UInt64} (hw : r'.written = r.written ++ [requestHeader sessionName request])
    (h : Rewinds r r' E s) : Exact (E, s) (requestHeader sessionName request) := by
  obtain ⟨⟨header, hw', he⟩, _⟩ := h
  cases List.append_cancel_left (hw.symm.trans hw')
  exact he

theorem initialSync_rewinds_iff (h : 1 < s) : Rewinds r (r.initialSync s) 1 s ↔ s.toNat ≤ 2 ^ 16 := by
  have hs := initialSync_sent (r := r) (s := s)
  rw [if_pos h] at hs
  have hx : Short (1, s) ↔ s.toNat ≤ 2 ^ 16 := by
    have h1 : (1 : UInt64).toNat = 1 := rfl
    simp only [Short, h1]
    omega
  rw [← hx]
  constructor
  case mp  => exact fun hr => (exact_iff h).mp <| exact_of_rewinds hs.written hr
  case mpr => exact fun hx => ⟨⟨_, hs.written, (exact_iff h).mpr hx⟩, (requestMissingPackets_of_lt h).right.left⟩

-- The check for missing packets asks for a number beyond the datagram, if for any.
theorem checkGap_not_rewinds : ¬Rewinds r (r.checkGap d.1 d.2) E d.1 := by
  cases Classical.em (r.Gap d.1)
  case inr hg =>
    rw [checkGap_of_not_gap hg]
    exact not_rewinds_of_written rfl
  case inl hg =>
    rw [checkGap_of_gap hg]
    cases Classical.em (d.1 + d.2.toUInt64 < d.1)
    case inr hle =>
      rw [requestMissingPackets_of_le (UInt64.not_lt.mp hle)]
      exact not_rewinds_of_written rfl
    case inl hlt =>
      intro h
      have hs := requestMissingPackets_sent (e := d.1 + d.2.toUInt64) (s := d.1) (r := {
        r with nextExpectedSeqNo := d.1 + d.2.toUInt64 })
      rw [if_pos hlt] at hs
      have he := exact_of_rewinds hs.written h
      have hE : d.1 + d.2.toUInt64 = E := be64toh_be64toh.symm.trans he.sequenceNumber
      subst hE
      exact not_short_of_wrap hlt <| (exact_iff hlt).mp he

-- A gap is asked for only where the first datagram of all reveals it.
theorem rewinds_iff (hr : r.state ≠ .rewinding) (hE : r.nextExpectedSeqNo < d.1) :
    ∃ r', r.step d = .ok r' ∧
      (Rewinds r r' r.nextExpectedSeqNo d.1 ↔ r.SyncNeeded d.1 ∧ d.1.toNat ≤ 2 ^ 16) := by
  rw [step, track, if_neg hr]
  by_cases hs : r.SyncNeeded d.1
  case neg => exact ⟨_, if_neg hs, iff_of_false checkGap_not_rewinds fun h => hs h.left⟩
  case pos =>
    rw [hs.right.right] at hE ⊢
    exact ⟨_, if_pos hs, (initialSync_rewinds_iff hE).trans (and_iff_right hs).symm⟩

end Requested

section Monotone

-- A datagram that is checked for a gap ends no earlier than at the number that is expected.
def KeepsUp (r : Recovery) (d : Datagram) : Prop :=
  ¬r.SyncNeeded d.1 → d.1 > r.rewindNeededTillThisSequenceNumberExclusive →
    r.nextExpectedSeqNo ≤ d.1 + d.2.toUInt64

theorem checkGap_nextExpectedSeqNo :
    (r.checkGap d.1 d.2).nextExpectedSeqNo =
      if d.1 > r.rewindNeededTillThisSequenceNumberExclusive then d.1 + d.2.toUInt64 else r.nextExpectedSeqNo := by
  cases Classical.em (r.Gap d.1)
  case inr hg => rw [checkGap_of_not_gap hg]
  case inl hg =>
    rw [checkGap_of_gap hg, if_pos hg.left]
    exact congrArg Prod.snd requestMissingPackets_expectation

theorem step_nextExpectedSeqNo_iff (h : r.step d = .ok r') :
    r.nextExpectedSeqNo ≤ r'.nextExpectedSeqNo ↔ r.KeepsUp d := by
  cases step_cases h
  case inl hs =>
    obtain ⟨hs, rfl⟩ := hs
    have hn : (r.initialSync d.1).nextExpectedSeqNo = r.nextExpectedSeqNo :=
      congrArg Prod.snd requestMissingPackets_expectation
    exact iff_of_true (hn ▸ UInt64.le_rfl) (absurd hs ·)
  case inr hc =>
    obtain ⟨r₁, hc, rfl⟩ := hc
    obtain ⟨hw, hn⟩ := Prod.mk.inj hc.expectation
    rw [checkGap_nextExpectedSeqNo, KeepsUp, hw, hn, imp_iff_right hc.not_syncNeeded]
    split
    case isTrue hlt  => rw [imp_iff_right hlt]
    case isFalse hle => exact iff_of_true UInt64.le_rfl (absurd · hle)

end Monotone

end Recovery

namespace MarketDataClient

open ItchParser Recovery

variable {client client' : MarketDataClient} {m : Memory} {ms : List Memory}

-- Outside of `Rewinding` nothing but the payload can make the call fail.
theorem gap_requested_iff {parser : ItchParser} {builder : OrderbookBuilder} {s : UInt64} {c : UInt16}
    (hr : client.state ≠ .rewinding)
    (hp : client.itchParser.parse Call.apply client.builder (some m) = .ok (parser, builder, s, c))
    (hE : client.nextExpectedSeqNo < s) :
    ∃ client', client.parse m = .ok client' ∧
      (Rewinds client.toRecovery client'.toRecovery client.nextExpectedSeqNo s ↔
        client.SyncNeeded s ∧ s.toNat ≤ 2 ^ 16) := by
  have ⟨r', hs, hi⟩ := rewinds_iff (d := (s, c)) hr hE
  refine ⟨{ toRecovery := r', builder, itchParser := parser }, ?_, hi⟩
  have ht : client.toRecovery.track s c = .ok r' := hs
  rw [parse, hp]
  change client.toRecovery.track s c >>= _ = _
  rw [ht]
  rfl

theorem watermark_monotone_iff (h : run ms = .ok client) :
    Run.Admits parse {} (fun _ client m => ∀ client', client.parse m = .ok client' →
      client.nextExpectedSeqNo ≤ client'.nextExpectedSeqNo) ms ↔
      Run.Admits parse {} (fun _ client m => client.toRecovery.KeepsUp m.datagram) ms := by
  induction ms using List.reverseRecOn generalizing client
  case nil => exact iff_of_true .nil .nil
  case append_singleton ms m hi =>
    obtain ⟨client₀, h₀, he⟩ := Run.exec_snoc_ok h
    rw [Run.admits_snoc_iff h₀, Run.admits_snoc_iff h₀, hi h₀, ← step_nextExpectedSeqNo_iff (parse_maps he)]
    refine and_congr_right fun _ => ⟨fun hn => hn client he, fun hn client' he' => ?_⟩
    cases he.symm.trans he'
    exact hn

section Samples

theorem gap_requested_iff_join :
    ∃ client', parse {} (.ofList (heartbeat sampleSession 5).bytes) = .ok client' ∧
      (Rewinds {} client'.toRecovery 1 5 ↔ SyncNeeded {} 5 ∧ (5 : UInt64).toNat ≤ 2 ^ 16) :=
  have hp : ItchParser.parse Call.apply {} {} (some <| .ofList (heartbeat sampleSession 5).bytes) =
    .ok (⟨sampleSession⟩, {}, 5, 0) := rfl
  have hr : State.initial ≠ .rewinding := State.noConfusion
  have ⟨client', hc, hi⟩ := gap_requested_iff hr hp (by decide)
  ⟨client', hc, hi⟩

-- The client has received 1, and 5 comes next.
theorem gap_not_requested :
    ∃ client client', run (buffers [samplePacketOf 1]) = .ok client ∧ client.state ≠ .rewinding ∧
      client.nextExpectedSeqNo = 2 ∧ (client.calculateNextSequenceNumber 5 1).1 = .gapDetected ∧
      client.parse (.ofList (samplePacketOf 5).bytes) = .ok client' ∧
      ¬Rewinds client.toRecovery client'.toRecovery 2 5 ∧ client'.state = .initial := by
  refine ⟨_, _, rfl, State.noConfusion, rfl, rfl, rfl, not_rewinds_of_written rfl, rfl⟩

theorem watermark_monotone_iff_sample :
    ∃ client, run (buffers [samplePacketOf 1, samplePacketOf 2]) = .ok client ∧
      (Run.Admits parse {} (fun _ client m => ∀ client', client.parse m = .ok client' →
        client.nextExpectedSeqNo ≤ client'.nextExpectedSeqNo) (buffers [samplePacketOf 1, samplePacketOf 2]) ↔
        Run.Admits parse {} (fun _ client m => client.toRecovery.KeepsUp m.datagram)
          (buffers [samplePacketOf 1, samplePacketOf 2])) :=
  ⟨_, rfl, watermark_monotone_iff rfl⟩

-- The first packet arrives a second time after the second one.
theorem duplicate_moves_watermark_back :
    ¬∀ ms client, (∀ m ∈ ms, m.datagram.Valid) → run ms = .ok client →
      Run.Admits parse {} (fun _ client m => ∀ client', client.parse m = .ok client' →
        client.nextExpectedSeqNo ≤ client'.nextExpectedSeqNo) ms := by
  intro h
  have hd : ∀ d ∈ (buffers [samplePacketOf 1, samplePacketOf 2, samplePacketOf 1]).map Memory.datagram, d.Valid := by
    have hm : (buffers [samplePacketOf 1, samplePacketOf 2, samplePacketOf 1]).map Memory.datagram =
        [(1, 1), (2, 1), (1, 1)] := by decide +kernel
    simp only [hm, List.mem_cons, List.not_mem_nil, or_false, forall_eq_or_imp, forall_eq]
    exact ⟨⟨by decide, by decide⟩, ⟨by decide, by decide⟩, ⟨by decide, by decide⟩⟩
  have ha := h _ _ (List.forall_mem_map.mp hd) rfl
  have hlt := ha (buffers [samplePacketOf 1, samplePacketOf 2]) _ [] _ rfl rfl _ rfl
  exact absurd hlt (by decide +kernel)

end Samples

end MarketDataClient
