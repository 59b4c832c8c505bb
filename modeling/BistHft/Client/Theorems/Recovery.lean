import BistHft.Client.MarketDataClient
import BistHft.Lib.Run

-- What the client knows about missing sequence numbers, over whole runs of datagrams.

-- Sequence number and message count.
abbrev Datagram := UInt64 × UInt16

namespace Datagram

structure Valid (d : Datagram) : Prop where
  pos  : 1 ≤ d.1.toNat
  fits : d.1.toNat + d.2.toNat < 2 ^ 64

def Carries (d : Datagram) (j : ℕ) : Prop :=
  d.1.toNat ≤ j ∧ j < d.1.toNat + d.2.toNat

end Datagram

-- The numbers below `N` down to `k`.
def countdown (N k : ℕ) : List UInt64 :=
  ((List.range' k (N - k)).map UInt64.ofNat).reverse

section Countdown

variable {N k n : ℕ} {s : UInt64} {c : UInt16} {m missing ns : List UInt64}

theorem countdown_self : countdown N N = [] := by
  simp [countdown]

theorem countdown_back (h : k < N) : countdown N k = countdown N (k + 1) ++ [.ofNat k] := by
  have hl : N - k = N - (k + 1) + 1 := by omega
  rw [countdown, hl, List.range'_succ, List.map_cons, List.reverse_cons]
  rfl

theorem countdown_front (h : k < N) : (countdown N k).head? = some (.ofNat (N - 1)) := by
  have hl : N - k = N - 1 - k + 1 := by omega
  have hk : k + (N - 1 - k) = N - 1 := by omega
  rw [countdown, hl, List.range'_concat]
  simp [hk]

theorem countdown_getLast? (h : k < N) : (countdown N k).getLast? = some (.ofNat k) := by
  simp [countdown_back h]

theorem missingBefore_eq (h : 1 ≤ s.toNat) : missingBefore s = countdown s.toNat 1 := by
  have hs : (s - 1).toNat = s.toNat - 1 := UInt64.toNat_sub_of_le s 1 (UInt64.le_iff_toNat_le.mpr h)
  rw [missingBefore, countdown, hs, List.range'_eq_map_range]
  simp [Function.comp_def, Nat.add_comm]

-- Each number that is popped is one of the received numbers, and the rest stays in order.
theorem popReceived_countdown (hk : k ≤ N) (h : popReceived (countdown N k) ns = .ok m) :
    ∃ k', k ≤ k' ∧ k' ≤ N ∧ m = countdown N k' ∧ ∀ j, k ≤ j → j < k' → .ofNat j ∈ ns := by
  induction ns generalizing k
  case nil =>
    cases h
    exact ⟨k, Nat.le_refl k, hk, rfl, fun j h₁ h₂ => absurd h₁ (Nat.not_le_of_lt h₂)⟩
  case cons n ns hi =>
    cases Nat.lt_or_eq_of_le hk
    case inr he => subst he; simp [popReceived, countdown_self] at h
    case inl hlt =>
      rw [popReceived, countdown_getLast? hlt] at h
      simp only at h
      split at h
      case isTrue hn =>
        rw [countdown_back hlt, List.dropLast_concat] at h
        have ⟨k', hk₁, hk₂, hm, hj⟩ := hi hlt h
        refine ⟨k', by omega, hk₂, hm, fun j h₁ h₂ => ?_⟩
        cases Nat.eq_or_lt_of_le h₁
        case inl he => exact he ▸ hn ▸ List.mem_cons_self
        case inr hl => exact List.mem_cons_of_mem _ (hj j hl h₂)
      case isFalse =>
        have ⟨k', hk₁, hk₂, hm, hj⟩ := hi hk h
        exact ⟨k', hk₁, hk₂, hm, fun j h₁ h₂ => List.mem_cons_of_mem _ (hj j h₁ h₂)⟩

theorem populateVector_eq {d : Datagram} (h : d.1.toNat + d.2.toNat < 2 ^ 64) :
    populateVector d.1 d.2 = (List.range' d.1.toNat d.2.toNat).map .ofNat := by
  have hc : d.2.toUInt64.toNat = d.2.toNat := UInt16.toNat_toUInt64 _
  rw [populateVector]
  split
  case isTrue =>
    rw [List.range'_eq_map_range, List.map_map]
    refine List.map_congr_left fun i _ => ?_
    rw [Function.comp_apply, UInt64.ofNat_add, UInt64.ofNat_toNat]
  case isFalse hge =>
    rw [UInt64.lt_iff_toNat_lt, UInt64.toNat_add_of_lt (hc ▸ h), hc] at hge
    have hz : d.2.toNat = 0 := by omega
    rw [hz]
    rfl

theorem mem_populateVector {d : Datagram} (hf : d.1.toNat + d.2.toNat < 2 ^ 64) (hn : n < 2 ^ 64)
    (hm : .ofNat n ∈ populateVector d.1 d.2) : d.Carries n := by
  rw [populateVector_eq hf] at hm
  have ⟨j, hj, he⟩ := List.mem_map.mp hm
  have hj := List.mem_range'_1.mp hj
  cases (UInt64.ofNat_inj (by omega) hn).mp he
  exact hj

end Countdown

def Received (ds : List Datagram) (j : ℕ) : Prop :=
  ∃ d ∈ ds, d.Carries j

theorem Received.mono {ds ds' : List Datagram} {j : ℕ} (h : Received ds j) : Received (ds ++ ds') j :=
  have ⟨d, hd, hj⟩ := h
  ⟨d, List.mem_append_left _ hd, hj⟩

theorem Received.last {ds : List Datagram} {d : Datagram} {j : ℕ} (h : d.Carries j) :
    Received (ds ++ [d]) j :=
  ⟨d, List.mem_append_right _ (List.mem_singleton_self d), h⟩

namespace Recovery

variable {r r' : Recovery} {d : Datagram} {ds post : List Datagram} {N k : ℕ} {s : UInt64}

def step (r : Recovery) (d : Datagram) : Except Fault Recovery :=
  r.track d.1 d.2

abbrev run (ds : List Datagram) : Except Fault Recovery :=
  Run.exec step {} ds

section Steps

-- What each of the parts of `track` does to a client that receives a valid datagram.

theorem requestMissingPackets_of_le {e s : UInt64} (h : s ≤ e) : r.requestMissingPackets e s = r :=
  if_neg (UInt64.not_lt.mpr h)

-- The gap check never requests anything: it compares with a number beyond the datagram.
theorem checkGap_eq (hf : d.1.toNat + d.2.toNat < 2 ^ 64) :
    ∃ n, r.checkGap d.1 d.2 = { r with nextExpectedSeqNo := n } := by
  have hc : d.2.toUInt64.toNat = d.2.toNat := UInt16.toNat_toUInt64 _
  have hle : d.1 ≤ d.1 + d.2.toUInt64 := by
    rw [UInt64.le_iff_toNat_le, UInt64.toNat_add_of_lt (hc ▸ hf)]
    exact Nat.le_add_right ..
  unfold checkGap
  split
  case isFalse => exact ⟨_, rfl⟩
  case isTrue =>
    refine ⟨d.1 + d.2.toUInt64, ?_⟩
    split
    case h_1 _ he =>
      have hr := congrArg Prod.snd he
      cases hr
      exact requestMissingPackets_of_le hle
    case h_2 _ he =>
      have hr := congrArg Prod.snd he
      exact hr.symm

theorem requestMissingPackets_of_lt {e s : UInt64} (h : e < s) :
    (r.requestMissingPackets e s).requests = r.requests ++ [(e, s)] ∧
    (r.requestMissingPackets e s).state = .rewinding ∧
    (r.requestMissingPackets e s).missingSequenceNumbers = r.missingSequenceNumbers ∧
    (r.requestMissingPackets e s).rewindNeededTillThisSequenceNumberExclusive =
      r.rewindNeededTillThisSequenceNumberExclusive := by
  unfold requestMissingPackets
  rw [if_pos h]
  exact ⟨rfl, rfl, rfl, rfl⟩

theorem continueRewinding_nil (hm : r.missingSequenceNumbers = []) :
    r.continueRewinding = { r with state := .continuous } := by
  rw [continueRewinding, hm]
  rfl

theorem continueRewinding_countdown (hk : k < N) (hm : r.missingSequenceNumbers = countdown N k) :
    r.continueRewinding =
      if r.lastRequestedSequenceNumber ≠ .ofNat k then
        { r with lastRequestedSequenceNumber := .ofNat k }.requestMissingPackets (.ofNat k) (.ofNat N)
      else
        r := by
  have hf : UInt64.ofNat (N - 1) + 1 = .ofNat N := by
    rw [← UInt64.ofNat_one, ← UInt64.ofNat_add, Nat.sub_add_cancel (by omega)]
  simp only [continueRewinding, hm, countdown_getLast? hk, countdown_front hk, hf]

-- What a datagram does to the missing numbers `N - 1, ..., k` while rewinding.
inductive Progress (r : Recovery) (d : Datagram) (N k : ℕ) (r' : Recovery) : Prop
  | done (popped : ∀ j, k ≤ j → j < N → d.Carries j) (missing : r'.missingSequenceNumbers = [])
    (state : r'.state = .continuous) (requests : r'.requests = r.requests)
  | more (k' : ℕ) (le : k ≤ k') (lt : k' < N) (popped : ∀ j, k ≤ j → j < k' → d.Carries j)
    (missing : r'.missingSequenceNumbers = countdown N k') (state : r'.state = .rewinding)
    (watermark : r'.rewindNeededTillThisSequenceNumberExclusive =
      r.rewindNeededTillThisSequenceNumberExclusive)
    (requests : r'.requests = r.requests ∨ r'.requests = r.requests ++ [(.ofNat k', .ofNat N)])

theorem whileRewinding_ok {c : UInt16} (he : r.whileRewinding s c = .ok r') :
    ∃ missing, popReceived r.missingSequenceNumbers (populateVector s c) = .ok missing ∧
      r' = { r with missingSequenceNumbers := missing }.continueRewinding := by
  obtain ⟨missing, hp, he⟩ := Run.bind_ok he
  cases he
  exact ⟨missing, hp, rfl⟩

theorem whileRewinding_progress (h : d.Valid) (hr : r.state = .rewinding) (hk : k < N) (hN : N < 2 ^ 64)
    (hm : r.missingSequenceNumbers = countdown N k) (he : r.whileRewinding d.1 d.2 = .ok r') :
    r.Progress d N k r' := by
  obtain ⟨missing, hp, rfl⟩ := whileRewinding_ok he
  have ⟨k', hk₁, hk₂, hm', hj⟩ := popReceived_countdown hk.le (hm ▸ hp)
  have hj j (h₁ : k ≤ j) (h₂ : j < k') : d.Carries j := mem_populateVector h.fits (by omega) (hj j h₁ h₂)
  subst hm'
  cases Nat.eq_or_lt_of_le hk₂
  case inl heq =>
    subst heq
    rw [countdown_self, continueRewinding_nil rfl]
    exact .done hj rfl rfl rfl
  case inr hlt =>
    have hlt' : UInt64.ofNat k' < .ofNat N := by
      rwa [UInt64.ofNat_lt_iff_lt (hlt.trans hN) hN]
    rw [continueRewinding_countdown (r := { r with missingSequenceNumbers := countdown N k' }) hlt rfl]
    split
    case isTrue =>
      have ⟨h₁, h₂, h₃, h₄⟩ := requestMissingPackets_of_lt (r := {
        r with missingSequenceNumbers := countdown N k', lastRequestedSequenceNumber := .ofNat k' }) hlt'
      exact .more k' hk₁ hlt hj h₃ h₂ h₄ (.inr h₁)
    case isFalse => exact .more k' hk₁ hlt hj rfl hr rfl (.inl rfl)

theorem step_rewinding (hr : r.state = .rewinding) (he : r.step d = .ok r') :
    ∃ r₁, r.whileRewinding d.1 d.2 = .ok r₁ ∧ r' = r₁.checkGap d.1 d.2 := by
  unfold step track at he
  rw [if_pos hr] at he
  obtain ⟨r₁, hw, he⟩ := Run.bind_ok he
  cases he
  exact ⟨r₁, hw, rfl⟩

theorem initialSync_eq (h : 1 ≤ d.1.toNat) (hr : r.SyncNeeded d.1) (hm : r.missingSequenceNumbers = []) :
    (r.initialSync d.1).missingSequenceNumbers = countdown d.1.toNat 1 ∧
    (r.initialSync d.1).state = .rewinding ∧
    (r.initialSync d.1).rewindNeededTillThisSequenceNumberExclusive = d.1 ∧ 1 < d.1.toNat := by
  have hlt : 1 < d.1.toNat := Nat.lt_of_le_of_ne h fun he => hr.right.left (UInt64.toNat_inj.mp he.symm)
  have ⟨_, h₁, h₂, h₃⟩ := requestMissingPackets_of_lt (e := 1) (s := d.1) (r := {
    r with
      missingSequenceNumbers := r.missingSequenceNumbers ++ missingBefore d.1
      lastRequestedSequenceNumber := 1
      rewindNeededTillThisSequenceNumberExclusive := d.1
  }) hlt
  exact ⟨h₂.trans (by rw [hm, missingBefore_eq h]; rfl), h₁, h₃, hlt⟩

end Steps

-- The datagram that started the sync has number `N`, and `post` is what came after it.
def SyncedBy (ds : List Datagram) (N : UInt64) (post : List Datagram) : Prop :=
  ∃ pre c r, ds = pre ++ (N, c) :: post ∧ run pre = .ok r ∧ r.SyncNeeded N

theorem SyncedBy.concat {N : UInt64} (h : SyncedBy ds N post) : SyncedBy (ds ++ [d]) N (post ++ [d]) :=
  have ⟨pre, c, r, he, hr⟩ := h
  ⟨pre, c, r, by simp [he], hr⟩

-- Where the client is in its recovery, given the datagrams it has received.
inductive Phase (ds : List Datagram) (r : Recovery) : Prop
  | start (state : r.state = .initial) (missing : r.missingSequenceNumbers = [])
  | rewinding (N : UInt64) (k : ℕ) (post : List Datagram) (synced : SyncedBy ds N post)
    (state : r.state = .rewinding) (watermark : r.rewindNeededTillThisSequenceNumberExclusive = N)
    (pos : 1 ≤ k) (lt : k < N.toNat) (missing : r.missingSequenceNumbers = countdown N.toNat k)
    (received : ∀ j, 1 ≤ j → j < k → Received post j)
  | continuous (N : UInt64) (post : List Datagram) (synced : SyncedBy ds N post)
    (state : r.state = .continuous) (missing : r.missingSequenceNumbers = [])
    (received : ∀ j, 1 ≤ j → j < N.toNat → Received post j)

namespace Phase

theorem checkGap (h : Phase ds r) (hd : d.Valid) : Phase ds (r.checkGap d.1 d.2) := by
  have ⟨n, he⟩ := checkGap_eq (r := r) hd.fits
  rw [he]
  cases h
  case start h₁ h₂                              => exact .start h₁ h₂
  case rewinding N k post h₁ h₂ h₃ h₄ h₅ h₆ h₇ => exact .rewinding N k post h₁ h₂ h₃ h₄ h₅ h₆ h₇
  case continuous N post h₁ h₂ h₃ h₄            => exact .continuous N post h₁ h₂ h₃ h₄

theorem progress {N : UInt64} (hs : SyncedBy ds N post) (hw : r.rewindNeededTillThisSequenceNumberExclusive = N)
    (hp : 1 ≤ k) (hr : ∀ j, 1 ≤ j → j < k → Received post j) (h : r.Progress d N.toNat k r') :
    Phase (ds ++ [d]) r' := by
  have hrec {k'} (hj : ∀ j, k ≤ j → j < k' → d.Carries j) j (h₁ : 1 ≤ j) (h₂ : j < k') :
      Received (post ++ [d]) j := by
    cases Nat.lt_or_ge j k
    case inl hlt => exact (hr j h₁ hlt).mono
    case inr hge => exact .last (hj j hge h₂)
  cases h
  case done hj hm hst _ => exact .continuous N _ hs.concat hst hm (hrec hj)
  case more k' hle hlt hj hm hst hwm _ =>
    exact .rewinding N k' _ hs.concat hst (hwm.trans hw) (hp.trans hle) hlt hm (hrec hj)

theorem next (h : Phase ds r) (hds : run ds = .ok r) (hd : d.Valid) (he : r.step d = .ok r') :
    Phase (ds ++ [d]) r' := by
  cases h
  case start hst hm =>
    unfold step track at he
    rw [if_neg (by simp [hst])] at he
    split at he
    case isTrue hs =>
      cases he
      have ⟨h₁, h₂, h₃, h₄⟩ := initialSync_eq hd.pos hs hm
      exact .rewinding d.1 1 [] ⟨ds, d.2, r, rfl, hds, hs⟩ h₂ h₃ (Nat.le_refl 1) h₄ h₁
        fun j hj hj' => absurd hj (Nat.not_le_of_lt hj')
    case isFalse =>
      cases he
      exact checkGap (.start hst hm) hd
  case rewinding N k post hs hst hw hk hlt hm hrec =>
    have ⟨r₁, hr, he⟩ := step_rewinding hst he
    have hp := whileRewinding_progress hd hst hlt N.toNat_lt hm hr
    exact he ▸ (progress hs hw hk hrec hp).checkGap hd
  case continuous N post hs hst hm hrec =>
    unfold step track at he
    rw [if_neg (by simp [hst]), if_neg (by simp [SyncNeeded, hst])] at he
    cases he
    exact checkGap (.continuous N _ hs.concat hst hm fun j h₁ h₂ => (hrec j h₁ h₂).mono) hd

theorem of_run (hd : ∀ d ∈ ds, d.Valid) (h : run ds = .ok r) : Phase ds r := by
  have key : (∀ d ∈ ds, Datagram.Valid d) → Phase ds r := by
    refine Run.exec_induction (I := fun ds r => (∀ d ∈ ds, Datagram.Valid d) → Phase ds r) ?_ ?_ h
    case refine_1 => exact fun _ => .start rfl rfl
    case refine_2 =>
      intro ds r d r' hds hi he hd
      have ⟨hd, hlast⟩ := List.forall_mem_append.mp hd
      exact (hi hd).next hds (hlast d (List.mem_singleton_self d)) he
  exact key hd

end Phase

-- What holds in each state that a run of datagrams reaches.
structure Sound (ds : List Datagram) (r : Recovery) : Prop where
  missing    : r.state ≠ .rewinding → r.missingSequenceNumbers = []
  rewinding  : r.state = .rewinding → ∃ N k post, SyncedBy ds N post ∧
    r.rewindNeededTillThisSequenceNumberExclusive = N ∧ 1 ≤ k ∧ k < N.toNat ∧
    r.missingSequenceNumbers = countdown N.toNat k ∧ ∀ j, 1 ≤ j → j < k → Received post j
  continuous : r.state = .continuous → ∃ N post, SyncedBy ds N post ∧
    ∀ j, 1 ≤ j → j < N.toNat → Received post j
  -- a request that is made while rewinding asks for what is missing after the datagram
  requests   : r.state = .rewinding → ∀ d r', d.Valid → r.step d = .ok r' → r'.requests = r.requests ∨
    ∃ k, 1 ≤ k ∧ k < r.rewindNeededTillThisSequenceNumberExclusive.toNat ∧
      r'.requests = r.requests ++ [(.ofNat k, r.rewindNeededTillThisSequenceNumberExclusive)] ∧
      r'.missingSequenceNumbers = countdown r.rewindNeededTillThisSequenceNumberExclusive.toNat k

theorem Phase.requests (h : Phase ds r) (hr : r.state = .rewinding) (hd : d.Valid) (he : r.step d = .ok r') :
    r'.requests = r.requests ∨
      ∃ k, 1 ≤ k ∧ k < r.rewindNeededTillThisSequenceNumberExclusive.toNat ∧
        r'.requests = r.requests ++ [(.ofNat k, r.rewindNeededTillThisSequenceNumberExclusive)] ∧
        r'.missingSequenceNumbers = countdown r.rewindNeededTillThisSequenceNumberExclusive.toNat k := by
  cases h
  case start hst _              => simp [hst] at hr
  case continuous _ _ _ hst _ _ => simp [hst] at hr
  case rewinding N k _ _ _ hw hk hlt hm _ =>
    have ⟨r₁, hr₁, he⟩ := step_rewinding hr he
    have ⟨n, hg⟩ := checkGap_eq (r := r₁) hd.fits
    rw [he, hg]
    cases whileRewinding_progress hd hr hlt N.toNat_lt hm hr₁
    case done _ _ _ hreq => exact .inl hreq
    case more k' hle hlt' _ hm' _ _ hreq =>
      cases hreq
      case inl hreq => exact .inl hreq
      case inr hreq =>
        rw [UInt64.ofNat_toNat] at hreq
        exact .inr ⟨k', hk.trans hle, hw ▸ hlt', hw ▸ hreq, hw ▸ hm'⟩

theorem run_sound (hd : ∀ d ∈ ds, d.Valid) (h : run ds = .ok r) : r.Sound ds := by
  have hp := Phase.of_run hd h
  have hreq := fun hr (d : Datagram) r' hd (he : r.step d = .ok r') => hp.requests hr hd he
  cases hp
  case start hst hm =>
    exact ⟨fun _ => hm, fun hr => by simp [hst] at hr, fun hr => by simp [hst] at hr, hreq⟩
  case rewinding N k post hs hst hw hk hlt hm hrec =>
    exact ⟨fun hr => absurd hst hr, fun _ => ⟨N, k, post, hs, hw, hk, hlt, hm, hrec⟩,
      fun hr => by simp [hst] at hr, hreq⟩
  case continuous N post hs hst hm hrec =>
    exact ⟨fun _ => hm, fun hr => by simp [hst] at hr, fun _ => ⟨N, post, hs, hrec⟩, hreq⟩

-- A client that joins at 5 and has been sent 1 and 2 again.
theorem run_sound_late_join :
    ∃ r, run [(5, 1), (1, 2)] = .ok r ∧ r.state = .rewinding ∧ r.Sound [(5, 1), (1, 2)] := by
  have hd : ∀ d ∈ [(5, 1), (1, 2)], Datagram.Valid d := by
    simp only [List.mem_cons, List.not_mem_nil, or_false, forall_eq_or_imp, forall_eq]
    exact ⟨⟨by decide, by decide⟩, ⟨by decide, by decide⟩⟩
  exact ⟨_, rfl, rfl, run_sound hd rfl⟩

end Recovery
