import BistHft.Client.Theorems.Missing

-- In which order the datagrams that have been asked for have to arrive.

variable {ds ds' : List Datagram} {d d' : Datagram} {N k j : ℕ}

namespace Datagram

def Disjoint (d d' : Datagram) : Prop :=
  ∀ j, d.Carries j → ¬d'.Carries j

theorem Disjoint.symm (h : Disjoint d d') : Disjoint d' d :=
  fun j h₁ h₂ => h j h₂ h₁

instance : Std.Symm Disjoint :=
  ⟨fun _ _ => Disjoint.symm⟩

end Datagram

-- Each of the numbers from `k` up to `N` is carried once. Datagrams without messages may be among them.
structure Partitions (ds : List Datagram) (k N : ℕ) : Prop where
  received : ∀ j, Received ds j ↔ k ≤ j ∧ j < N
  disjoint : ds.Pairwise Datagram.Disjoint

-- From `k` on, a datagram is of use only if it begins there.
def advance (k : ℕ) (d : Datagram) : ℕ :=
  if d.1.toNat = k then k + d.2.toNat else k

-- How far a client gets that waits for `k`.
def credit (k : ℕ) (ds : List Datagram) : ℕ :=
  ds.foldl advance k

def Ascending (ds : List Datagram) : Prop :=
  ds.Pairwise fun d d' => d.2 ≠ 0 → d'.2 ≠ 0 → d.1 < d'.1

theorem Received.cons_iff : Received (d :: ds) j ↔ d.Carries j ∨ Received ds j := by
  simp [Received]

theorem Received.perm (h : ds.Perm ds') : Received ds j ↔ Received ds' j := by
  simp [Received, h.mem_iff]

theorem credit_cons : credit k (d :: ds) = credit (advance k d) ds :=
  rfl

theorem advance_cases : d.1.toNat = k ∧ advance k d = k + d.2.toNat ∨ d.1.toNat ≠ k ∧ advance k d = k := by
  rw [advance]
  split
  case isTrue h  => exact .inl ⟨h, rfl⟩
  case isFalse h => exact .inr ⟨h, rfl⟩

-- What has been credited has been received.
theorem Received.of_credit (h : k ≤ j) (hc : j < credit k ds) : Received ds j := by
  induction ds generalizing k
  case nil => exact absurd hc (Nat.not_lt_of_le h)
  case cons d ds hi =>
    rw [Received.cons_iff]
    cases Nat.lt_or_ge j (advance k d)
    case inr hge => exact .inr (hi hge hc)
    case inl hlt =>
      cases advance_cases (d := d) (k := k)
      case inl ha => exact .inl ⟨ha.left ▸ h, ha.left ▸ ha.right ▸ hlt⟩
      case inr ha => exact absurd (ha.right ▸ hlt) (Nat.not_lt_of_le h)

namespace Partitions

theorem perm (h : Partitions ds k N) (hd : ds.Perm ds') : Partitions ds' k N where
  received j := (Received.perm hd).symm.trans (h.received j)
  disjoint   := (hd.pairwise_iff Datagram.Disjoint.symm).mp h.disjoint

theorem eq_of_carries (h : Partitions ds k N) (hd : d ∈ ds) (hd' : d' ∈ ds) (hj : d.Carries j) (hj' : d'.Carries j) :
    d = d' := by
  by_contra hne
  exact h.disjoint.forall hd hd' hne j hj hj'

theorem bounds (h : Partitions ds k N) (hd : d ∈ ds) (hc : d.2.toNat ≠ 0) :
    k ≤ d.1.toNat ∧ d.1.toNat + d.2.toNat ≤ N := by
  have h₁ := (h.received d.1.toNat).mp ⟨d, hd, Nat.le_refl _, by omega⟩
  have h₂ := (h.received (d.1.toNat + d.2.toNat - 1)).mp ⟨d, hd, by omega, by omega⟩
  omega

theorem fits (h : Partitions ds k N) (hN : N < 2 ^ 64) (hd : d ∈ ds) : d.1.toNat + d.2.toNat < 2 ^ 64 := by
  have := d.1.toNat_lt
  cases Decidable.em (d.2.toNat = 0)
  case inl hc => omega
  case inr hc =>
    have := (h.bounds hd hc).right
    omega

theorem advance_le (h : Partitions ds k N) (hd : d ∈ ds) (hj : j ≤ N) : advance j d ≤ N := by
  cases advance_cases (d := d) (k := j)
  case inr ha => exact ha.right.le.trans hj
  case inl ha =>
    cases Decidable.em (d.2.toNat = 0)
    case inl hc => omega
    case inr hc => exact ha.right.le.trans <| ha.left ▸ (h.bounds hd hc).right

-- The only datagram that carries the first number begins with it.
def Starts (ds : List Datagram) (j : ℕ) : Prop :=
  ∀ d ∈ ds, d.Carries j → d.1.toNat = j

theorem starts (h : Partitions ds k N) : Starts ds k := by
  intro d hd hk
  have hc : d.2.toNat ≠ 0 := by have := hk.right; have := hk.left; omega
  exact Nat.le_antisymm hk.left (h.bounds hd hc).left

-- Behind the end of a datagram there begins another one.
theorem starts_advance (h : Partitions ds k N) (hd : d ∈ ds) (hj : Starts ds j) : Starts ds (advance j d) := by
  cases advance_cases (d := d) (k := j)
  case inr ha => rwa [ha.right]
  case inl ha =>
    obtain ⟨rfl, ha⟩ := ha
    rw [ha]
    rintro d' hd' ⟨h₁, h₂⟩
    by_contra hne
    have hc : d.2.toNat ≠ 0 := by
      intro hc
      rw [hc, Nat.add_zero] at h₁ h₂ hne
      exact hne (hj d' hd' ⟨h₁, h₂⟩)
    have he : d = d' :=
      h.eq_of_carries (j := d.1.toNat + d.2.toNat - 1) hd hd' ⟨by omega, by omega⟩ ⟨by omega, by omega⟩
    subst he
    omega

theorem tail (h : Partitions (d :: ds) k N) (hc : d.2.toNat = 0) : Partitions ds k N where
  received j := by
    rw [← h.received, Received.cons_iff, or_iff_right]
    rintro ⟨h₁, h₂⟩
    omega
  disjoint := (List.pairwise_cons.mp h.disjoint).right

theorem tail_of_start (h : Partitions (d :: ds) k N) (hd : d.1.toNat = k) : Partitions ds (k + d.2.toNat) N where
  received j := by
    have hd' := (List.pairwise_cons.mp h.disjoint).left
    have hr := h.received j
    rw [Received.cons_iff] at hr
    constructor
    case mp =>
      rintro ⟨d', hm, hj⟩
      have hj' := hr.mp (.inr ⟨d', hm, hj⟩)
      have hn : ¬d.Carries j := fun hc => hd' d' hm j hc hj
      rw [Datagram.Carries] at hn
      omega
    case mpr =>
      rintro ⟨h₁, h₂⟩
      refine (hr.mpr ⟨by omega, h₂⟩).resolve_left ?_
      rintro ⟨_, hj⟩
      omega
  disjoint := (List.pairwise_cons.mp h.disjoint).right

-- All of the numbers are credited exactly when none of the datagrams overtakes another one.
theorem credit_eq_iff (h : Partitions ds k N) (hk : k ≤ N) : credit k ds = N ↔ Ascending ds := by
  induction ds generalizing k
  case nil =>
    have hr := h.received k
    refine iff_of_true (Nat.le_antisymm hk (Nat.le_of_not_lt fun hlt => ?_)) .nil
    obtain ⟨_, hm, _⟩ := hr.mpr ⟨Nat.le_refl k, hlt⟩
    cases hm
  case cons d ds hi =>
    rw [credit_cons, Ascending, List.pairwise_cons, ← Ascending]
    cases Decidable.em (d.2.toNat = 0)
    case inl hc =>
      have ha : advance k d = k := by
        rw [advance, hc, Nat.add_zero, ite_self]
      have hz : d.2 = 0 := UInt16.toNat_inj.mp hc
      rw [ha, hi (h.tail hc) hk]
      simp [hz]
    case inr hc =>
      have hb := h.bounds List.mem_cons_self hc
      cases advance_cases (d := d) (k := k)
      case inl ha =>
        obtain ⟨hd, ha⟩ := ha
        have ht := h.tail_of_start hd
        rw [ha, hi ht (by omega), iff_and_self]
        intro _ d' hm _ hc'
        have hc' : d'.2.toNat ≠ 0 := UInt16.toNat_inj.not.mpr hc'
        have hb' := (ht.bounds hm hc').left
        rw [UInt64.lt_iff_toNat_lt]
        omega
      case inr ha =>
        obtain ⟨hne, ha⟩ := ha
        rw [ha]
        refine iff_of_false (fun he => ?_) fun hd => ?_
        case refine_1 =>
          obtain ⟨d', hm, hj⟩ := Received.of_credit hb.left (he ▸ (by omega) : d.1.toNat < credit k ds)
          exact (List.pairwise_cons.mp h.disjoint).left d' hm _ ⟨Nat.le_refl _, by omega⟩ hj
        case refine_2 =>
          obtain ⟨d', hm, hj⟩ := (h.received k).mpr ⟨Nat.le_refl k, by omega⟩
          have hs := h.starts d' hm hj
          cases List.mem_cons.mp hm
          case inl he => exact hne (he ▸ hs)
          case inr hm =>
            have hc' : d'.2 ≠ 0 := by
              intro hz
              rw [Datagram.Carries, hz, UInt16.toNat_zero] at hj
              omega
            have hlt := UInt64.lt_iff_toNat_lt.mp (hd.left d' hm (UInt16.toNat_inj.not.mp hc) hc')
            omega

end Partitions

section Countdown

theorem countdown_length : (countdown N k).length = N - k := by
  simp [countdown]

theorem countdown_inj {k' : ℕ} (hk : k ≤ N) (hk' : k' ≤ N) : countdown N k = countdown N k' ↔ k = k' := by
  constructor
  case mpr => exact congrArg _
  case mp =>
    intro h
    have hl := congrArg List.length h
    rw [countdown_length, countdown_length] at hl
    omega

theorem popReceived_range' {n : ℕ} (h : k + n ≤ N) :
    popReceived (countdown N k) ((List.range' k n).map .ofNat) = .ok (countdown N (k + n)) := by
  induction n generalizing k
  case zero => rfl
  case succ n hi =>
    have hlt : k < N := by omega
    rw [List.range'_succ, List.map_cons, popReceived, countdown_getLast? hlt]
    simp only [if_true]
    rw [countdown_back hlt, List.dropLast_concat, hi (by omega), Nat.add_right_comm, Nat.add_assoc]

-- A datagram that begins at the lowest missing number pops all that it carries, and another one
-- that does not carry this number pops nothing.
theorem popReceived_advance (hk : k < N) (hN : N < 2 ^ 64) (hf : d.1.toNat + d.2.toNat < 2 ^ 64)
    (hd : d.Carries k → d.1.toNat = k) (ha : advance k d ≤ N) :
    popReceived (countdown N k) (populateVector d.1 d.2) = .ok (countdown N (advance k d)) := by
  cases advance_cases (d := d) (k := k)
  case inl h =>
    obtain ⟨rfl, h⟩ := h
    rw [h] at ha ⊢
    rw [populateVector_eq hf, popReceived_range' ha]
  case inr h =>
    rw [h.right]
    exact popReceived_of_notMem hk fun hm => h.left <| hd <| mem_populateVector hf (hk.trans hN) hm

end Countdown

namespace Recovery

variable {r : Recovery}

-- The numbers from `k` up to `N` are missing, and the client is done when there are none.
structure Awaits (r : Recovery) (N k : ℕ) : Prop where
  missing : r.missingSequenceNumbers = countdown N k
  state   : r.state = if k = N then .continuous else .rewinding

namespace Awaits

theorem rewinding (h : r.Awaits N k) (hk : k < N) : r.state = .rewinding := by
  rw [h.state, if_neg hk.ne]

theorem continuous_iff (h : r.Awaits N k) : r.state = .continuous ↔ k = N := by
  rw [h.state]
  split
  case isTrue he  => exact iff_of_true rfl he
  case isFalse he => exact iff_of_false State.noConfusion he

theorem checkGap (h : r.Awaits N k) (hf : d.1.toNat + d.2.toNat < 2 ^ 64) : (r.checkGap d.1 d.2).Awaits N k := by
  obtain ⟨n, he⟩ := checkGap_eq (r := r) hf
  rw [he]
  exact ⟨h.missing, h.state⟩

theorem continueRewinding (hr : r.state = .rewinding) (hk : k ≤ N) (hN : N < 2 ^ 64)
    (hm : r.missingSequenceNumbers = countdown N k) : r.continueRewinding.Awaits N k := by
  refine ⟨continueRewinding_missing.trans hm, ?_⟩
  cases Nat.eq_or_lt_of_le hk
  case inl he =>
    subst he
    rw [continueRewinding_nil (hm.trans countdown_self), if_pos rfl]
  case inr hlt =>
    rw [continueRewinding_countdown hlt hm, if_neg hlt.ne]
    split
    case isFalse => exact hr
    case isTrue  => exact (requestMissingPackets_of_lt <| (UInt64.ofNat_lt_iff_lt (hlt.trans hN) hN).mpr hlt).right.left

theorem step (h : r.Awaits N k) (hk : k ≤ N) (hN : N < 2 ^ 64) (hf : d.1.toNat + d.2.toNat < 2 ^ 64)
    (hd : d.Carries k → d.1.toNat = k) (ha : advance k d ≤ N) :
    ∃ r', r.step d = .ok r' ∧ r'.Awaits N (advance k d) := by
  cases Nat.eq_or_lt_of_le hk
  case inl he =>
    subst he
    have hs := h.continuous_iff.mpr rfl
    have he : advance k d = k := by
      cases advance_cases (d := d) (k := k)
      case inl h => omega
      case inr h => exact h.right
    rw [he]
    refine ⟨_, ?_, h.checkGap hf⟩
    rw [Recovery.step, track, if_neg (by simp [hs]), if_neg (by simp [SyncNeeded, hs])]
  case inr hlt =>
    have hr := h.rewinding hlt
    have hc := continueRewinding (r := { r with missingSequenceNumbers := countdown N (advance k d) }) hr ha hN rfl
    refine ⟨_, ?_, hc.checkGap hf⟩
    rw [Recovery.step, track, if_pos hr, whileRewinding, h.missing, popReceived_advance hlt hN hf hd ha]
    rfl

theorem exec {n : ℕ} (h : r.Awaits N k) (hk : k ≤ N) (hN : N < 2 ^ 64) (hp : Partitions ds' n N)
    (hs : Partitions.Starts ds' k) (hd : ∀ d ∈ ds, d ∈ ds') :
    credit k ds ≤ N ∧ ∃ r', Run.exec Recovery.step r ds = .ok r' ∧ r'.Awaits N (credit k ds) := by
  induction ds generalizing k r
  case nil => exact ⟨hk, r, rfl, h⟩
  case cons d ds hi =>
    obtain ⟨hm, hd⟩ := List.forall_mem_cons.mp hd
    have ha := hp.advance_le hm hk
    obtain ⟨r₁, he, h₁⟩ := h.step hk hN (hp.fits hN hm) (hs d hm) ha
    rw [Run.exec_cons_of_ok he]
    exact hi h₁ ha (hp.starts_advance hm hs) hd

end Awaits

end Recovery

namespace MarketDataClient

open ItchParser

variable {client : MarketDataClient} {ms : List Memory}

-- Where the datagrams can be tracked, it is only the payload that can make the client fail.
theorem exec_ne_backOfEmpty {r : Recovery}
    (h : Run.exec Recovery.step client.toRecovery (ms.map Memory.datagram) = .ok r) :
    Run.exec parse client ms ≠ .error .backOfEmpty := by
  induction ms generalizing client
  case nil => exact Run.ok_ne_error
  case cons m ms hi =>
    obtain ⟨r₁, hr, h⟩ := Run.exec_cons_ok h
    cases hm : client.parse m
    case ok client₁ =>
      have hr₁ := parse_maps hm
      cases hr.symm.trans hr₁
      rw [Run.exec_cons_of_ok hm]
      exact hi h
    case error e =>
      rw [Run.exec_cons, hm]
      intro he
      cases he
      rw [parse_eq, hr] at hm
      exact parsePayload_ne_backOfEmpty <| Run.bind_error_iff.mp hm

theorem exec_awaits {N : UInt64} (ha : client.toRecovery.Awaits N.toNat k) (hk : k ≤ N.toNat)
    (hp : Partitions (ms.map Memory.datagram) k N.toNat) :
    credit k (ms.map Memory.datagram) ≤ N.toNat ∧ Run.exec parse client ms ≠ .error .backOfEmpty ∧
    ∀ client', Run.exec parse client ms = .ok client' →
      client'.toRecovery.Awaits N.toNat (credit k (ms.map Memory.datagram)) := by
  obtain ⟨hc, r, he, hr⟩ := ha.exec hk N.toNat_lt hp hp.starts fun _ => id
  refine ⟨hc, exec_ne_backOfEmpty he, fun client' h => ?_⟩
  cases he.symm.trans (parse_maps.exec h)
  exact hr

-- In every order the numbers are credited as far as they arrive one after the other. Two orders end
-- alike exactly if they are credited equally far, and only in ascending order nothing stays missing.
theorem recovered_iff_ascending {N : UInt64} (hr : client.state = .rewinding) (hk : k < N.toNat)
    (hm : client.missingSequenceNumbers = countdown N.toNat k) (hp : Partitions (ms.map Memory.datagram) k N.toNat) :
    (∀ ms' : List Memory, ms'.Perm ms →
      Run.exec parse client ms' ≠ .error .backOfEmpty ∧
      ∀ client', Run.exec parse client ms' = .ok client' →
        client'.toRecovery.Awaits N.toNat (credit k (ms'.map Memory.datagram)) ∧
        (client'.state = .continuous ↔ Ascending (ms'.map Memory.datagram))) ∧
    ∀ (ms₁ ms₂ : List Memory) (client₁ client₂ : MarketDataClient), ms₁.Perm ms → ms₂.Perm ms →
      Run.exec parse client ms₁ = .ok client₁ → Run.exec parse client ms₂ = .ok client₂ →
      (client₁.state = client₂.state ∧ client₁.missingSequenceNumbers = client₂.missingSequenceNumbers ↔
        credit k (ms₁.map Memory.datagram) = credit k (ms₂.map Memory.datagram)) := by
  have ha : client.toRecovery.Awaits N.toNat k := ⟨hm, by rw [hr, if_neg hk.ne]⟩
  have hp (ms' : List Memory) (hms : ms'.Perm ms) : Partitions (ms'.map Memory.datagram) k N.toNat :=
    hp.perm (hms.map _).symm
  refine ⟨fun ms' hms => ?_, fun ms₁ ms₂ client₁ client₂ hms₁ hms₂ h₁ h₂ => ?_⟩
  case refine_1 =>
    obtain ⟨_, hne, hc⟩ := exec_awaits ha hk.le (hp ms' hms)
    refine ⟨hne, fun client' h => ⟨hc client' h, ?_⟩⟩
    exact (hc client' h).continuous_iff.trans ((hp ms' hms).credit_eq_iff hk.le)
  case refine_2 =>
    obtain ⟨hle₁, _, hc₁⟩ := exec_awaits ha hk.le (hp ms₁ hms₁)
    obtain ⟨hle₂, _, hc₂⟩ := exec_awaits ha hk.le (hp ms₂ hms₂)
    have hd₁ := hc₁ client₁ h₁
    have hd₂ := hc₂ client₂ h₂
    rw [hd₁.missing, hd₂.missing, hd₁.state, hd₂.state, countdown_inj hle₁ hle₂]
    exact and_iff_right_of_imp fun he => by rw [he]

section Samples

def joinedAtThree : MarketDataClient where
  toRecovery := Recovery.initialSync {} 3
  itchParser := ⟨sampleSession⟩

theorem run_joinedAtThree : run (buffers [heartbeat sampleSession 3]) = .ok joinedAtThree :=
  rfl

theorem map_datagram_ignored : (buffers [ignored 1, ignored 2]).map Memory.datagram = [(1, 1), (2, 1)] := by
  decide +kernel

theorem partition_ignored : Partitions ((buffers [ignored 1, ignored 2]).map Memory.datagram) 1 3 := by
  rw [map_datagram_ignored]
  constructor
  case received =>
    intro j
    simp [Received, Datagram.Carries]
    omega
  case disjoint =>
    rw [List.pairwise_pair]
    rintro j ⟨_, h₁⟩ ⟨h₂, _⟩
    have hlt := h₁.trans_le h₂
    exact absurd hlt (Nat.lt_irrefl _)

theorem recovered_iff_ascending_joined :
    ∃ client, Run.exec parse joinedAtThree (buffers [ignored 1, ignored 2]) = .ok client ∧
      client.toRecovery.Awaits 3 (credit 1 [(1, 1), (2, 1)]) ∧
      (client.state = .continuous ↔ Ascending [(1, 1), (2, 1)]) := by
  have hr : joinedAtThree.state = .rewinding := rfl
  have h := recovered_iff_ascending (N := 3) hr (by decide) rfl partition_ignored
  refine ⟨_, rfl, ?_⟩
  rw [← map_datagram_ignored]
  exact (h.left _ (.refl _)).right _ rfl

-- The client joins at 3. If it is sent 2 before 1, it goes on to wait for 2.
theorem overtaken_stays_missing :
    ∃ client client', run (buffers [heartbeat sampleSession 3]) = .ok joinedAtThree ∧
      joinedAtThree.state = .rewinding ∧ joinedAtThree.missingSequenceNumbers = countdown 3 1 ∧
      Partitions ((buffers [ignored 1, ignored 2]).map Memory.datagram) 1 3 ∧
      (buffers [ignored 2, ignored 1]).Perm (buffers [ignored 1, ignored 2]) ∧
      Run.exec parse joinedAtThree (buffers [ignored 1, ignored 2]) = .ok client ∧
      client.state = .continuous ∧ client.missingSequenceNumbers = [] ∧
      Run.exec parse joinedAtThree (buffers [ignored 2, ignored 1]) = .ok client' ∧
      client'.state = .rewinding ∧ client'.missingSequenceNumbers = [2] :=
  ⟨_, _, run_joinedAtThree, rfl, rfl, partition_ignored, .swap .., rfl, rfl, rfl, rfl, rfl, rfl⟩

end Samples

end MarketDataClient
