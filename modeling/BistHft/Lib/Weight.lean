import Mathlib.Data.Finmap
import Mathlib.Algebra.BigOperators.Group.List.Basic
import Mathlib.Algebra.BigOperators.Group.Multiset.Basic
import Mathlib.Algebra.Order.BigOperators.Group.List
import Mathlib.Algebra.Order.Ring.Nat

-- How much a list of weighted items holds at a place, and how updates of a keyed store change it.

section List

variable {α ι : Type*} [DecidableEq ι] {place : α → ι} {weight : α → ℕ} {l l₁ l₂ : List α} {a : α}
  {i : ι}

def List.weightAt (place : α → ι) (weight : α → ℕ) (l : List α) (i : ι) : ℕ :=
  (l.map fun a => if place a = i then weight a else 0).sum

namespace List

@[simp]
theorem weightAt_nil : [].weightAt place weight i = 0 :=
  rfl

@[simp]
theorem weightAt_cons :
    (a :: l).weightAt place weight i =
      (if place a = i then weight a else 0) + l.weightAt place weight i := by
  simp [weightAt]

@[simp]
theorem weightAt_append :
    (l₁ ++ l₂).weightAt place weight i = l₁.weightAt place weight i + l₂.weightAt place weight i := by
  simp [weightAt]

theorem le_weightAt (h : a ∈ l) : weight a ≤ l.weightAt place weight (place a) := by
  induction h <;> simp
  case tail hi => exact Nat.le_add_left_of_le hi

theorem weightAt_eq_zero (h : ∀ a ∈ l, place a ≠ i) : l.weightAt place weight i = 0 := by
  induction l
  case nil => rfl
  case cons hi => simp_all

theorem exists_mem_of_weightAt_pos (h : 0 < l.weightAt place weight i) : ∃ a ∈ l, place a = i := by
  by_contra hc
  push Not at hc
  exact h.ne' (weightAt_eq_zero hc)

theorem weightAt_of_mem_nodup (hn : (l.map place).Nodup) (h : a ∈ l) :
    l.weightAt place weight (place a) = weight a := by
  obtain ⟨l₁, l₂, rfl⟩ := append_of_mem h
  simp only [map_append, map_cons, nodup_middle, nodup_cons, mem_append, mem_map, not_or] at hn
  have h₁ : l₁.weightAt place weight (place a) = 0 :=
    weightAt_eq_zero fun b hb he => hn.left.left ⟨b, hb, he⟩
  have h₂ : l₂.weightAt place weight (place a) = 0 :=
    weightAt_eq_zero fun b hb he => hn.left.right ⟨b, hb, he⟩
  simp [h₁, h₂]

theorem Sublist.sum_map_le (h : l₁ <+ l₂) : (l₁.map weight).sum ≤ (l₂.map weight).sum :=
  (h.map _).sum_le_sum (fun _ _ => Nat.zero_le _)

theorem Subperm.sum_map_le (h : l₁ <+~ l₂) : (l₁.map weight).sum ≤ (l₂.map weight).sum := by
  have ⟨l, hp, hs⟩ := h
  exact (hp.map weight).sum_eq ▸ hs.sum_map_le

theorem Subperm.weightAt_le (h : l₁ <+~ l₂) : l₁.weightAt place weight i ≤ l₂.weightAt place weight i :=
  h.sum_map_le

theorem Subperm.nodup_filterMap {β : Type*} {f : α → Option β} (h : l₁ <+~ l₂)
    (hn : (l₂.filterMap f).Nodup) : (l₁.filterMap f).Nodup := by
  have ⟨l, hp, hs⟩ := h
  exact (hp.filterMap f).nodup_iff.mp <| hn.sublist (hs.filterMap f)

end List

end List

section Finmap

variable {κ ν ι : Type*} [DecidableEq κ] [DecidableEq ι] (place : ν → ι) (weight : ν → ℕ)
variable {m : Finmap fun _ : κ => ν} {k : κ} {v v' : ν} {i : ι}

namespace Finmap

omit [DecidableEq ι] in
theorem entries_of_lookup (h : m.lookup k = some v) : m.entries = ⟨k, v⟩ ::ₘ (m.erase k).entries := by
  induction m using Finmap.induction_on
  case H m =>
    rw [lookup_toFinmap] at h
    have hk : k ∈ m.entries.keys := AList.mem_keys.mp <| AList.lookup_isSome.mp (h ▸ rfl)
    have ⟨w, l₁, l₂, _, hl, he⟩ := List.exists_of_kerase hk
    have hw : m.lookup k = some w := AList.mem_lookup_iff.mpr (by simp [hl])
    cases h.symm.trans hw
    have he : (m.erase k).entries = l₁ ++ l₂ := he
    simp only [erase_toFinmap, AList.toFinmap_entries, he, hl]
    exact Multiset.coe_eq_coe.mpr List.perm_middle

omit [DecidableEq ι] in
theorem entries_insert : (m.insert k v).entries = ⟨k, v⟩ ::ₘ (m.erase k).entries := by
  induction m using Finmap.induction_on
  case H m => rfl

omit [DecidableEq ι] in
theorem erase_of_lookup_none (h : m.lookup k = none) : m.erase k = m := by
  apply ext_lookup
  intro j
  by_cases hj : j = k
  case pos => rw [hj, lookup_erase, h]
  case neg => rw [lookup_erase_ne hj]

omit [DecidableEq ι] in
theorem lookup_insert_apply {j : κ} :
    (m.insert k v).lookup j = if j = k then some v else m.lookup j := by
  split
  case isTrue h  => rw [h, lookup_insert]
  case isFalse h => rw [lookup_insert_of_ne m h]

omit [DecidableEq ι] in
theorem lookup_erase_apply {j : κ} : (m.erase k).lookup j = if j = k then none else m.lookup j := by
  split
  case isTrue h  => rw [h, lookup_erase]
  case isFalse h => rw [lookup_erase_ne h]

-- Every entry of the store has the property.
def Every (P : κ → ν → Prop) (m : Finmap fun _ : κ => ν) : Prop :=
  ∀ k v, m.lookup k = some v → P k v

omit [DecidableEq ι] in
theorem Every.imp {P Q : κ → ν → Prop} (h : m.Every P) (hi : ∀ k v, P k v → Q k v) : m.Every Q :=
  fun k v hl => hi k v (h k v hl)

omit [DecidableEq ι] in
theorem Every.insert {P : κ → ν → Prop} (h : m.Every P) (hv : P k v) : (m.insert k v).Every P := by
  intro j w hw
  rw [lookup_insert_apply] at hw
  split at hw
  case isTrue hj  => cases hw; exact hj ▸ hv
  case isFalse hj => exact h j w hw

omit [DecidableEq ι] in
theorem Every.erase {P : κ → ν → Prop} (h : m.Every P) : (m.erase k).Every P := by
  intro j w hw
  rw [lookup_erase_apply] at hw
  split at hw
  case isTrue  => contradiction
  case isFalse => exact h j w hw

-- The weight that the values of a keyed store hold at a place.
def weightAt (m : Finmap fun _ : κ => ν) (i : ι) : ℕ :=
  (m.entries.map fun e => if place e.snd = i then weight e.snd else 0).sum

omit [DecidableEq κ] in
@[simp]
theorem weightAt_empty : (∅ : Finmap fun _ : κ => ν).weightAt place weight i = 0 :=
  rfl

theorem weightAt_of_lookup (h : m.lookup k = some v) :
    m.weightAt place weight i =
      (if place v = i then weight v else 0) + (m.erase k).weightAt place weight i := by
  simp [weightAt, entries_of_lookup h]

theorem weightAt_insert :
    (m.insert k v).weightAt place weight i =
      (if place v = i then weight v else 0) + (m.erase k).weightAt place weight i := by
  simp [weightAt, entries_insert]

-- A write of any kind adds at most the weight of what is written.
theorem weightAt_insert_le :
    (m.insert k v).weightAt place weight i ≤
      (if place v = i then weight v else 0) + m.weightAt place weight i := by
  rw [weightAt_insert]
  cases h : m.lookup k
  case none   => rw [erase_of_lookup_none h]
  case some w => rw [weightAt_of_lookup place weight h]; omega

theorem le_weightAt (h : m.lookup k = some v) : weight v ≤ m.weightAt place weight (place v) := by
  simp [weightAt_of_lookup place weight h]

theorem exists_lookup_of_weightAt_pos (h : 0 < m.weightAt place weight i) :
    ∃ k v, m.lookup k = some v ∧ place v = i := by
  induction m using Finmap.induction_on
  case H m =>
    have hl : 0 < m.entries.weightAt (place ·.snd) (weight ·.snd) i := by
      simpa [weightAt, List.weightAt] using h
    have ⟨⟨k, v⟩, hm, hp⟩ := List.exists_mem_of_weightAt_pos hl
    exact ⟨k, v, AList.mem_lookup_iff.mpr hm, hp⟩

end Finmap

end Finmap
