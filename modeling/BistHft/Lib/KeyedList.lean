import BistHft.Lib.Weight
import Mathlib.Data.List.Pairwise
import Mathlib.Data.List.Nodup
import Mathlib.Data.List.Induction
import Mathlib.Order.Defs.Unbundled

-- Searches that walk a list from its back, and lists of key/value pairs that are ordered by key.

namespace List

variable {α : Type*}

-- The position after the last element that satisfies `p`, or 0 if there is none. This is the base
-- of the reverse iterator at which a loop from `rbegin()` stops, where 0 is the base of `rend()`.
def rfindBase (p : α → Bool) (l : List α) : ℕ :=
  go l.reverse
where
  go : List α → ℕ
    | []      => 0
    | a :: as => if p a then as.length + 1 else go as

theorem rfindBase_concat {p : α → Bool} {l : List α} {a : α} :
    (l ++ [a]).rfindBase p = if p a then l.length + 1 else l.rfindBase p := by
  simp [rfindBase, rfindBase.go]

-- Where such a loop stops: it has passed `post`, and it looks at the last element of `pre`.
theorem rfindBase_split (p : α → Bool) (l : List α) :
    ∃ pre post, l = pre ++ post ∧ l.rfindBase p = pre.length ∧ (∀ a ∈ post, p a = false) ∧
      (pre = [] ∨ ∃ init a, pre = init ++ [a] ∧ p a = true) := by
  induction l using List.reverseRecOn
  case nil => exact ⟨[], [], rfl, rfl, by simp, .inl rfl⟩
  case append_singleton l a hi =>
    cases ha : p a
    case true => exact ⟨l ++ [a], [], by simp, by simp [rfindBase_concat, ha], by simp, .inr ⟨l, a, rfl, ha⟩⟩
    case false =>
      obtain ⟨pre, post, rfl, hb, hpost, hpre⟩ := hi
      have hb' : (pre ++ post ++ [a]).rfindBase p = pre.length := by simp only [rfindBase_concat, ha, hb]; rfl
      refine ⟨pre, post ++ [a], append_assoc .., hb', ?_, hpre⟩
      simp only [mem_append, mem_singleton]
      rintro b (hb | rfl)
      · exact hpost b hb
      · exact ha

theorem insertIdx_append_length {pre post : List α} {a : α} :
    (pre ++ post).insertIdx pre.length a = pre ++ a :: post := by
  induction pre
  case nil     => rfl
  case cons hi => simp [hi]

variable {κ ν : Type*} {r : κ → κ → Prop} {pre post l : List (κ × ν)} {k : κ} {v v' : ν}

def KeyOrdered (r : κ → κ → Prop) (l : List (κ × ν)) : Prop :=
  l.Pairwise fun a b => r a.1 b.1

namespace KeyOrdered

theorem nil : KeyOrdered r ([] : List (κ × ν)) :=
  Pairwise.nil

theorem singleton : KeyOrdered r [(k, v)] :=
  pairwise_singleton ..

theorem keys_nodup [Std.Irrefl r] (h : KeyOrdered r l) : (l.map Prod.fst).Nodup := by
  refine pairwise_map.mpr (h.imp ?_)
  intro a b hr he
  exact irrefl b.1 (he ▸ hr)

theorem set_value (h : KeyOrdered r (pre ++ (k, v) :: post)) :
    KeyOrdered r (pre ++ (k, v') :: post) := by
  simp only [KeyOrdered, pairwise_append, pairwise_cons, mem_cons, forall_eq_or_imp] at h ⊢
  exact h

theorem erase (h : KeyOrdered r (pre ++ (k, v) :: post)) : KeyOrdered r (pre ++ post) :=
  h.sublist <| (Sublist.refl pre).append (sublist_cons_self ..)

theorem insert (h : KeyOrdered r (pre ++ post)) (hpre : ∀ a ∈ pre, r a.1 k)
    (hpost : ∀ a ∈ post, r k a.1) : KeyOrdered r (pre ++ (k, v) :: post) := by
  simp only [KeyOrdered, pairwise_append, pairwise_cons, mem_cons, forall_eq_or_imp] at h ⊢
  exact ⟨h.left, ⟨hpost, h.right.left⟩, fun a ha => ⟨hpre a ha, h.right.right a ha⟩⟩

-- The place at which an insertion loop stops keeps the order: everything before it is below the
-- new key since its last element is, and everything after it is above since the order is total.
theorem insert_of_stop [IsStrictTotalOrder κ r] (h : KeyOrdered r (pre ++ post))
    (hk : ∀ a ∈ pre ++ post, a.1 ≠ k) (hpost : ∀ a ∈ post, ¬r a.1 k)
    (hpre : pre = [] ∨ ∃ init a, pre = init ++ [a] ∧ r a.1 k) :
    KeyOrdered r (pre ++ (k, v) :: post) := by
  refine h.insert ?pre ?post
  case pre =>
    obtain rfl | ⟨init, a, rfl, ha⟩ := hpre
    case inl => simp
    case inr =>
      have hinit := (pairwise_append.mp (pairwise_append.mp h).left).right.right
      simp only [mem_append, mem_singleton]
      rintro b (hb | rfl)
      · exact IsTrans.trans _ _ _ (hinit b hb a (mem_singleton_self a)) ha
      · exact ha
  case post =>
    intro a ha
    obtain hr | he | hr := trichotomous (r := r) a.1 k
    · exact absurd hr (hpost a ha)
    · exact absurd he (hk a (mem_append_right _ ha))
    · exact hr

-- The order leaves no choice of where an element stands.
theorem eq_of_mem_iff [IsStrictTotalOrder κ r] {l' : List (κ × ν)} (h : KeyOrdered r l) (h' : KeyOrdered r l')
    (hm : ∀ a, a ∈ l ↔ a ∈ l') : l = l' := by
  have hp : l.Perm l' := (perm_ext_iff_of_nodup h.keys_nodup.of_map h'.keys_nodup.of_map).mpr hm
  refine hp.eq_of_pairwise ?_ h h'
  intro a b _ _ hab hba
  exact absurd hba (asymm hab)

end KeyOrdered

-- An ordered list holds exactly the finite map `d`, where a key without weight is absent.
structure Holds [DecidableEq κ] (r : κ → κ → Prop) (w : ν → ℕ) (l : List (κ × ν)) (d : κ → ℕ) : Prop where
  ordered : l.KeyOrdered r
  pos     : ∀ a ∈ l, 0 < w a.2
  weight  : ∀ k, l.weightAt Prod.fst (w ·.2) k = d k

namespace Holds

variable [DecidableEq κ] {w : ν → ℕ} {d : κ → ℕ}

theorem nil : ([] : List (κ × ν)).Holds r w 0 where
  ordered  := .nil
  pos      := by simp
  weight _ := rfl

theorem exists_mem (h : l.Holds r w d) (hk : 0 < d k) : ∃ v, (k, v) ∈ l := by
  rw [← h.weight k] at hk
  have ⟨⟨_, v⟩, hm, he⟩ := exists_mem_of_weightAt_pos hk
  exact ⟨v, he ▸ hm⟩

theorem absent (h : l.Holds r w d) (hk : ∀ a ∈ l, a.1 ≠ k) : d k = 0 :=
  h.weight k ▸ weightAt_eq_zero hk

theorem value [Std.Irrefl r] (h : l.Holds r w d) (hm : (k, v) ∈ l) : d k = w v :=
  h.weight k ▸ weightAt_of_mem_nodup h.ordered.keys_nodup hm

theorem mem_iff [Std.Irrefl r] (h : l.Holds r w d) : (∃ v, (k, v) ∈ l) ↔ 0 < d k where
  mp  := fun ⟨_, hm⟩ => h.value hm ▸ h.pos _ hm
  mpr := h.exists_mem

theorem erase [Std.Irrefl r] (h : (pre ++ (k, v) :: post).Holds r w d) :
    (pre ++ post).Holds r w (Function.update d k 0) where
  ordered  := h.ordered.erase
  pos a ha := h.pos a <| by simp only [mem_append, mem_cons] at ha ⊢; tauto
  weight i := by
    have hi := h.weight i
    by_cases he : i = k
    case pos =>
      subst he
      have hv := h.value (mem_append_right pre mem_cons_self)
      simp only [weightAt_append, weightAt_cons, if_true, Function.update_self] at hi ⊢
      omega
    case neg =>
      have he' : ¬k = i := Ne.symm he
      simpa [he, he'] using hi

theorem insert (h : (pre ++ post).Holds r w d) (ho : KeyOrdered r (pre ++ (k, v) :: post))
    (hk : d k = 0) (hv : 0 < w v) :
    (pre ++ (k, v) :: post).Holds r w (Function.update d k (w v)) where
  ordered := ho
  pos a ha := by
    simp only [mem_append, mem_cons] at ha
    cases ha
    case inl ha => exact h.pos a (mem_append_left _ ha)
    case inr ha =>
      cases ha
      case inl ha => exact ha ▸ hv
      case inr ha => exact h.pos a (mem_append_right _ ha)
  weight i := by
    have hi := h.weight i
    by_cases he : i = k
    case pos =>
      subst he
      simp only [weightAt_append, weightAt_cons, if_true, Function.update_self] at hi ⊢
      omega
    case neg =>
      have he' : ¬k = i := Ne.symm he
      simpa [he, he'] using hi

theorem store [Std.Irrefl r] (h : (pre ++ (k, v) :: post).Holds r w d) (hv : 0 < w v') :
    (pre ++ (k, v') :: post).Holds r w (Function.update d k (w v')) := by
  have := h.erase.insert h.ordered.set_value (Function.update_self ..) hv
  rwa [Function.update_idem] at this

-- Weights that tell values apart: what is in the list can be read off the finite map.
theorem mem_iff_weight [Std.Irrefl r] (hw : w.Injective) (h : l.Holds r w d) :
    (k, v) ∈ l ↔ 0 < w v ∧ d k = w v where
  mp hm  := ⟨h.pos _ hm, h.value hm⟩
  mpr hv := by
    obtain ⟨u, hu⟩ := h.exists_mem (hv.right ▸ hv.left)
    rwa [hw (hv.right.symm.trans (h.value hu))]

theorem unique [IsStrictTotalOrder κ r] {l' : List (κ × ν)} (hw : w.Injective) (h : l.Holds r w d)
    (h' : l'.Holds r w d) : l = l' := by
  refine h.ordered.eq_of_mem_iff h'.ordered fun a => ?_
  rw [h.mem_iff_weight hw, h'.mem_iff_weight hw]

-- The last key is the top of the order.
theorem last [Std.Irrefl r] (h : (pre ++ [(k, v)]).Holds r w d) :
    0 < d k ∧ ∀ i, 0 < d i → i ≠ k → r i k := by
  refine ⟨h.mem_iff.mp ⟨v, mem_append_right _ (mem_singleton_self _)⟩, fun i hi hne => ?_⟩
  have ⟨u, hu⟩ := h.exists_mem hi
  simp only [mem_append, mem_singleton, Prod.mk.injEq, hne, false_and, or_false] at hu
  exact (pairwise_append.mp h.ordered).right.right _ hu _ (mem_singleton_self _)

end Holds

-- An ordered list spells out the partial map `f`, whatever the values are.
structure Enumerates (r : κ → κ → Prop) (l : List (κ × ν)) (f : κ → Option ν) : Prop where
  ordered : l.KeyOrdered r
  mem_iff : ∀ k v, (k, v) ∈ l ↔ f k = some v

namespace Enumerates

variable {f : κ → Option ν}

theorem nil : ([] : List (κ × ν)).Enumerates r fun _ => none where
  ordered := .nil
  mem_iff := by simp

theorem value (h : (pre ++ (k, v) :: post).Enumerates r f) : f k = some v :=
  (h.mem_iff k v).mp <| mem_append_right _ mem_cons_self

theorem absent (h : l.Enumerates r f) (hk : ∀ a ∈ l, a.1 ≠ k) : f k = none :=
  Option.eq_none_iff_forall_ne_some.mpr fun v hv => hk _ ((h.mem_iff k v).mpr hv) rfl

variable [DecidableEq κ]

-- What the rest of the list says about the other keys.
theorem erase [Std.Irrefl r] (h : (pre ++ (k, v) :: post).Enumerates r f) :
    (pre ++ post).Enumerates r (Function.update f k none) where
  ordered := h.ordered.erase
  mem_iff i u := by
    have hi := h.mem_iff i u
    have hn := h.ordered.keys_nodup
    rw [map_append, map_cons, nodup_middle, nodup_cons, ← map_append] at hn
    cases Decidable.em (i = k)
    case inl he =>
      subst he
      rw [Function.update_self]
      exact iff_of_false (fun hm => hn.left <| mem_map.mpr ⟨_, hm, rfl⟩) nofun
    case inr he =>
      rw [Function.update_of_ne he, ← hi]
      simp [he]

theorem insert (h : (pre ++ post).Enumerates r f) (ho : KeyOrdered r (pre ++ (k, v) :: post)) (hk : f k = none) :
    (pre ++ (k, v) :: post).Enumerates r (Function.update f k (some v)) where
  ordered := ho
  mem_iff i u := by
    have hi := h.mem_iff i u
    cases Decidable.em (i = k)
    case inl he =>
      subst he
      rw [hk, mem_append] at hi
      simp only [reduceCtorEq, iff_false, not_or] at hi
      simp [hi, eq_comm]
    case inr he =>
      rw [Function.update_of_ne he, ← hi]
      simp [he]

theorem store [Std.Irrefl r] (h : (pre ++ (k, v) :: post).Enumerates r f) :
    (pre ++ (k, v') :: post).Enumerates r (Function.update f k (some v')) := by
  have := h.erase.insert h.ordered.set_value (v := v') (Function.update_self ..)
  rwa [Function.update_idem] at this

omit [DecidableEq κ] in
theorem eq_iff [IsStrictTotalOrder κ r] {l' : List (κ × ν)} {f' : κ → Option ν} (h : l.Enumerates r f)
    (h' : l'.Enumerates r f') : l = l' ↔ f = f' where
  mp he := by
    subst he
    funext k
    exact Option.ext fun v => (h.mem_iff k v).symm.trans (h'.mem_iff k v)
  mpr he := h.ordered.eq_of_mem_iff h'.ordered fun a => by rw [h.mem_iff, h'.mem_iff, he]

end Enumerates

end List
