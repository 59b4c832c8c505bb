import BistHft.Core.L2Orderbook

-- What the operations on one side of the book do to the quantity that the side holds at each price.

-- The abstract side: the total quantity at each price, where a price without a level has none.
abbrev Depth := Int32 → ℕ

namespace Depth

def add (d : Depth) (price : Int32) (qty : ℕ) : Depth :=
  Function.update d price (d price + qty)

-- Subtracting everything that is there drops the price.
def remove (d : Depth) (price : Int32) (qty : ℕ) : Depth :=
  Function.update d price (d price - qty)

variable {d : Depth} {price p : Int32} {qty : ℕ}

theorem add_apply : d.add price qty p = d p + if price = p then qty else 0 := by
  by_cases h : price = p
  case pos => simp [add, h]
  case neg => simp [add, h, Ne.symm h]

theorem remove_apply : d.remove price qty p = d p - if price = p then qty else 0 := by
  by_cases h : price = p
  case pos => simp [remove, h]
  case neg => simp [remove, h, Ne.symm h]

end Depth

namespace Levels

variable {comp : Int32 → Int32 → Prop} [IsStrictTotalOrder Int32 comp] {levels : Levels} {d : Depth}
variable {price p : Int32} {qty : UInt64}

-- The levels are ordered, none of them is empty, and they hold exactly the quantities of `d`.
abbrev Represents (comp : Int32 → Int32 → Prop) (levels : Levels) (d : Depth) : Prop :=
  levels.Holds comp UInt64.toNat d

-- What `getLevel` finds and what its iterator can be used for.
inductive Search (levels : Levels) (price : Int32) : Prop
  | missing (none : levels.deref? (levels.getLevel price) = none)
      (absent : ∀ level ∈ levels, level.1 ≠ price)
  | found (pre : Levels) (q : UInt64) (post : Levels) (eq : levels = pre ++ (price, q) :: post)
      (deref : levels.deref? (levels.getLevel price) = some (price, q))
      (store : ∀ q', levels.store (levels.getLevel price) q' = pre ++ (price, q') :: post)
      (erase : ∀ q', eraseLevel (pre ++ (price, q') :: post) (levels.getLevel price) = pre ++ post)

theorem search (levels : Levels) (price : Int32) : levels.Search price := by
  have ⟨pre, post, h, hb, hpost, hpre⟩ := levels.rfindBase_split (·.1 = price)
  cases hpre
  case inl hpre =>
    subst hpre
    refine .missing (by simp [deref?, getLevel, hb]) fun level hl => ?_
    exact of_decide_eq_false <| hpost level (by simpa [h] using hl)
  case inr hpre =>
    have ⟨init, ⟨p, q⟩, hi, hp⟩ := hpre
    have hp : p = price := of_decide_eq_true hp
    subst hp hi
    have hb : levels.getLevel p = init.length + 1 := by simp [getLevel, hb]
    have h : levels = init ++ (p, q) :: post := by simp [h]
    refine .found init q post h ?deref ?store ?erase <;> rw [hb]
    case deref => simp [deref?, h]
    case store => simp [store, List.modify_eq_take_drop, h]
    case erase => simp [eraseLevel, List.eraseIdx_append_of_length_le]

-- What `addOrder` does: a new level where the loop stops, or more in the level that the search finds.
inductive Added (comp : Int32 → Int32 → Prop) (levels : Levels) (price : Int32) (qty : UInt64) : Levels → Prop
  | new (pre post : Levels) (eq : levels = pre ++ post) (absent : ∀ level ∈ pre ++ post, level.1 ≠ price)
    (above : ∀ level ∈ post, ¬comp level.1 price)
    (below : pre = [] ∨ ∃ init level, pre = init ++ [level] ∧ comp level.1 price) :
    Added comp levels price qty (pre ++ (price, qty) :: post)
  | more (pre : Levels) (q : UInt64) (post : Levels) (eq : levels = pre ++ (price, q) :: post) :
    Added comp levels price qty (pre ++ (price, q + qty) :: post)

omit [IsStrictTotalOrder Int32 comp] in
theorem added_insertLevel [DecidableRel comp] (ha : ∀ level ∈ levels, level.1 ≠ price) :
    levels.Added comp price qty (levels.insertLevel comp price qty) := by
  have ⟨pre, post, he, hb, hpost, hpre⟩ := levels.rfindBase_split fun level => comp level.1 price
  simp only [decide_eq_false_iff_not] at hpost
  simp only [decide_eq_true_eq] at hpre
  have hi : levels.insertLevel comp price qty = pre ++ (price, qty) :: post := by
    rw [insertLevel, hb, he, List.insertIdx_append_length]
  exact hi ▸ .new pre post he (he ▸ ha) hpost hpre

omit [IsStrictTotalOrder Int32 comp] in
theorem added [DecidableRel comp] : levels.Added comp price qty (levels.addOrder comp price qty) := by
  unfold addOrder
  split
  case isTrue he =>
    cases List.isEmpty_iff.mp he
    exact .new [] [] rfl (List.forall_mem_nil _) (List.forall_mem_nil _) (.inl rfl)
  case isFalse =>
    cases levels.search price
    case missing hm ha => simpa [hm] using added_insertLevel ha
    case found pre q post he hf hs _ =>
      simp only [hf, if_true, hs]
      exact .more pre q post he

namespace Represents

omit [IsStrictTotalOrder Int32 comp] in
theorem nil : Represents comp [] 0 :=
  List.Holds.nil

theorem of_added {levels' : Levels} (h : levels.Represents comp d) (ha : levels.Added comp price qty levels')
    (hq : 0 < qty) (hb : d price + qty.toNat < 2 ^ 64) :
    levels'.Represents comp (d.add price qty.toNat) := by
  have hq : 0 < qty.toNat := hq
  cases ha
  case new pre post he ha habove hbelow =>
    subst he
    have hd : d price = 0 := h.absent ha
    rw [Depth.add, hd, Nat.zero_add]
    exact h.insert (h.ordered.insert_of_stop ha habove hbelow) hd hq
  case more pre q post he =>
    subst he
    have hv := h.value (List.mem_append_right pre List.mem_cons_self)
    have hs : (q + qty).toNat = d price + qty.toNat := by rw [hv, UInt64.toNat_add_of_lt (hv ▸ hb)]
    rw [Depth.add, ← hs]
    exact h.store (by omega)

theorem addOrder [DecidableRel comp] (h : levels.Represents comp d) (hq : 0 < qty)
    (hb : d price + qty.toNat < 2 ^ 64) :
    (levels.addOrder comp price qty).Represents comp (d.add price qty.toNat) :=
  h.of_added added hq hb

-- The three ways in which the source takes quantity from a level end in the same levels.
theorem take (h : Represents comp (pre ++ (price, q) :: post) d) (hq : qty.toNat ≤ d price) :
    Represents comp (if q > qty then pre ++ (price, q - qty) :: post else pre ++ post)
      (d.remove price qty.toNat) := by
  have hv := h.value (List.mem_append_right pre List.mem_cons_self)
  split
  case isTrue hlt =>
    have hlt : qty.toNat < q.toNat := hlt
    have hs : (q - qty).toNat = d price - qty.toNat := by
      rw [hv, UInt64.toNat_sub_of_le _ _ hlt.le]
    rw [Depth.remove, ← hs]
    exact h.store (by omega)
  case isFalse hge =>
    have hge : ¬qty.toNat < q.toNat := hge
    have hs : d price - qty.toNat = 0 := by omega
    rw [Depth.remove, hs]
    exact h.erase

theorem executeOrderImpl (h : levels.Represents comp d) (hd : 0 < d price) (hq : qty.toNat ≤ d price) :
    ∃ levels', levels.executeOrderImpl price qty = .ok levels' ∧
      levels'.Represents comp (d.remove price qty.toNat) := by
  cases levels.search price
  case missing _ ha => exact absurd (h.absent ha) hd.ne'
  case found pre q post he hf hs hr =>
    subst he
    refine ⟨_, ?_, h.take hq⟩
    simp only [Levels.executeOrderImpl, hf, hs, hr]
    split <;> rfl

theorem deleteOrder (h : levels.Represents comp d) (hd : 0 < d price) (hq : qty.toNat ≤ d price) :
    ∃ levels', levels.deleteOrder price qty = .ok levels' ∧
      levels'.Represents comp (d.remove price qty.toNat) := by
  cases levels.search price
  case missing _ ha => exact absurd (h.absent ha) hd.ne'
  case found pre q post he hf hs hr =>
    subst he
    have hv := h.value (List.mem_append_right pre List.mem_cons_self)
    have hle : qty ≤ q := UInt64.le_iff_toNat_le.mpr (hv ▸ hq)
    have hz : q - qty ≤ 0 ↔ ¬q > qty := by
      rw [UInt64.le_iff_toNat_le, UInt64.toNat_sub_of_le _ _ hle, gt_iff_lt, UInt64.lt_iff_toNat_lt]
      simp only [UInt64.toNat_zero]
      omega
    refine ⟨_, ?_, h.take hq⟩
    simp only [Levels.deleteOrder, hf, if_true, hs, hr, hz]
    by_cases hc : q > qty <;> simp [hc]

theorem replaceOrder [DecidableRel comp] {oldPrice newPrice : Int32} {oldQty newQty : UInt64}
    (h : levels.Represents comp d) (hd : 0 < d oldPrice) (hq : oldQty.toNat ≤ d oldPrice)
    (hn : 0 < newQty) (hb : (d.remove oldPrice oldQty.toNat) newPrice + newQty.toNat < 2 ^ 64) :
    ∃ levels', levels.replaceOrder comp oldPrice oldQty newPrice newQty = .ok levels' ∧
      levels'.Represents comp ((d.remove oldPrice oldQty.toNat).add newPrice newQty.toNat) := by
  cases levels.search oldPrice
  case missing _ ha => exact absurd (h.absent ha) hd.ne'
  case found pre q post he hf hs hr =>
    subst he
    have hv := h.value (List.mem_append_right pre List.mem_cons_self)
    by_cases hp : oldPrice = newPrice
    case pos =>
      subst hp
      have hn : 0 < newQty.toNat := hn
      have hle : oldQty ≤ q := UInt64.le_iff_toNat_le.mpr (hv ▸ hq)
      simp only [Depth.remove, Function.update_self, hv] at hb
      have hs' : (q - oldQty).toNat = q.toNat - oldQty.toNat := UInt64.toNat_sub_of_le _ _ hle
      have ha : (q - oldQty + newQty).toNat = q.toNat - oldQty.toNat + newQty.toNat := by
        rw [UInt64.toNat_add_of_lt (by omega), hs']
      refine ⟨pre ++ (oldPrice, q - oldQty + newQty) :: post, ?_, ?_⟩
      · simp only [Levels.replaceOrder, hf, if_true, hs]
      · simp only [Depth.add, Depth.remove, Function.update_self, Function.update_idem, hv, ← ha]
        exact h.store (by omega)
    case neg =>
      refine ⟨_, ?_, (h.take hq).addOrder hn hb⟩
      simp only [Levels.replaceOrder, hf, if_neg hp, hs, hr]

end Represents

end Levels
