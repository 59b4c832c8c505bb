import BistHft.Core.Theorems.L2Orderbook

-- The three ways in which quantity is taken from a level, on the boundary and beyond it.

namespace Levels

variable {comp : Int32 → Int32 → Prop} {levels pre post : Levels} {price newPrice : Int32} {q qty newQty : UInt64}

-- What should be left: less at the price, or no level there at all.
def taken (levels : Levels) (price : Int32) (q qty : UInt64) : Levels :=
  if qty < q then
    levels.map fun level => if level.1 = price then (price, q - qty) else level
  else
    levels.filter (·.1 ≠ price)

section Taken

theorem taken_split (h : ∀ level ∈ pre ++ post, level.1 ≠ price) :
    (pre ++ (price, q) :: post).taken price q qty = if q > qty then pre ++ (price, q - qty) :: post else pre ++ post := by
  obtain ⟨hpre, hpost⟩ := List.forall_mem_append.mp h
  have hmap {l : Levels} (hl : ∀ level ∈ l, level.1 ≠ price) :
      (l.map fun level => if level.1 = price then (price, q - qty) else level) = l :=
    (List.map_congr_left fun level hm => if_neg (hl level hm)).trans (List.map_id l)
  have hfilter {l : Levels} (hl : ∀ level ∈ l, level.1 ≠ price) : l.filter (·.1 ≠ price) = l :=
    List.filter_eq_self.mpr fun level hm => decide_eq_true (hl level hm)
  rw [taken]
  split
  case isTrue  => rw [List.map_append, List.map_cons, hmap hpre, hmap hpost, if_pos rfl]
  case isFalse => rw [List.filter_append, List.filter_cons_of_neg (by simp), hfilter hpre, hfilter hpost]

-- Nothing grows.
theorem taken_le {level : Int32 × UInt64} (h : level ∈ levels.taken price q qty) :
    level ∈ levels ∨ level.1 = price ∧ level.2 ≤ q := by
  rw [taken] at h
  split at h
  case isFalse => exact .inl (List.mem_of_mem_filter h)
  case isTrue hlt =>
    obtain ⟨old, hm, rfl⟩ := List.mem_map.mp h
    split
    case isFalse => exact .inl hm
    case isTrue  => exact .inr ⟨rfl, UInt64.sub_le (UInt64.le_of_lt hlt)⟩

end Taken

section Removals

-- The only level at the price, as the search finds it.
theorem found_of_mem (hn : (levels.map Prod.fst).Nodup) (hm : (price, q) ∈ levels) :
    ∃ pre post, levels = pre ++ (price, q) :: post ∧ (∀ level ∈ pre ++ post, level.1 ≠ price) ∧
      levels.deref? (levels.getLevel price) = some (price, q) ∧
      (∀ q', levels.store (levels.getLevel price) q' = pre ++ (price, q') :: post) ∧
      ∀ q', eraseLevel (pre ++ (price, q') :: post) (levels.getLevel price) = pre ++ post := by
  cases levels.search price
  case missing _ ha => exact absurd rfl (ha _ hm)
  case found pre q' post he hf hs hr =>
    subst he
    rw [List.map_append, List.map_cons, List.nodup_middle, List.nodup_cons, ← List.map_append] at hn
    have hne : ∀ level ∈ pre ++ post, level.1 ≠ price := fun level hl hp => hn.left (hp ▸ List.mem_map.mpr ⟨level, hl, rfl⟩)
    have hq : q = q' := by
      cases List.mem_append.mp hm
      case inl hm => exact absurd rfl (hne _ (List.mem_append_left _ hm))
      case inr hm =>
        cases hm
        case head    => rfl
        case tail hm => exact absurd rfl (hne _ (List.mem_append_right _ hm))
    subst hq
    exact ⟨pre, post, rfl, hne, hf, hs, hr⟩

theorem executeOrderImpl_taken (hn : (levels.map Prod.fst).Nodup) (hm : (price, q) ∈ levels) :
    levels.executeOrderImpl price qty = .ok (levels.taken price q qty) := by
  obtain ⟨pre, post, rfl, hne, hf, hs, hr⟩ := found_of_mem hn hm
  rw [taken_split hne]
  simp only [executeOrderImpl, hf, hs, hr]
  split <;> rfl

theorem replaceOrder_taken [DecidableRel comp] (hn : (levels.map Prod.fst).Nodup) (hm : (price, q) ∈ levels)
    (hp : price ≠ newPrice) :
    levels.replaceOrder comp price qty newPrice newQty =
      .ok ((levels.taken price q qty).addOrder comp newPrice newQty) := by
  obtain ⟨pre, post, rfl, hne, hf, hs, hr⟩ := found_of_mem hn hm
  rw [taken_split hne]
  simp only [replaceOrder, hf, if_neg hp, hs, hr]

-- Below zero the difference is a large number again, which is not `<= 0`.
theorem deleteOrder_taken_iff (hn : (levels.map Prod.fst).Nodup) (hm : (price, q) ∈ levels) :
    levels.deleteOrder price qty = .ok (levels.taken price q qty) ↔ qty ≤ q := by
  obtain ⟨pre, post, rfl, hne, hf, hs, hr⟩ := found_of_mem hn hm
  have hz : q - qty ≤ 0 ↔ q = qty := by
    rw [UInt64.le_zero_iff, UInt64.sub_eq_iff_eq_add, UInt64.zero_add]
  have hlen {level : Int32 × UInt64} : pre ++ level :: post ≠ pre ++ post :=
    fun he => List.cons_ne_self level post (List.append_cancel_left he)
  rw [taken_split hne]
  simp only [deleteOrder, hf, if_true, hs, hr, hz]
  cases UInt64.lt_or_le q qty
  case inl hlt =>
    have hgt : ¬q > qty := UInt64.not_lt.mpr (UInt64.le_of_lt hlt)
    rw [if_neg (UInt64.ne_of_lt hlt), if_neg hgt, Except.ok.injEq]
    exact iff_of_false hlen (UInt64.not_le.mpr hlt)
  case inr hle =>
    rw [iff_true_right hle]
    cases Decidable.em (q = qty)
    case inl he =>
      subst he
      rw [if_pos rfl, if_neg (UInt64.lt_irrefl q)]
    case inr hne =>
      have hgt : q > qty := UInt64.lt_of_le_of_ne hle (Ne.symm hne)
      rw [if_neg hne, if_pos hgt]

end Removals

section Ordered

-- Whatever the quantities are, the operations keep the order of the levels.

variable [IsStrictTotalOrder Int32 comp] {levels' : Levels} {oldPrice : Int32} {oldQty : UInt64}

theorem addOrder_ordered [DecidableRel comp] (h : levels.KeyOrdered comp) :
    (levels.addOrder comp price qty).KeyOrdered comp := by
  have key {levels'} (ha : levels.Added comp price qty levels') : levels'.KeyOrdered comp := by
    cases ha
    case new pre post he ha habove hbelow =>
      subst he
      exact List.KeyOrdered.insert_of_stop h ha habove hbelow
    case more pre q post he =>
      subst he
      exact List.KeyOrdered.set_value h
  exact key added

omit [IsStrictTotalOrder Int32 comp] in
theorem store_ordered {iter : ℕ} (h : levels.KeyOrdered comp) : (levels.store iter qty).KeyOrdered comp := by
  have hk : (levels.store iter qty).map Prod.fst = levels.map Prod.fst := by
    refine List.ext_getElem (by simp [store]) fun i _ _ => ?_
    simp only [store, List.getElem_map, List.getElem_modify]
    split <;> rfl
  have h : (levels.map Prod.fst).Pairwise comp := List.pairwise_map.mpr h
  exact List.pairwise_map.mp (hk ▸ h)

omit [IsStrictTotalOrder Int32 comp] in
theorem eraseLevel_ordered {iter : ℕ} (h : levels.KeyOrdered comp) : (levels.eraseLevel iter).KeyOrdered comp :=
  h.sublist (List.eraseIdx_sublist ..)

omit [IsStrictTotalOrder Int32 comp] in
theorem executeOrderImpl_ordered (h : levels.KeyOrdered comp) (he : levels.executeOrderImpl price qty = .ok levels') :
    levels'.KeyOrdered comp := by
  simp only [executeOrderImpl] at he
  split at he
  case h_2 => cases he
  case h_1 =>
    split at he
    case isTrue  => cases he; exact store_ordered h
    case isFalse => cases he; exact eraseLevel_ordered h

omit [IsStrictTotalOrder Int32 comp] in
theorem deleteOrder_ordered (h : levels.KeyOrdered comp) (he : levels.deleteOrder price qty = .ok levels') :
    levels'.KeyOrdered comp := by
  simp only [deleteOrder] at he
  split at he
  case h_2 => cases he
  case h_1 =>
    split at he
    case isFalse => cases he
    case isTrue =>
      split at he
      case isTrue  => cases he; exact eraseLevel_ordered (store_ordered h)
      case isFalse => cases he; exact store_ordered h

theorem replaceOrder_ordered [DecidableRel comp] (h : levels.KeyOrdered comp)
    (he : levels.replaceOrder comp price qty newPrice newQty = .ok levels') : levels'.KeyOrdered comp := by
  simp only [replaceOrder] at he
  split at he
  case h_2 => cases he
  case h_1 =>
    split at he
    case isTrue => cases he; exact store_ordered h
    case isFalse =>
      cases he
      refine addOrder_ordered ?_
      split
      case isTrue  => exact store_ordered h
      case isFalse => exact eraseLevel_ordered h

end Ordered

end Levels

namespace L2Orderbook

variable {ob ob' : L2Orderbook} {side : UInt8} {price : Int32} {q qty : UInt64} {c : SideClass} {l : Levels}

-- Each side is ordered by price, so that a price has one level at most.
def Ordered (ob : L2Orderbook) : Prop :=
  ∀ c, (ob.levels c).KeyOrdered c.comp

theorem Ordered.setLevels (h : ob.Ordered) (hl : l.KeyOrdered c.comp) : (ob.setLevels c l).Ordered :=
  forall_setLevels (P := fun c' l => l.KeyOrdered c'.comp) hl fun c' _ => h c'

theorem Ordered.nodup (h : ob.Ordered) : ((ob.levels c).map Prod.fst).Nodup :=
  (h c).keys_nodup

theorem Op.apply_ordered {op : Op} (h : ob.Ordered) (he : op.apply ob = .ok ob') : ob'.Ordered := by
  cases op
  case add side price qty =>
    cases he
    rw [addOrder_eq]
    exact h.setLevels <| Levels.addOrder_ordered (h _)
  case delete side price qty =>
    rw [apply, deleteOrder_eq] at he
    obtain ⟨_, hl, he⟩ := Run.bind_ok he
    cases he
    exact h.setLevels <| Levels.deleteOrder_ordered (h _) hl
  case execute side price qty =>
    rw [apply, executeOrder_eq] at he
    obtain ⟨_, hl, he⟩ := Run.bind_ok he
    cases he
    exact h.setLevels <| Levels.executeOrderImpl_ordered (h _) hl
  case replace side oldPrice oldQty newPrice newQty =>
    rw [apply, replaceOrder_eq] at he
    obtain ⟨_, hl, he⟩ := Run.bind_ok he
    cases he
    exact h.setLevels <| Levels.replaceOrder_ordered (h _) hl

theorem run_ordered {ops : List Op} (h : Run.exec Op.apply {} ops = .ok ob) : ob.Ordered := by
  refine Run.exec_induction (I := fun _ ob => ob.Ordered) ?init ?next h
  case init => exact fun c => by simpa using List.KeyOrdered.nil
  case next => exact fun _ h he => Op.apply_ordered h he

-- The book with less at the price, or without the level.
def taken (ob : L2Orderbook) (side : UInt8) (price : Int32) (q qty : UInt64) : L2Orderbook :=
  ob.setLevels (sideClass side) ((ob.levels (sideClass side)).taken price q qty)

theorem setLevels_self : (ob.setLevels c l).levels c = l := by
  rw [setLevels_levels, Function.update_self]

theorem setLevels_setLevels {l' : Levels} : (ob.setLevels c l).setLevels c l' = ob.setLevels c l' := by
  cases c <;> rfl

-- The first two always leave what they should, and the third does so unless it takes too much.
theorem removals_agree_iff (hn : ((ob.levels (sideClass side)).map Prod.fst).Nodup)
    (hm : (price, q) ∈ ob.levels (sideClass side)) :
    ob.executeOrder side price qty = .ok (ob.taken side price q qty) ∧
      (∀ newPrice newQty, price ≠ newPrice →
        ob.replaceOrder side price qty newPrice newQty = .ok ((ob.taken side price q qty).addOrder side newPrice newQty)) ∧
      (∀ level ∈ (ob.taken side price q qty).levels (sideClass side),
        level ∈ ob.levels (sideClass side) ∨ level.1 = price ∧ level.2 ≤ q) ∧
      (ob.deleteOrder side price qty = .ok (ob.taken side price q qty) ↔ qty ≤ q) := by
  refine ⟨?execute, fun newPrice newQty hp => ?replace, fun level hl => ?grows, ?delete⟩
  case execute =>
    rw [executeOrder_eq, Levels.executeOrderImpl_taken hn hm]
    rfl
  case replace =>
    rw [replaceOrder_eq, Levels.replaceOrder_taken hn hm hp, addOrder_eq, taken, setLevels_self, setLevels_setLevels]
    rfl
  case grows =>
    rw [taken, setLevels_self] at hl
    exact Levels.taken_le hl
  case delete =>
    rw [← Levels.deleteOrder_taken_iff hn hm, deleteOrder_eq]
    constructor
    case mp =>
      intro h
      obtain ⟨l, hl, he⟩ := Run.bind_ok h
      have he := congrArg (·.levels (sideClass side)) (Except.ok.inj he)
      simp only [taken, setLevels_self] at he
      exact he ▸ hl
    case mpr =>
      intro h
      rw [h]
      rfl

section Samples

-- A single bid of 5 at 10.
def sampleBook : L2Orderbook where
  bids := [(10, 5)]

-- Three bids, and an ask.
def deepBook : L2Orderbook where
  bids := [(9, 7), (10, 5), (11, 2)]
  asks := [(12, 4)]

theorem removals_agree_iff_sample :
    deepBook.executeOrder 66 10 3 = .ok { deepBook with bids := [(9, 7), (10, 2), (11, 2)] } ∧
      deepBook.replaceOrder 66 10 5 9 1 = .ok { deepBook with bids := [(9, 8), (11, 2)] } ∧
      deepBook.deleteOrder 66 10 5 = .ok { deepBook with bids := [(9, 7), (11, 2)] } ∧
      deepBook.deleteOrder 66 10 6 ≠ .ok { deepBook with bids := [(9, 7), (11, 2)] } := by
  have hm : (10, 5) ∈ deepBook.levels (sideClass 66) := by decide
  have h qty : deepBook.executeOrder 66 10 qty = _ ∧ _ := removals_agree_iff (by decide) hm
  have ⟨he, _, _, _⟩ := h 3
  have ⟨_, hr, _, hd⟩ := h 5
  have ⟨_, _, _, hn⟩ := h 6
  exact ⟨he, hr 9 1 (by decide), hd.mpr (by decide), fun hq => absurd (hn.mp hq) (by decide)⟩

-- Six of the five are taken away, and almost 2^64 of them are left.
theorem deleteOrder_grows :
    sampleBook.executeOrder 66 10 6 = .ok {} ∧
      sampleBook.deleteOrder 66 10 6 = .ok { bids := [(10, 18446744073709551615)] } := by
  decide +kernel

end Samples

end L2Orderbook
