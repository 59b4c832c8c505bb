import BistHft.Core.Theorems.Feed

-- An order that is added for a second time: it replaces the one in the order map, and adds to the levels.

namespace Levels

variable {comp : Int32 → Int32 → Prop} {levels levels' : Levels} {price p : Int32} {qty : UInt64}

-- The quantity that the levels have at a price.
def qtyAt (levels : Levels) (price : Int32) : ℕ :=
  levels.weightAt Prod.fst (·.2.toNat) price

-- The sum of the level may wrap.
theorem Added.qtyAt (h : levels.Added comp price qty levels') :
    ∃ w : Fin 2, levels'.qtyAt p + w * 2 ^ 64 = levels.qtyAt p + if price = p then qty.toNat else 0 := by
  cases h
  case new pre post he _ _ _ =>
    subst he
    refine ⟨0, ?_⟩
    simp only [Levels.qtyAt, List.weightAt_append, List.weightAt_cons, Fin.val_zero]
    omega
  case more pre q post he =>
    subst he
    have hq := q.toNat_lt
    have hqty := qty.toNat_lt
    simp only [Levels.qtyAt, List.weightAt_append, List.weightAt_cons, UInt64.toNat_add]
    split
    case isFalse => exact ⟨0, by simp⟩
    case isTrue =>
      cases Nat.lt_or_ge (q.toNat + qty.toNat) (2 ^ 64)
      case inl hlt => exact ⟨0, by rw [Nat.mod_eq_of_lt hlt]; simp; omega⟩
      case inr hge => exact ⟨1, by simp; omega⟩

end Levels

namespace OrderbookBuilder

variable {b : OrderbookBuilder} {m : AddOrder} {o : ItchOrder}

-- The quantity of the levels at a place, where no level is no quantity.
def levelQty (b : OrderbookBuilder) : Books :=
  fun id c p => (b.levels id c).qtyAt p

theorem levelQty_addOrder (b : OrderbookBuilder) (m : AddOrder) (id : UInt32) (c : SideClass) (p : Int32) :
    ∃ w : Fin 2, (b.addOrder m).levelQty id c p + w * 2 ^ 64 =
      b.levelQty id c p + if m.place = (id, c, p) then m.qty.toNat else 0 := by
  rw [addOrder_eq, levelQty, levels, orderbook_insert]
  split
  case isFalse hi =>
    have hp : m.place ≠ (id, c, p) := fun he => hi (congrArg Prod.fst he).symm
    exact ⟨0, by rw [if_neg hp]; rfl⟩
  case isTrue hi =>
    subst hi
    rw [L2Orderbook.setLevels_levels]
    by_cases hc : c = m.place.2.1
    case neg =>
      have hp : m.place ≠ (m.place.1, c, p) := fun he => hc (congrArg (·.2.1) he).symm
      exact ⟨0, by rw [Function.update_of_ne hc, if_neg hp]; rfl⟩
    case pos =>
      subst hc
      have hp : m.place = (m.place.1, m.place.2.1, p) ↔ m.place.2.2 = p := by
        simp [Prod.ext_iff]
      simp only [Function.update_self, hp]
      exact Levels.added.qtyAt

-- What the map had under the key leaves its place.
theorem openQty_addOrder_of_some (hl : b.orderMap.lookup m.key = some o) (id : UInt32) (c : SideClass) (p : Int32) :
    (b.addOrder m).openQty id c p + (if o.place = (id, c, p) then o.leftQty.toNat else 0) =
      b.openQty id c p + if m.place = (id, c, p) then m.qty.toNat else 0 := by
  have hw := Finmap.weightAt_of_lookup ItchOrder.place (·.leftQty.toNat) (i := (id, c, p)) hl
  have hi := Finmap.weightAt_insert ItchOrder.place (·.leftQty.toNat) (m := b.orderMap) (k := m.key)
    (v := m.order) (i := (id, c, p))
  have ho : (b.addOrder m).openQty id c p =
    (if m.place = (id, c, p) then m.qty.toNat else 0) + (b.orderMap.erase m.key).weightAt ItchOrder.place (·.leftQty.toNat) (id, c, p) := hi
  rw [ho, openQty, hw]
  omega

-- Where nothing leaves the map, both stores get the same.
theorem levelQty_eq_openQty (h : b.levelQty = b.openQty) (ho : (b.addOrder m).openQty = b.openQty.add m.place m.qty.toNat)
    (hb : ∀ id c p, (b.addOrder m).openQty id c p < 2 ^ 64) : (b.addOrder m).levelQty = (b.addOrder m).openQty := by
  funext id c p
  have ⟨w, hw⟩ := levelQty_addOrder b m id c p
  have hlt := hb id c p
  rw [h, ← Books.add_apply, ← ho] at hw
  omega

-- Where an order with something left is replaced, its quantity stays in the levels for good.
theorem addOrder_balanced_iff (h : b.levelQty = b.openQty) (hb : ∀ id c p, (b.addOrder m).openQty id c p < 2 ^ 64) :
    (b.addOrder m).levelQty = (b.addOrder m).openQty ↔ ∀ o, b.orderMap.lookup m.key = some o → o.leftQty = 0 := by
  constructor
  case mp =>
    intro he o hl
    have ⟨w, hw⟩ := levelQty_addOrder b m o.place.1 o.place.2.1 o.place.2.2
    have ho := openQty_addOrder_of_some hl o.place.1 o.place.2.1 o.place.2.2
    have hlt := o.leftQty.toNat_lt
    rw [if_pos rfl] at ho
    rw [he, h] at hw
    exact UInt64.toNat_inj.mp (by rw [UInt64.toNat_zero]; omega)
  case mpr =>
    intro hz
    refine levelQty_eq_openQty h ?_ hb
    cases hl : b.orderMap.lookup m.key
    case none => exact openQty_addOrder hl
    case some o =>
      funext id c p
      have ho := openQty_addOrder_of_some hl id c p
      rw [hz o hl, UInt64.toNat_zero, ite_self] at ho
      exact ho.trans Books.add_apply.symm

section Samples

theorem levelQty_empty : levelQty {} = openQty {} := by
  funext id c p
  cases c <;> rfl

theorem openQty_sampleAdd : (addOrder {} (sampleAdd 10)).openQty = Books.add 0 (sampleAdd 10).place 10 :=
  openQty_addOrder rfl

theorem openQty_sampleAdd_lt (id : UInt32) (c : SideClass) (p : Int32) :
    (addOrder {} (sampleAdd 10)).openQty id c p < 2 ^ 64 := by
  rw [openQty_sampleAdd, Books.add_apply]
  change 0 + _ < _
  split <;> decide

-- The builder with one live order, of 10 at 1000.
def sampleBuilder : OrderbookBuilder :=
  addOrder {} (sampleAdd 10)

theorem sampleBuilder_balanced : sampleBuilder.levelQty = sampleBuilder.openQty :=
  levelQty_eq_openQty levelQty_empty openQty_sampleAdd openQty_sampleAdd_lt

theorem sampleBuilder_lookup : sampleBuilder.orderMap.lookup (sampleAdd 10).key = some (sampleAdd 10).order :=
  Finmap.lookup_insert ..

theorem sampleBuilder_lookup_other : sampleBuilder.orderMap.lookup otherAdd.key = none := by
  decide +kernel

theorem openQty_again_lt (id : UInt32) (c : SideClass) (p : Int32) :
    (sampleBuilder.addOrder (sampleAdd 10)).openQty id c p < 2 ^ 64 := by
  have ho := openQty_addOrder_of_some sampleBuilder_lookup id c p
  have hq : (sampleAdd 10).order.leftQty = (sampleAdd 10).qty := rfl
  rw [hq] at ho
  exact Nat.add_right_cancel ho ▸ openQty_sampleAdd_lt id c p

theorem openQty_other_lt (id : UInt32) (c : SideClass) (p : Int32) :
    (sampleBuilder.addOrder otherAdd).openQty id c p < 2 ^ 64 := by
  rw [openQty_addOrder sampleBuilder_lookup_other, Books.add_apply, sampleBuilder, openQty_sampleAdd, Books.add_apply]
  change 0 + _ + _ < _
  split <;> split <;> decide

-- Another order goes to the same level, and the order that is there already is added to it once more.
theorem addOrder_balanced_iff_live :
    (sampleBuilder.addOrder otherAdd).levelQty = (sampleBuilder.addOrder otherAdd).openQty ∧
      (sampleBuilder.addOrder (sampleAdd 10)).levelQty ≠ (sampleBuilder.addOrder (sampleAdd 10)).openQty := by
  constructor
  case left =>
    refine (addOrder_balanced_iff sampleBuilder_balanced openQty_other_lt).mpr fun o ho => ?_
    cases sampleBuilder_lookup_other.symm.trans ho
  case right =>
    intro he
    have hz := (addOrder_balanced_iff sampleBuilder_balanced openQty_again_lt).mp he _ sampleBuilder_lookup
    contradiction

-- The same message a second time: one live order of 10, and a level of 20.
theorem repeated_add_leaves_phantom :
    ∃ b : OrderbookBuilder, b.levelQty = b.openQty ∧ 0 < (sampleAdd 10).qty ∧
      (∀ id c p, (b.addOrder (sampleAdd 10)).openQty id c p < 2 ^ 64) ∧
      (b.addOrder (sampleAdd 10)).openQty 1 .bid 1000 = 10 ∧ (b.addOrder (sampleAdd 10)).levelQty 1 .bid 1000 = 20 :=
  ⟨sampleBuilder, sampleBuilder_balanced, by decide, openQty_again_lt, by decide +kernel, by decide +kernel⟩

end Samples

end OrderbookBuilder
