import BistHft.Core.Theorems.Removal

-- The operations of the book on arbitrary arguments: prices without a level, quantities of zero, and
-- quantities that leave the range of the counter. A side is then no more and no less than a partial map.

abbrev Prices := Int32 → Option UInt64

namespace Prices

variable (f : Prices)

def addOrder (price : Int32) (qty : UInt64) : Prices :=
  Function.update f price <| some <| (f price).elim qty (· + qty)

def deleteOrder (price : Int32) (qty : UInt64) : Except Fault Prices :=
  match f price with
  | none   => .error .exit42
  | some q => .ok <| Function.update f price <| if q = qty then none else some (q - qty)

def executeOrder (price : Int32) (qty : UInt64) : Except Fault Prices :=
  match f price with
  | none   => .error .derefRend
  | some q => .ok <| Function.update f price <| if q > qty then some (q - qty) else none

def replaceOrder (oldPrice : Int32) (oldQty : UInt64) (newPrice : Int32) (newQty : UInt64) : Except Fault Prices :=
  match f oldPrice with
  | none   => .error .derefRend
  | some q =>
    if oldPrice = newPrice then
      .ok <| Function.update f oldPrice <| some (q - oldQty + newQty)
    else
      .ok <| addOrder (Function.update f oldPrice <| if q > oldQty then some (q - oldQty) else none) newPrice newQty

variable {f} {oldPrice newPrice : Int32} {oldQty newQty : UInt64}

theorem addOrder_of_ne (h : oldPrice ≠ newPrice) : f.addOrder newPrice newQty oldPrice = f oldPrice :=
  Function.update_of_ne h ..

theorem replaceOrder_eq_iff :
    f.replaceOrder oldPrice oldQty newPrice newQty =
      (f.deleteOrder oldPrice oldQty >>= fun f => .ok <| f.addOrder newPrice newQty) ↔
    ∃ q, f oldPrice = some q ∧ (oldPrice = newPrice ∨ oldQty ≤ q) := by
  rw [replaceOrder, deleteOrder]
  cases f oldPrice
  case none => exact iff_of_false nofun nofun
  case some q =>
    simp only [Option.some.injEq, exists_eq_left']
    split
    case isTrue hp =>
      subst hp
      refine iff_of_true (congrArg Except.ok ?_) (.inl rfl)
      rw [addOrder, Function.update_self, Function.update_idem]
      split
      case isTrue hq  => simp [hq]
      case isFalse hq => rfl
    case isFalse hp =>
      rw [or_iff_right hp]
      constructor
      case mp =>
        intro he
        have he := congrFun (Except.ok.inj he) oldPrice
        rw [addOrder_of_ne hp, addOrder_of_ne hp, Function.update_self, Function.update_self] at he
        by_contra hq
        have hlt : q < oldQty := UInt64.not_le.mp hq
        rw [if_neg (UInt64.lt_asymm hlt), if_neg (UInt64.ne_of_lt hlt)] at he
        contradiction
      case mpr =>
        intro hq
        cases Decidable.em (q = oldQty)
        case inl he => rw [if_pos he, if_neg (he ▸ UInt64.lt_irrefl q)]; rfl
        case inr he => rw [if_neg he, if_pos (UInt64.lt_of_le_of_ne hq (Ne.symm he))]; rfl

end Prices

namespace Levels

variable {comp : Int32 → Int32 → Prop} [IsStrictTotalOrder Int32 comp] {levels : Levels} {f : Prices}
variable {pre post : Levels} {price : Int32} {q qty : UInt64}

-- The side spells out the map.
abbrev Spells (comp : Int32 → Int32 → Prop) (levels : Levels) (f : Prices) : Prop :=
  levels.Enumerates comp f

namespace Spells

theorem of_added {levels' : Levels} (h : levels.Spells comp f) (ha : levels.Added comp price qty levels') :
    levels'.Spells comp (f.addOrder price qty) := by
  cases ha
  case new pre post he ha habove hbelow =>
    subst he
    rw [Prices.addOrder, h.absent ha]
    exact h.insert (h.ordered.insert_of_stop ha habove hbelow) (h.absent ha)
  case more pre q post he =>
    subst he
    rw [Prices.addOrder, h.value]
    exact h.store

theorem addOrder [DecidableRel comp] (h : levels.Spells comp f) :
    (levels.addOrder comp price qty).Spells comp (f.addOrder price qty) :=
  h.of_added added

theorem take (h : Spells comp (pre ++ (price, q) :: post) f) :
    Spells comp (if q > qty then pre ++ (price, q - qty) :: post else pre ++ post)
      (Function.update f price <| if q > qty then some (q - qty) else none) := by
  split
  case isTrue  => exact h.store
  case isFalse => exact h.erase

theorem executeOrderImpl (h : levels.Spells comp f) :
    Run.Alike (Spells comp) (levels.executeOrderImpl price qty) (f.executeOrder price qty) := by
  rw [Levels.executeOrderImpl, Prices.executeOrder]
  cases levels.search price
  case missing hm ha =>
    simp only [hm, h.absent ha]
    exact .error _
  case found pre q post he hf hs hr =>
    subst he
    simp only [hf, h.value, hs, hr]
    have ht : Spells comp (if q > qty then _ else _) _ := h.take
    split
    case isTrue hq  => rw [if_pos hq, if_pos hq] at ht; exact .ok ht
    case isFalse hq => rw [if_neg hq, if_neg hq] at ht; exact .ok ht

theorem deleteOrder (h : levels.Spells comp f) :
    Run.Alike (Spells comp) (levels.deleteOrder price qty) (f.deleteOrder price qty) := by
  rw [Levels.deleteOrder, Prices.deleteOrder]
  cases levels.search price
  case missing hm ha =>
    simp only [hm, h.absent ha]
    exact .error _
  case found pre q post he hf hs hr =>
    subst he
    have hz : q - qty ≤ 0 ↔ q = qty := by
      rw [UInt64.le_zero_iff, UInt64.sub_eq_iff_eq_add, UInt64.zero_add]
    simp only [hf, h.value, if_true, hs, hr, hz]
    split
    case isTrue  => exact .ok h.erase
    case isFalse => exact .ok h.store

theorem replaceOrder [DecidableRel comp] {newPrice : Int32} {newQty : UInt64} (h : levels.Spells comp f) :
    Run.Alike (Spells comp) (levels.replaceOrder comp price qty newPrice newQty)
      (f.replaceOrder price qty newPrice newQty) := by
  rw [Levels.replaceOrder, Prices.replaceOrder]
  cases levels.search price
  case missing hm ha =>
    simp only [hm, h.absent ha]
    exact .error _
  case found pre q post he hf hs hr =>
    subst he
    simp only [hf, h.value, hs, hr]
    split
    case isTrue hp => exact .ok h.store
    case isFalse   => exact .ok h.take.addOrder

end Spells

end Levels

namespace L2Orderbook

variable {ob ob' : L2Orderbook} {f f' : SideClass → Prices} {c : SideClass} {l : Levels} {g : Prices} {op : Op}
variable {ops ops' : List Op} {side : UInt8} {oldPrice newPrice : Int32} {oldQty newQty : UInt64}

-- Two maps, and each operation is for the one that its side byte selects.
def Op.onPrices (f : SideClass → Prices) (op : Op) : Except Fault (SideClass → Prices) :=
  match op with
  | add side price qty                             =>
    .ok <| Function.update f (sideClass side) <| (f <| sideClass side).addOrder price qty
  | delete side price qty                          =>
    (f <| sideClass side).deleteOrder price qty >>= (.ok <| Function.update f (sideClass side) ·)
  | execute side price qty                         =>
    (f <| sideClass side).executeOrder price qty >>= (.ok <| Function.update f (sideClass side) ·)
  | replace side oldPrice oldQty newPrice newQty =>
    (f <| sideClass side).replaceOrder oldPrice oldQty newPrice newQty >>=
      (.ok <| Function.update f (sideClass side) ·)

def Spells (ob : L2Orderbook) (f : SideClass → Prices) : Prop :=
  ∀ c, (ob.levels c).Spells c.comp (f c)

namespace Spells

theorem empty : Spells {} fun _ _ => none :=
  fun c => by simpa using List.Enumerates.nil

theorem setLevels (h : ob.Spells f) (hl : l.Spells c.comp g) : (ob.setLevels c l).Spells (Function.update f c g) := by
  refine forall_setLevels (P := fun c' l => l.Spells c'.comp (Function.update f c g c')) ?_ fun c' hc => ?_
  case refine_1 => rwa [Function.update_self]
  case refine_2 => rw [Function.update_of_ne hc]; exact h c'

theorem eq_iff (h : ob.Spells f) (h' : ob'.Spells f') : ob = ob' ↔ f = f' where
  mp he  := funext fun c => ((h c).eq_iff (h' c)).mp <| congrArg (·.levels c) he
  mpr he := congrArg₂ mk (((h .bid).eq_iff (h' .bid)).mpr <| congrFun he _) (((h .ask).eq_iff (h' .ask)).mpr <| congrFun he _)

theorem apply (h : ob.Spells f) : Run.Alike Spells (op.apply ob) (op.onPrices f) := by
  cases op
  case add side price qty =>
    rw [Op.apply, addOrder_eq]
    exact .ok <| h.setLevels (h _).addOrder
  case delete side price qty =>
    rw [Op.apply, deleteOrder_eq]
    exact (h _).deleteOrder.bind fun hl => .ok <| h.setLevels hl
  case execute side price qty =>
    rw [Op.apply, executeOrder_eq]
    exact (h _).executeOrderImpl.bind fun hl => .ok <| h.setLevels hl
  case replace side oldPrice oldQty newPrice newQty =>
    rw [Op.apply, replaceOrder_eq]
    exact (h _).replaceOrder.bind fun hl => .ok <| h.setLevels hl

end Spells

theorem exec_alike : Run.Alike Spells (Run.exec Op.apply {} ops) (Run.exec Op.onPrices (fun _ _ => none) ops) :=
  Run.Alike.exec Spells.apply Spells.empty

-- Every sequence of operations does to the book what it does to the two maps, and ends with the same fault
-- where it ends with a fault. So the maps decide whether two sequences come to the same.
theorem ops_spell_prices :
    Run.Alike Spells (Run.exec Op.apply {} ops) (Run.exec Op.onPrices (fun _ _ => none) ops) ∧
      (Run.exec Op.apply {} ops = Run.exec Op.apply {} ops' ↔
        Run.exec Op.onPrices (fun _ _ => none) ops = Run.exec Op.onPrices (fun _ _ => none) ops') :=
  ⟨exec_alike, Run.Alike.eq_iff Spells.eq_iff exec_alike exec_alike⟩

theorem exists_spells (h : Run.exec Op.apply {} ops = .ok ob) : ∃ f, ob.Spells f := by
  have ha := h ▸ exec_alike
  have ⟨f, _, hf⟩ := ha.of_ok
  exact ⟨f, hf⟩

theorem setLevels_injective : (ob.setLevels c).Injective := by
  intro l l' h
  have hl : (ob.setLevels c l).levels c = l := setLevels_self
  rw [← hl, h, setLevels_self]

-- A replacement is a removal and an addition, unless the level is not there or has less than is taken away.
theorem replaceOrder_two_steps_iff (h : Run.exec Op.apply {} ops = .ok ob) :
    ob.replaceOrder side oldPrice oldQty newPrice newQty =
      (ob.deleteOrder side oldPrice oldQty >>= fun ob => .ok <| ob.addOrder side newPrice newQty) ↔
    ∃ q, (oldPrice, q) ∈ ob.levels (sideClass side) ∧ (oldPrice = newPrice ∨ oldQty ≤ q) := by
  obtain ⟨f, hf⟩ := exists_spells h
  have hs := hf (sideClass side)
  have hr : (ob.deleteOrder side oldPrice oldQty >>= fun ob => .ok <| ob.addOrder side newPrice newQty) =
      ((ob.levels (sideClass side)).deleteOrder oldPrice oldQty >>=
        fun l => .ok <| l.addOrder (sideClass side).comp newPrice newQty) >>= (.ok <| ob.setLevels (sideClass side) ·) := by
    rw [deleteOrder_eq, bind_assoc, bind_assoc]
    refine bind_congr fun l => congrArg Except.ok ?_
    rw [addOrder_eq, setLevels_self, setLevels_setLevels]
  rw [replaceOrder_eq, hr, Run.bind_inj setLevels_injective,
    Run.Alike.eq_iff List.Enumerates.eq_iff hs.replaceOrder (hs.deleteOrder.bind fun h => .ok h.addOrder)]
  simp only [Prices.replaceOrder_eq_iff, hs.mem_iff]

theorem replaceOrder_two_steps_iff_sample :
    sampleBook.replaceOrder 66 10 5 11 3 =
      (sampleBook.deleteOrder 66 10 5 >>= fun ob => .ok <| ob.addOrder 66 11 3) := by
  have h : Run.exec Op.apply {} [.add 66 10 5] = .ok sampleBook := by decide +kernel
  exact (replaceOrder_two_steps_iff h).mpr ⟨5, by decide, .inr (by decide)⟩

end L2Orderbook
