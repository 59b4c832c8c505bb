import BistHft.Core.Theorems.Feed
import BistHft.Lib.Trace

-- A call reads and writes one key of the order map and one side of one orderbook. Calls for
-- different books or sides do not depend on each other.

namespace L2Orderbook

variable {ob : L2Orderbook} {c c' : SideClass} {l l' : Levels}

theorem setLevels_comm (h : c ≠ c') :
    (ob.setLevels c l).setLevels c' l' = (ob.setLevels c' l').setLevels c l := by
  cases c <;> cases c' <;> first | rfl | contradiction

end L2Orderbook

-- Orderbook and side of the call.
def Call.site (call : Call) : UInt32 × SideClass :=
  (call.key.1, sideClass call.key.2.2)

namespace OrderbookBuilder

variable {b b' : OrderbookBuilder} {k k' : OrderKey} {o o' : Option ItchOrder} {l l' : Levels}
variable {call : Call} {calls calls' : List Call}

def side (b : OrderbookBuilder) (k : OrderKey) : Levels :=
  b.levels k.1 (sideClass k.2.2)

-- The order under the key becomes `o` and the side of its book becomes `l`.
def write (b : OrderbookBuilder) (k : OrderKey) (o : Option ItchOrder) (l : Levels) : OrderbookBuilder where
  orderbookMap := b.orderbookMap.insert k.1 <| (b.orderbook k.1).setLevels (sideClass k.2.2) l
  orderMap     := o.elim (b.orderMap.erase k) (b.orderMap.insert k ·)

def writeOpt (b : OrderbookBuilder) (k : OrderKey) : Option (Option ItchOrder × Levels) → OrderbookBuilder
  | none        => b
  | some (o, l) => b.write k o l

-- What a call makes of the order that it names and of the side of its book, if it changes them.
def onSite (o : Option ItchOrder) (l : Levels) : Call → Except Fault (Option (Option ItchOrder × Levels))
  | .addOrder m     => .ok <| some (m.order, l.addOrder (sideClass m.side).comp m.order.price m.qty)
  | .executeOrder m =>
    match o with
    | none    => .ok none
    | some it => l.executeOrderImpl it.price m.qty >>= fun l =>
      .ok <| some (if it.leftQty - m.qty = 0 then none else some { it with leftQty := it.leftQty - m.qty }, l)
  | .deleteOrder _  =>
    match o with
    | none    => .ok none
    | some it => l.deleteOrder it.price it.leftQty >>= fun l => .ok <| some (none, l)

theorem apply_eq :
    call.apply b = onSite (b.orderMap.lookup call.key) (b.side call.key) call >>= fun w =>
      .ok <| b.writeOpt call.key w := by
  cases call
  case addOrder m => exact congrArg Except.ok addOrder_eq
  case executeOrder m =>
    cases hl : b.orderMap.lookup m.key
    case none => rw [Call.apply, executeOrder_of_none hl, Call.key, hl]; rfl
    case some it =>
      simp only [Call.apply, Call.key, hl, onSite, bind_assoc]
      rw [OrderExecuted.key] at hl
      simp only [executeOrder, hl, L2Orderbook.executeOrder_eq, bind_assoc]
      refine bind_congr fun l => congrArg Except.ok ?_
      cases Decidable.em (it.leftQty - m.qty = 0)
      case inl hz =>
        have hz' : it.leftQty - be64toh m.quantity = 0 := hz
        simp only [hz, hz', if_true]
        rfl
      case inr hz =>
        have hz' : ¬it.leftQty - be64toh m.quantity = 0 := hz
        simp only [hz, hz', if_false]
        rfl
  case deleteOrder m =>
    cases hl : b.orderMap.lookup m.key
    case none => rw [Call.apply, deleteOrder_of_none hl, Call.key, hl]; rfl
    case some it =>
      simp only [Call.apply, Call.key, hl, onSite, bind_assoc]
      rw [OrderDelete.key] at hl
      simp only [deleteOrder, hl, L2Orderbook.deleteOrder_eq, bind_assoc]
      rfl

theorem write_lookup {j : OrderKey} :
    (b.write k o l).orderMap.lookup j = if j = k then o else b.orderMap.lookup j := by
  cases o
  case none   => exact Finmap.lookup_erase_apply
  case some o => exact Finmap.lookup_insert_apply

theorem write_orderbook {i : UInt32} :
    (b.write k o l).orderbook i =
      if i = k.1 then (b.orderbook k.1).setLevels (sideClass k.2.2) l else b.orderbook i :=
  orderbook_insert

-- A write is not seen at another site.
theorem write_frame (h : (k.1, sideClass k.2.2) ≠ (k'.1, sideClass k'.2.2)) :
    (b.write k o l).orderMap.lookup k' = b.orderMap.lookup k' ∧ (b.write k o l).side k' = b.side k' := by
  have hk : k' ≠ k := fun he => h (he ▸ rfl)
  refine ⟨write_lookup.trans (if_neg hk), ?_⟩
  rw [side, levels, write_orderbook]
  split
  case isFalse => rfl
  case isTrue hi =>
    have hc : sideClass k'.2.2 ≠ sideClass k.2.2 := fun hc => h (by rw [hi, hc])
    simp [hc, hi, side, levels]

theorem write_comm (h : (k.1, sideClass k.2.2) ≠ (k'.1, sideClass k'.2.2)) :
    (b.write k o l).write k' o' l' = (b.write k' o' l').write k o l := by
  have hm : ((b.write k o l).write k' o' l').orderMap = ((b.write k' o' l').write k o l).orderMap := by
    apply Finmap.ext_lookup
    intro j
    simp only [write_lookup]
    split
    case isTrue hj  => rw [if_neg fun he => h (by rw [← he, hj])]
    case isFalse hj => rfl
  have hb : ((b.write k o l).write k' o' l').orderbookMap = ((b.write k' o' l').write k o l).orderbookMap := by
    rw [write, write_orderbook, write, write, write_orderbook, write]
    cases Decidable.em (k.1 = k'.1)
    case inl hi =>
      have hc : sideClass k.2.2 ≠ sideClass k'.2.2 := fun hc => h (by rw [hi, hc])
      simp only [hi, if_true, Finmap.insert_insert, L2Orderbook.setLevels_comm hc]
    case inr hi =>
      simp only [hi, Ne.symm hi, if_false]
      exact Finmap.insert_insert_of_ne _ hi
  exact congrArg₂ OrderbookBuilder.mk hb hm

variable {w w' : Option (Option ItchOrder × Levels)}

theorem writeOpt_frame (h : (k.1, sideClass k.2.2) ≠ (k'.1, sideClass k'.2.2)) :
    (b.writeOpt k w).orderMap.lookup k' = b.orderMap.lookup k' ∧ (b.writeOpt k w).side k' = b.side k' := by
  cases w
  case none   => exact ⟨rfl, rfl⟩
  case some w => exact write_frame h

theorem writeOpt_comm (h : (k.1, sideClass k.2.2) ≠ (k'.1, sideClass k'.2.2)) :
    (b.writeOpt k w).writeOpt k' w' = (b.writeOpt k' w').writeOpt k w := by
  cases w
  case none => rfl
  case some w =>
    cases w'
    case none    => rfl
    case some w' => exact write_comm h

theorem apply_ok_iff :
    call.apply b = .ok b' ↔
      ∃ w, onSite (b.orderMap.lookup call.key) (b.side call.key) call = .ok w ∧ b.writeOpt call.key w = b' := by
  rw [apply_eq]
  cases onSite (b.orderMap.lookup call.key) (b.side call.key) call
  case error => exact ⟨(nomatch ·), fun ⟨_, h, _⟩ => nomatch h⟩
  case ok w  => exact ⟨fun h => ⟨w, rfl, Except.ok.inj h⟩, fun ⟨_, h, h'⟩ => by cases h; rw [← h']; rfl⟩

theorem apply_independent : Run.Independent Call.apply Call.site := by
  intro b b₁ t x y hs hx hy
  have ⟨w, hwx, hb₁⟩ := apply_ok_iff.mp hx
  have ⟨w', hwy, ht⟩ := apply_ok_iff.mp hy
  subst hb₁ ht
  have ⟨hl, hv⟩ := writeOpt_frame (b := b) (w := w) hs
  have ⟨hl', hv'⟩ := writeOpt_frame (b := b) (w := w') hs.symm
  exact ⟨_, apply_ok_iff.mpr ⟨w', hl ▸ hv ▸ hwy, rfl⟩,
    apply_ok_iff.mpr ⟨w, hl'.symm ▸ hv'.symm ▸ hwx, (writeOpt_comm hs).symm⟩⟩

-- Only the order of the calls within each side of each book matters.
theorem run_eq_of_sites (hs : ∀ site, calls.filter (·.site = site) = calls'.filter (·.site = site))
    (h : run calls = .ok b) : run calls' = .ok b :=
  apply_independent.exec_eq hs h

end OrderbookBuilder
