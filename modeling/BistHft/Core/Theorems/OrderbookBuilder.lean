import BistHft.Core.OrderbookBuilder
import BistHft.Core.Theorems.L2Orderbook

-- The order map and the price levels are two stores that each handler updates on its own. What one
-- handler does to both of them is stated here in terms of quantities at places.

-- Orderbook, side and price.
abbrev Place := UInt32 × SideClass × Int32

-- The total quantity at each place.
abbrev Books := UInt32 → L2Orderbook.Ref

namespace Books

def modify (d : Books) (x : Place) (f : Depth → Depth) : Books :=
  Function.update d x.1 <| Function.update (d x.1) x.2.1 <| f (d x.1 x.2.1)

def add (d : Books) (x : Place) (qty : ℕ) : Books :=
  d.modify x (·.add x.2.2 qty)

def remove (d : Books) (x : Place) (qty : ℕ) : Books :=
  d.modify x (·.remove x.2.2 qty)

variable {d : Books} {x : Place} {qty : ℕ} {id : UInt32} {c : SideClass} {p : Int32}

theorem modify_apply {f : Depth → Depth} :
    d.modify x f id c p = if (x.1, x.2.1) = (id, c) then f (d id c) p else d id c p := by
  have ⟨id', c', p'⟩ := x
  by_cases hi : id = id'
  case neg => simp [modify, hi, Ne.symm hi]
  case pos =>
    subst hi
    by_cases hc : c = c'
    case neg => simp [modify, hc, Ne.symm hc]
    case pos => simp [modify, hc]

theorem add_apply : d.add x qty id c p = d id c p + if x = (id, c, p) then qty else 0 := by
  have ⟨id', c', p'⟩ := x
  rw [add, modify_apply]
  split
  case isTrue h  => cases h; simp [Depth.add_apply]
  case isFalse h => rw [if_neg fun he => h (by cases he; rfl), Nat.add_zero]

theorem remove_apply : d.remove x qty id c p = d id c p - if x = (id, c, p) then qty else 0 := by
  have ⟨id', c', p'⟩ := x
  rw [remove, modify_apply]
  split
  case isTrue h  => cases h; simp [Depth.remove_apply]
  case isFalse h => rw [if_neg fun he => h (by cases he; rfl), Nat.sub_zero]

theorem modify_self {f : Depth → Depth} :
    d.modify x f x.1 = Function.update (d x.1) x.2.1 (f <| d x.1 x.2.1) :=
  Function.update_self ..

end Books

namespace ItchOrder

def place (o : ItchOrder) : Place :=
  (o.orderbookId, sideClass o.side, o.price)

def key (o : ItchOrder) : OrderKey :=
  (o.orderbookId, o.id, o.side)

end ItchOrder

-- The fields of a message in host byte order.

namespace AddOrder

def qty (m : AddOrder) : UInt64 :=
  be64toh m.quantity

def order (m : AddOrder) : ItchOrder where
  id          := be64toh m.orderId
  price       := (be32toh m.price.toUInt32).toInt32
  leftQty     := m.qty
  side        := m.side
  orderbookId := be32toh m.orderbookId

def key (m : AddOrder) : OrderKey :=
  m.order.key

def place (m : AddOrder) : Place :=
  m.order.place

end AddOrder

namespace OrderExecuted

def key (m : OrderExecuted) : OrderKey :=
  (be32toh m.orderbookId, be64toh m.orderId, m.side)

def qty (m : OrderExecuted) : UInt64 :=
  be64toh m.quantity

end OrderExecuted

def OrderDelete.key (m : OrderDelete) : OrderKey :=
  (be32toh m.orderbookId, be64toh m.orderId, m.side)

namespace OrderbookBuilder

variable {b b' : OrderbookBuilder} {d : Books} {k : OrderKey} {o : ItchOrder} {id : UInt32}
variable {c : SideClass} {p : Int32}

def levels (b : OrderbookBuilder) (id : UInt32) (c : SideClass) : Levels :=
  (b.orderbook id).levels c

-- The quantity of the live orders at a place.
def openQty (b : OrderbookBuilder) : Books :=
  fun id c p => b.orderMap.weightAt ItchOrder.place (·.leftQty.toNat) (id, c, p)

@[simp]
theorem openQty_empty : openQty {} = 0 :=
  rfl

theorem orderbook_insert {ob : L2Orderbook} {orderMap} {i : UInt32} :
    orderbook { orderbookMap := b.orderbookMap.insert id ob, orderMap } i =
      if i = id then ob else b.orderbook i := by
  by_cases h : i = id
  case pos => subst h; simp [orderbook]
  case neg => simp [orderbook, h, Finmap.lookup_insert_of_ne]

theorem addOrder_eq {m : AddOrder} :
    b.addOrder m = {
      orderbookMap := b.orderbookMap.insert m.place.1 <|
        (b.orderbook m.place.1).setLevels m.place.2.1 <|
          (b.levels m.place.1 m.place.2.1).addOrder m.place.2.1.comp m.place.2.2 m.qty
      orderMap := b.orderMap.insert m.key m.order
    } := by
  simp only [addOrder, L2Orderbook.addOrder_eq]
  rfl

-- The levels hold at least what the live orders have left, which is positive for each of them.
structure Sound (b : OrderbookBuilder) (d : Books) : Prop where
  refines : ∀ id, (b.orderbook id).Refines (d id)
  orders  : b.orderMap.Every fun k o => o.key = k ∧ 0 < o.leftQty
  covers  : ∀ id c p, b.openQty id c p ≤ d id c p

-- What is left of an order after a part of it has been taken.
def settle (b : OrderbookBuilder) (o : ItchOrder) (qty : UInt64) : Finmap fun _ : OrderKey => ItchOrder :=
  if o.leftQty - qty = 0 then
    b.orderMap.erase o.key
  else
    b.orderMap.insert o.key { o with leftQty := o.leftQty - qty }

theorem openQty_addOrder {m : AddOrder} (hl : b.orderMap.lookup m.key = none) :
    (b.addOrder m).openQty = b.openQty.add m.place m.qty.toNat := by
  funext id c p
  have hw := Finmap.weightAt_insert ItchOrder.place (·.leftQty.toNat) (m := b.orderMap) (k := m.key)
    (v := m.order) (i := (id, c, p))
  rw [Finmap.erase_of_lookup_none hl, Nat.add_comm] at hw
  rw [Books.add_apply]
  exact hw

theorem openQty_settle {qty : UInt64} (hl : b.orderMap.lookup o.key = some o) (hq : qty ≤ o.leftQty)
    (hb : b'.orderMap = b.settle o qty) : b'.openQty = b.openQty.remove o.place qty.toNat := by
  funext id c p
  have hw := Finmap.weightAt_of_lookup ItchOrder.place (·.leftQty.toNat) (i := (id, c, p)) hl
  have hs : (o.leftQty - qty).toNat = o.leftQty.toNat - qty.toNat := UInt64.toNat_sub_of_le _ _ hq
  have hq : qty.toNat ≤ o.leftQty.toNat := hq
  rw [Books.remove_apply, openQty, hb]
  unfold settle
  split
  case isTrue hz =>
    have hz : o.leftQty.toNat - qty.toNat = 0 := hs.symm.trans (congrArg UInt64.toNat hz)
    simp only [openQty, hw]
    split <;> omega
  case isFalse =>
    have hp : ({ o with leftQty := o.leftQty - qty } : ItchOrder).place = o.place := rfl
    simp only [openQty, hw, Finmap.weightAt_insert, hp, hs]
    split <;> omega

section Handlers

variable {e : OrderExecuted} {r : OrderDelete}

theorem executeOrder_of_none (hl : b.orderMap.lookup e.key = none) : b.executeOrder e = .ok b := by
  rw [OrderExecuted.key] at hl
  simp only [executeOrder, hl]

theorem deleteOrder_of_none (hl : b.orderMap.lookup r.key = none) : b.deleteOrder r = .ok b := by
  rw [OrderDelete.key] at hl
  simp only [deleteOrder, hl]

theorem executeOrder_of_some (hl : b.orderMap.lookup e.key = some o) (hk : o.key = e.key) :
    b.executeOrder e =
      (b.levels o.orderbookId (sideClass o.side)).executeOrderImpl o.price e.qty >>= fun levels =>
        .ok {
          orderbookMap := b.orderbookMap.insert o.orderbookId <|
            (b.orderbook o.orderbookId).setLevels (sideClass o.side) levels
          orderMap := b.settle o e.qty
        } := by
  have hi : be32toh e.orderbookId = o.orderbookId := congrArg (·.1) hk.symm
  have hs : e.side = o.side := congrArg (·.2.2) hk.symm
  unfold executeOrder settle
  rw [hk]
  simp only [OrderExecuted.key, hi, hs] at hl ⊢
  simp only [hl, L2Orderbook.executeOrder_eq, bind_assoc]
  rfl

theorem deleteOrder_of_some (hl : b.orderMap.lookup r.key = some o) (hk : o.key = r.key) :
    b.deleteOrder r =
      (b.levels o.orderbookId (sideClass o.side)).deleteOrder o.price o.leftQty >>= fun levels =>
        .ok {
          orderbookMap := b.orderbookMap.insert o.orderbookId <|
            (b.orderbook o.orderbookId).setLevels (sideClass o.side) levels
          orderMap := b.settle o o.leftQty
        } := by
  have hi : be32toh r.orderbookId = o.orderbookId := congrArg (·.1) hk.symm
  have hs : r.side = o.side := congrArg (·.2.2) hk.symm
  unfold deleteOrder settle
  rw [hk]
  simp only [OrderDelete.key, hi, hs] at hl ⊢
  simp only [hl, L2Orderbook.deleteOrder_eq, bind_assoc, UInt64.sub_self]
  rfl

end Handlers

namespace Sound

variable {m : AddOrder} {e : OrderExecuted} {r : OrderDelete} {qty : UInt64}
variable {ob : L2Orderbook} {orderMap : Finmap fun _ : OrderKey => ItchOrder} {x : Place} {f : Depth → Depth}

theorem empty : Sound {} 0 where
  refines _    := .empty
  orders _ _ h := by simp at h
  covers _ _ _ := Nat.le_refl 0

-- A live order has its quantity in the level.
theorem leftQty_le (h : b.Sound d) (hl : b.orderMap.lookup k = some o) :
    o.leftQty.toNat ≤ d o.orderbookId (sideClass o.side) o.price :=
  (Finmap.le_weightAt _ (·.leftQty.toNat) hl).trans (h.covers ..)

theorem depth_pos (h : b.Sound d) (hl : b.orderMap.lookup k = some o) :
    0 < d o.orderbookId (sideClass o.side) o.price :=
  Nat.lt_of_lt_of_le (h.orders k o hl).right (h.leftQty_le hl)

theorem refines_insert (h : b.Sound d) (id : UInt32)
    (hob : ob.Refines (Function.update (d x.1) x.2.1 (f <| d x.1 x.2.1))) :
    (orderbook { orderbookMap := b.orderbookMap.insert x.1 ob, orderMap } id).Refines (d.modify x f id) := by
  rw [orderbook_insert]
  split
  case isTrue hi  => rwa [hi, Books.modify_self]
  case isFalse hi => simpa [Books.modify, hi] using h.refines id

theorem addOrder (h : b.Sound d) (hq : 0 < m.qty)
    (hb : d m.place.1 m.place.2.1 m.place.2.2 + m.qty.toNat < 2 ^ 64) :
    (b.addOrder m).Sound (d.add m.place m.qty.toNat) where
  refines id := by
    have hl := (h.refines m.place.1 m.place.2.1).addOrder hq hb
    rw [addOrder_eq]
    exact h.refines_insert id <| (h.refines m.place.1).setLevels hl
  orders := h.orders.insert ⟨rfl, hq⟩
  covers id c p := by
    have hc := h.covers id c p
    have hw : (b.addOrder m).openQty id c p ≤
        (if m.place = (id, c, p) then m.qty.toNat else 0) + b.openQty id c p :=
      Finmap.weightAt_insert_le ..
    rw [Books.add_apply]
    omega

-- The live order gives up `qty` in both stores at once.
theorem take (h : b.Sound d) (hl : b.orderMap.lookup o.key = some o) (hq : qty ≤ o.leftQty)
    (hob : ob.Refines <| Function.update (d o.orderbookId) (sideClass o.side)
      ((d o.orderbookId (sideClass o.side)).remove o.price qty.toNat)) :
    Sound ⟨b.orderbookMap.insert o.orderbookId ob, b.settle o qty⟩ (d.remove o.place qty.toNat) where
  refines id := h.refines_insert (x := o.place) id hob
  orders := by
    unfold settle
    split
    case isTrue => exact h.orders.erase
    case isFalse hz =>
      have hz : o.leftQty - qty ≠ 0 := hz
      exact h.orders.insert ⟨rfl, UInt64.pos_iff_ne_zero.mpr hz⟩
  covers id c p := by
    have hc := h.covers id c p
    rw [openQty_settle hl hq rfl, Books.remove_apply, Books.remove_apply]
    omega

theorem executeOrder (h : b.Sound d) (hl : b.orderMap.lookup e.key = some o) (hq : e.qty ≤ o.leftQty) :
    ∃ orderbookMap, b.executeOrder e = .ok { orderbookMap, orderMap := b.settle o e.qty } ∧
      Sound { orderbookMap, orderMap := b.settle o e.qty } (d.remove o.place e.qty.toNat) := by
  have hk : o.key = e.key := (h.orders _ _ hl).left
  have hd := h.refines o.orderbookId
  have ⟨_, he, hr⟩ := (hd (sideClass o.side)).executeOrderImpl (h.depth_pos hl)
    (Nat.le_trans hq (h.leftQty_le hl))
  have heq := executeOrder_of_some hl hk
  rw [levels, he] at heq
  exact ⟨_, heq, h.take (hk ▸ hl) hq (hd.setLevels hr)⟩

theorem deleteOrder (h : b.Sound d) (hl : b.orderMap.lookup r.key = some o) :
    ∃ orderbookMap, b.deleteOrder r = .ok { orderbookMap, orderMap := b.settle o o.leftQty } ∧
      Sound { orderbookMap, orderMap := b.settle o o.leftQty } (d.remove o.place o.leftQty.toNat) := by
  have hk : o.key = r.key := (h.orders _ _ hl).left
  have hd := h.refines o.orderbookId
  have ⟨_, he, hr⟩ := (hd (sideClass o.side)).deleteOrder (h.depth_pos hl) (h.leftQty_le hl)
  have heq := deleteOrder_of_some hl hk
  rw [levels, he] at heq
  exact ⟨_, heq, h.take (hk ▸ hl) (UInt64.le_refl _) (hd.setLevels hr)⟩

end Sound

end OrderbookBuilder
