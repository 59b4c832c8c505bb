import BistHft.Core.Theorems.OrderToken

-- The records, as they are found through the tokens of the client's own orders.

namespace OrderManager

variable {m : OrderManager} {token t t' : OrderToken} {f : Order → Order} {i : Fin ordersSize}
variable {quantity tradedQty : UInt64} {orderbookId : UInt32} {price : Int32} {side : UInt8}

-- The record that a token leads to.
def order? (m : OrderManager) (token : OrderToken) : Option Order :=
  (getOrder token).map m.orders

section GetOrder

theorem getOrder_some (h : getOrder token = some i) :
    parseOrderTokenDecimal token = .ofNat i.val := by
  simp only [getOrder, Option.dite_none_right_eq_some, Option.some.injEq] at h
  have ⟨_, h⟩ := h
  rw [← h, UInt64.ofNat_toNat]

theorem order?_of_inRange (h : (parseOrderTokenDecimal token).toNat < ordersSize) :
    ∃ order, m.order? token = some order := by
  simp [order?, getOrder, h]

-- Different tokens lead to different records.
theorem getOrder_inj (h : t.IsDecimal) (h' : t'.IsDecimal) (ht : getOrder t = some i)
    (ht' : getOrder t' = some i) : t = t' :=
  h.eq_of_parse_eq h' <| (getOrder_some ht).trans (getOrder_some ht').symm

end GetOrder

section Modify

theorem modify_of_none (h : getOrder token = none) : m.modify token f = m := by
  rw [modify, h]

theorem modify_of_some (h : getOrder token = some i) :
    m.modify token f = { m with orders := Function.update m.orders i (f <| m.orders i) } := by
  rw [modify, h]

theorem modify_id : m.modify token (fun order => order) = m := by
  cases h : getOrder token
  case none   => rw [modify_of_none h]
  case some i => rw [modify_of_some h, Function.update_eq_self]

theorem orders_modify :
    (m.modify token f).orders i = if getOrder token = some i then f (m.orders i) else m.orders i := by
  cases h : getOrder token
  case none => rw [modify_of_none h, if_neg (Option.some_ne_none i).symm]
  case some j =>
    rw [modify_of_some h]
    simp only [Function.update_apply, Option.some.injEq, eq_comm (a := i)]
    split
    case isTrue hi  => rw [hi]
    case isFalse hi => rfl

theorem order?_modify_self : (m.modify token f).order? token = (m.order? token).map f := by
  cases h : getOrder token
  case none   => simp [order?, h]
  case some i => simp [order?, modify_of_some h, h]

theorem order?_modify_other (h : t.IsDecimal) (h' : t'.IsDecimal) (hn : t' ≠ t) :
    (m.modify t f).order? t' = m.order? t' := by
  cases hi : getOrder t
  case none => rw [modify_of_none hi]
  case some i =>
    cases hi' : getOrder t'
    case none => simp [order?, hi']
    case some i' =>
      have hne : i' ≠ i := fun he => hn <| getOrder_inj h' h hi' (he ▸ hi)
      simp [order?, modify_of_some hi, hi', hne]

@[simp]
theorem token_modify : (m.modify token f).token = m.token := by
  cases h : getOrder token
  case none => rw [modify_of_none h]
  case some => rw [modify_of_some h]

@[simp]
theorem originalToReplacementTokens_modify :
    (m.modify token f).originalToReplacementTokens = m.originalToReplacementTokens := by
  cases h : getOrder token
  case none => rw [modify_of_none h]
  case some => rw [modify_of_some h]

end Modify

section Requests

@[simp]
theorem order?_nextToken : m.nextToken.order? t = m.order? t :=
  rfl

@[simp]
theorem order?_pendingReplace : (m.pendingReplace token t').order? t = m.order? t :=
  rfl

end Requests

end OrderManager
