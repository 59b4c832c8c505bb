import BistHft.Client.Theorems.Responses
import BistHft.Lib.Run

-- The quantities of the client's own orders, whose tokens change when they are replaced.

-- An order as the exchange knows it. The latest of the tokens that have replaced the first one is in
-- front.
structure OwnOrder where
  entered      : OrderToken
  replacements : List OrderToken := []
  accepted     : ℕ
  traded       : ℕ := 0
  deriving DecidableEq

namespace OwnOrder

def tokens (o : OwnOrder) : List OrderToken :=
  o.replacements ++ [o.entered]

-- The token by which the exchange names the order now.
def current (o : OwnOrder) : OrderToken :=
  o.replacements.headD o.entered

def remaining (o : OwnOrder) : ℕ :=
  o.accepted - o.traded

def trade (token : OrderToken) (quantity : ℕ) (o : OwnOrder) : OwnOrder :=
  if o.current = token then { o with traded := o.traded + quantity } else o

def replace (token replacement : OrderToken) (o : OwnOrder) : OwnOrder :=
  if o.current = token then { o with replacements := replacement :: o.replacements } else o

-- What a response says about the orders.
def afterResponse (orders : List OwnOrder) : Response → List OwnOrder
  | .accepted m => orders ++ [{ entered := m.orderToken, accepted := (be64toh m.quantity).toNat }]
  | .executed m => orders.map <| trade m.orderToken (be64toh m.tradedQuantity).toNat
  | .replaced m => orders.map <| replace m.previousOrderToken m.replacementOrderToken
  | .canceled _ => orders
  | .rejected _ => orders

end OwnOrder

-- The client, the tokens that its enter orders have been sent with, and the orders at the exchange.
structure Session where
  accessor : BistMarketAccessor
  entered  : List OrderToken := []
  orders   : List OwnOrder := []

-- The next token leads to a record.
def OrderManager.Issues (m : OrderManager) : Prop :=
  (parseOrderTokenDecimal m.token.next).toNat < ordersSize

instance {m : OrderManager} : Decidable m.Issues :=
  inferInstanceAs (Decidable (_ < _))

-- The tokens that orders have been asked to be replaced with.
def OrderManager.replacementTokens (m : OrderManager) : List OrderToken :=
  m.originalToReplacementTokens.map Prod.snd

namespace Session

inductive Action
  | enter (orderbookId : UInt32) (side : UInt8) (qty : UInt32) (price : Int32)
  | replace (token : OrderToken) (price : Int32)
  | response (d : Delivery)

def Action.Responds (P : Response → Prop) : Action → Prop
  | response d => P d.response
  | _          => True

def step (s : Session) : Action → Except Fault Session
  | .enter orderbookId side qty price =>
    let accessor := s.accessor.sendEnterOrder orderbookId side qty price
    .ok { s with accessor, entered := s.entered ++ [accessor.orderManager.token] }
  | .replace token price => .ok { s with accessor := s.accessor.sendReplaceOrder token price }
  | .response d          =>
    .ok { s with
      accessor := TcpClient.handleMessage s.accessor d.data d.length
      orders   := OwnOrder.afterResponse s.orders d.response
    }

-- What the exchange can answer: an enter order is accepted once, an order trades at most what remains
-- of it, and a request to replace one of the tokens of an order is confirmed once.
def Expects (s : Session) : Response → Prop
  | .accepted m => m.orderToken ∈ s.entered ∧ (∀ o ∈ s.orders, o.entered ≠ m.orderToken) ∧
    s.accessor.orderManager.Issues
  | .executed m => ∃ o ∈ s.orders, o.current = m.orderToken ∧
    o.traded + (be64toh m.tradedQuantity).toNat ≤ o.accepted
  | .replaced m => (∃ o ∈ s.orders, o.current = m.previousOrderToken ∧ ∃ token ∈ o.tokens,
      (token, m.replacementOrderToken) ∈ s.accessor.orderManager.originalToReplacementTokens) ∧
    ∀ o ∈ s.orders, m.replacementOrderToken ∉ o.replacements
  | .canceled _ => False
  | .rejected _ => False

instance {s : Session} : {r : Response} → Decidable (s.Expects r)
  | .accepted _               => inferInstanceAs (Decidable (_ ∧ _ ∧ _ < _))
  | .executed _               => inferInstanceAs (Decidable (∃ _ ∈ _, _))
  | .replaced _               => inferInstanceAs (Decidable ((∃ _ ∈ _, _ ∧ ∃ _ ∈ _, _) ∧ _))
  | .canceled _ | .rejected _ => inferInstanceAs (Decidable False)

def Allows (s : Session) : Action → Prop
  | .enter .. | .replace .. => s.accessor.orderManager.Issues
  | .response d             => s.Expects d.response

instance {s : Session} : {a : Action} → Decidable (s.Allows a)
  | .enter .. | .replace .. => inferInstanceAs (Decidable s.accessor.orderManager.Issues)
  | .response d             => inferInstanceAs (Decidable (s.Expects d.response))

-- The record at the current token of each order holds what remains of the order.
def Tracked (s : Session) : Prop :=
  ∀ o ∈ s.orders, ∃ order, s.accessor.orderManager.order? o.current = some order ∧
    order.quantity.toNat = o.remaining

-- An execution subtracts no more than the record holds.
def NoWrap (s : Session) : Response → Prop
  | .executed m => ∀ order, s.accessor.orderManager.order? m.orderToken = some order →
    be64toh m.tradedQuantity ≤ order.quantity
  | _           => True

-- A token is replaced only when nothing remains of its order.
def Exhausted (s : Session) : Response → Prop
  | .replaced m => ∀ o ∈ s.orders, o.current = m.previousOrderToken → o.remaining = 0
  | _           => True

end Session

namespace OwnOrder

variable {o : OwnOrder} {t r : OrderToken} {q : ℕ}

theorem current_mem_tokens : o.current ∈ o.tokens := by
  cases h : o.replacements
  case nil  => simp [current, tokens, h]
  case cons => simp [current, tokens, h]

theorem trade_of_current (h : o.current = t) : o.trade t q = { o with traded := o.traded + q } :=
  if_pos h

theorem trade_of_ne (h : o.current ≠ t) : o.trade t q = o :=
  if_neg h

theorem replace_of_current (h : o.current = t) :
    o.replace t r = { o with replacements := r :: o.replacements } :=
  if_pos h

theorem replace_of_ne (h : o.current ≠ t) : o.replace t r = o :=
  if_neg h

@[simp]
theorem entered_trade : (o.trade t q).entered = o.entered := by
  unfold trade
  split <;> rfl

@[simp]
theorem replacements_trade : (o.trade t q).replacements = o.replacements := by
  unfold trade
  split <;> rfl

@[simp]
theorem tokens_trade : (o.trade t q).tokens = o.tokens := by
  simp [tokens]

@[simp]
theorem current_trade : (o.trade t q).current = o.current := by
  simp [current]

@[simp]
theorem entered_replace : (o.replace t r).entered = o.entered := by
  unfold replace
  split <;> rfl

theorem mem_replacements_replace {t' : OrderToken} (h : t' ∈ (o.replace t r).replacements) :
    t' = r ∨ t' ∈ o.replacements := by
  cases Decidable.em (o.current = t)
  case inl hc => simpa [replace_of_current hc] using h
  case inr hc => exact .inr <| replace_of_ne hc ▸ h

theorem tokens_replace {t' : OrderToken} (h : t' ∈ o.tokens) : t' ∈ (o.replace t r).tokens := by
  cases Decidable.em (o.current = t)
  case inl hc => exact replace_of_current hc ▸ List.mem_cons_of_mem _ h
  case inr hc => exact (replace_of_ne hc).symm ▸ h

end OwnOrder

-- What the client and the exchange agree on about tokens: a token is used for one purpose only, and
-- the record of a token that no order has had is empty.
structure Consistent (m : OrderManager) (entered : List OrderToken) (orders : List OwnOrder) : Prop where
  decimal      : m.token.IsDecimal
  small        : OrderToken.value m.token.val < 10 ^ 13
  issued       : ∀ t ∈ entered ++ m.replacementTokens, t.IsDecimal ∧
    (parseOrderTokenDecimal t).toNat < ordersSize ∧ OrderToken.value t.val ≤ OrderToken.value m.token.val
  disjoint     : ∀ t ∈ entered, t ∉ m.replacementTokens
  enteredOf    : ∀ o ∈ orders, o.entered ∈ entered
  replacedWith : ∀ o ∈ orders, ∀ t ∈ o.replacements, t ∈ m.replacementTokens
  untouched    : ∀ t : OrderToken, t.IsDecimal → (∀ o ∈ orders, t ∉ o.tokens) →
    ∀ order, m.order? t = some order → order.quantity = 0

namespace Consistent

variable {m : OrderManager} {entered : List OrderToken} {orders : List OwnOrder} {t r : OrderToken}

theorem small_next (h : Consistent m entered orders) (hi : m.Issues) :
    OrderToken.value m.token.next.val < 10 ^ 13 :=
  have hv : OrderToken.value m.token.next.val < ordersSize := h.decimal.next.parse_toNat ▸ hi
  Nat.lt_trans hv (by decide)

theorem issued_next (h : Consistent m entered orders) (hi : m.Issues)
    (ht : t ∈ entered ++ m.replacementTokens ∨ t = m.token.next) :
    t.IsDecimal ∧ (parseOrderTokenDecimal t).toNat < ordersSize ∧
      OrderToken.value t.val ≤ OrderToken.value m.token.next.val := by
  cases ht
  case inl ht =>
    have ⟨hd, hr, hv⟩ := h.issued t ht
    exact ⟨hd, hr, Nat.le_of_lt <| Nat.lt_of_le_of_lt hv <| h.decimal.value_lt_next h.small⟩
  case inr ht =>
    subst ht
    exact ⟨h.decimal.next, hi, Nat.le_refl _⟩

-- The next token has not been issued before.
theorem next_notMem (h : Consistent m entered orders) : m.token.next ∉ entered ++ m.replacementTokens :=
  fun hm => Nat.not_le_of_lt (h.decimal.value_lt_next h.small) (h.issued _ hm).right.right

theorem enter (h : Consistent m entered orders) (hi : m.Issues) :
    Consistent m.nextToken (entered ++ [m.token.next]) orders where
  decimal        := h.decimal.next
  small          := h.small_next hi
  issued t ht    := by
    apply h.issued_next hi
    simp only [List.mem_append, List.mem_singleton] at ht ⊢
    exact or_right_comm.mp ht
  disjoint t ht  := by
    have hn := h.next_notMem
    rw [List.mem_append, not_or] at hn
    rw [List.mem_append, List.mem_singleton] at ht
    exact ht.elim (h.disjoint t) (· ▸ hn.right)
  enteredOf o ho := List.mem_append_left _ <| h.enteredOf o ho
  replacedWith   := h.replacedWith
  untouched      := h.untouched

theorem replacementTokens_pendingReplace :
    (m.pendingReplace t r).replacementTokens = m.replacementTokens ++ [r] := by
  simp [OrderManager.replacementTokens, OrderManager.pendingReplace]

theorem replace (h : Consistent m entered orders) (hi : m.Issues) :
    Consistent (m.nextToken.pendingReplace t m.token.next) entered orders where
  decimal             := h.decimal.next
  small               := h.small_next hi
  issued t' ht        := by
    apply h.issued_next hi
    rwa [replacementTokens_pendingReplace, ← List.append_assoc, List.mem_append, List.mem_singleton] at ht
  disjoint t' ht      := by
    have hn := h.next_notMem
    rw [List.mem_append, not_or] at hn
    rw [replacementTokens_pendingReplace, List.mem_append, List.mem_singleton, not_or]
    exact ⟨h.disjoint t' ht, fun he => hn.left <| he ▸ ht⟩
  enteredOf           := h.enteredOf
  replacedWith o ho t ht := by
    rw [replacementTokens_pendingReplace]
    exact List.mem_append_left _ <| h.replacedWith o ho t ht
  untouched           := h.untouched

-- The tokens of an order are decimal, and an order that is entered with another token or replaced with
-- other tokens does not have this one.

theorem decimal_entered (h : Consistent m entered orders) (ht : t ∈ entered) : t.IsDecimal :=
  (h.issued t <| List.mem_append_left _ ht).left

theorem decimal_replacement (h : Consistent m entered orders) (ht : t ∈ m.replacementTokens) : t.IsDecimal :=
  (h.issued t <| List.mem_append_right _ ht).left

theorem decimal_of_mem {o : OwnOrder} (h : Consistent m entered orders) (ho : o ∈ orders) (ht : t ∈ o.tokens) :
    t.IsDecimal := by
  cases List.mem_append.mp ht
  case inl ht => exact h.decimal_replacement <| h.replacedWith o ho t ht
  case inr ht => exact h.decimal_entered <| List.mem_singleton.mp ht ▸ h.enteredOf o ho

theorem notMem_of_entered {o : OwnOrder} (h : Consistent m entered orders) (ho : o ∈ orders) (ht : t ∈ entered)
    (hn : o.entered ≠ t) : t ∉ o.tokens := by
  intro hm
  cases List.mem_append.mp hm
  case inl hm => exact h.disjoint t ht <| h.replacedWith o ho t hm
  case inr hm => exact hn (List.mem_singleton.mp hm).symm

theorem notMem_of_replacement {o : OwnOrder} (h : Consistent m entered orders) (ho : o ∈ orders)
    (ht : t ∈ m.replacementTokens) (hn : t ∉ o.replacements) : t ∉ o.tokens := by
  intro hm
  cases List.mem_append.mp hm
  case inl hm => exact hn hm
  case inr hm => exact h.disjoint t (List.mem_singleton.mp hm ▸ h.enteredOf o ho) ht

section Responses

-- A change of the record at a token that an order has.
theorem modify {f : Order → Order} (h : Consistent m entered orders) (ht : ∃ o ∈ orders, t ∈ o.tokens) :
    Consistent (m.modify t f) entered orders := by
  have ⟨o, ho, ht⟩ := ht
  have htd := h.decimal_of_mem ho ht
  cases hi : OrderManager.getOrder t
  case none => exact OrderManager.modify_of_none hi ▸ h
  case some i =>
    have hu t' (ht' : t'.IsDecimal) (hn : ∀ o ∈ orders, t' ∉ o.tokens) :
        (m.modify t f).order? t' = m.order? t' :=
      OrderManager.order?_modify_other htd ht' fun he => hn o ho (he ▸ ht)
    rw [OrderManager.modify_of_some hi] at hu ⊢
    exact { h with untouched := fun t' ht' hn order he => h.untouched t' ht' hn order (hu t' ht' hn ▸ he) }

-- The orders change, but no token is taken away from one of them.
theorem setOrders {orders' : List OwnOrder} (h : Consistent m entered orders)
    (he : ∀ o ∈ orders', o.entered ∈ entered) (hr : ∀ o ∈ orders', ∀ t ∈ o.replacements, t ∈ m.replacementTokens)
    (ht : ∀ o ∈ orders, ∃ o' ∈ orders', ∀ t ∈ o.tokens, t ∈ o'.tokens) : Consistent m entered orders' where
  decimal                := h.decimal
  small                  := h.small
  issued                 := h.issued
  disjoint               := h.disjoint
  enteredOf              := he
  replacedWith           := hr
  untouched t htd hn     := by
    refine h.untouched t htd fun o ho hm => ?_
    have ⟨o', ho', ht⟩ := ht o ho
    exact hn o' ho' (ht t hm)

theorem accept {f : Order → Order} {q : ℕ} (h : Consistent m entered orders) (ht : t ∈ entered) :
    Consistent (m.modify t f) entered (orders ++ [{ entered := t, accepted := q }]) := by
  refine (h.setOrders ?_ ?_ fun o ho => ⟨o, List.mem_append_left _ ho, fun _ => id⟩).modify
    ⟨_, List.mem_append_right _ <| List.mem_singleton_self _, by simp [OwnOrder.tokens]⟩
  · exact List.forall_mem_append.mpr ⟨h.enteredOf, by simpa using ht⟩
  · exact List.forall_mem_append.mpr ⟨h.replacedWith, by simp⟩

theorem execute {f : Order → Order} {q : ℕ} (h : Consistent m entered orders)
    (ho : ∃ o ∈ orders, o.current = t) :
    Consistent (m.modify t f) entered (orders.map <| OwnOrder.trade t q) := by
  have ⟨o, ho, hc⟩ := ho
  refine (h.setOrders ?_ ?_ fun o ho => ⟨_, List.mem_map_of_mem ho, by simp⟩).modify
    ⟨_, List.mem_map_of_mem ho, by simpa [← hc] using OwnOrder.current_mem_tokens⟩
  · simpa using h.enteredOf
  · simpa using h.replacedWith

theorem confirm (h : Consistent m entered orders) (hr : r ∈ m.replacementTokens) :
    Consistent m entered (orders.map <| OwnOrder.replace t r) := by
  refine h.setOrders ?_ ?_ fun o ho => ⟨_, List.mem_map_of_mem ho, fun _ => OwnOrder.tokens_replace⟩
  · simpa using h.enteredOf
  · intro o ho t' ht'
    have ⟨o, ho, he⟩ := List.mem_map.mp ho
    cases OwnOrder.mem_replacements_replace (he ▸ ht')
    case inl he => exact he ▸ hr
    case inr hm => exact h.replacedWith o ho t' hm

-- The record at a token that has been asked for but not been confirmed is empty.
theorem empty_of_replacement (h : Consistent m entered orders) (hr : r ∈ m.replacementTokens)
    (hn : ∀ o ∈ orders, r ∉ o.replacements) : ∃ order, m.order? r = some order ∧ order.quantity = 0 := by
  have ⟨hd, hi, _⟩ := h.issued r <| List.mem_append_right _ hr
  have ⟨order, ho⟩ := OrderManager.order?_of_inRange (m := m) hi
  exact ⟨order, ho, h.untouched r hd (fun o ho => h.notMem_of_replacement ho hr (hn o ho)) order ho⟩

end Responses

end Consistent

namespace Session

variable {s s' : Session} {a : Action} {d : Delivery} {m : Ouch.OrderExecuted}

abbrev Sound (s : Session) : Prop :=
  Consistent s.accessor.orderManager s.entered s.orders

theorem step_response : s.step (.response d) = .ok { s with
    accessor := s.accessor.respond d.response
    orders   := OwnOrder.afterResponse s.orders d.response } := by
  rw [step, d.handleMessage_eq]

theorem Expects.mem_replacementTokens {m : Ouch.OrderReplaced} (h : s.Expects (.replaced m)) :
    m.replacementOrderToken ∈ s.accessor.orderManager.replacementTokens :=
  have ⟨⟨_, _, _, _, _, hm⟩, _⟩ := h
  List.mem_map_of_mem hm

theorem Sound.respond {r : Response} (h : s.Sound) (he : s.Expects r) :
    Consistent (s.accessor.respond r).orderManager s.entered (OwnOrder.afterResponse s.orders r) := by
  cases r
  case accepted m =>
    have ha : Consistent (s.accessor.orderManager.orderAccepted m.orderToken (be64toh m.quantity) m.orderbookId
        (be32toh m.price.toUInt32).toInt32 m.side) s.entered
      (s.orders ++ [{ entered := m.orderToken, accepted := (be64toh m.quantity).toNat }]) := h.accept he.left
    refine ha.replace ?_
    rw [OrderManager.Issues, OrderManager.orderAccepted, OrderManager.token_modify]
    exact he.right.right
  case executed m =>
    have ⟨o, ho, hc, _⟩ := he
    have h : Consistent (s.accessor.orderManager.orderExecuted m.orderToken (be64toh m.tradedQuantity)) s.entered
      (s.orders.map <| OwnOrder.trade m.orderToken (be64toh m.tradedQuantity).toNat) := h.execute ⟨o, ho, hc⟩
    exact h
  case replaced => exact h.confirm he.mem_replacementTokens
  case canceled | rejected => exact he.elim

theorem Sound.step (h : s.Sound) (ha : s.Allows a) : ∃ s', s.step a = .ok s' ∧ s'.Sound := by
  cases a
  case enter    => exact ⟨_, rfl, h.enter ha⟩
  case replace  => exact ⟨_, rfl, h.replace ha⟩
  case response => exact ⟨_, step_response, h.respond ha⟩

section Tracked

theorem update_executed {m : Ouch.OrderExecuted} {order : Order} :
    ((Response.executed m).update order).quantity = order.quantity - be64toh m.tradedQuantity := by
  rw [Response.update]
  split
  case isTrue h => rw [h, UInt64.sub_self]
  case isFalse  => rfl

theorem Tracked.noWrap {r : Response} (ht : s.Tracked) (he : s.Expects r) : s.NoWrap r := by
  cases r
  case executed m =>
    intro order ho
    have ⟨o, hm, hc, hle⟩ := he
    have ⟨order', ho', hq⟩ := ht o hm
    rw [hc, ho] at ho'
    cases ho'
    rw [UInt64.le_iff_toNat_le, hq, OwnOrder.remaining]
    omega
  case accepted | replaced | canceled | rejected => trivial

-- The orders that a response is not about are still tracked.
theorem Tracked.other {r : Response} {o : OwnOrder} (h : s.Sound) (ht : s.Tracked) (hd : r.token.IsDecimal)
    (ho : o ∈ s.orders) (hn : o.current ≠ r.token) :
    ∃ order, (s.accessor.respond r).orderManager.order? o.current = some order ∧
      order.quantity.toNat = o.remaining := by
  have ⟨order, ho', hq⟩ := ht o ho
  have hc := h.decimal_of_mem ho o.current_mem_tokens
  exact ⟨order, (BistMarketAccessor.order?_respond_other hd hc hn).trans ho', hq⟩

theorem Tracked.accepted {m : Ouch.OrderAccepted} (h : s.Sound) (ht : s.Tracked) (he : s.Expects (.accepted m)) :
    ∀ o ∈ OwnOrder.afterResponse s.orders (.accepted m), ∃ order,
      (s.accessor.respond (.accepted m)).orderManager.order? o.current = some order ∧
      order.quantity.toNat = o.remaining := by
  have ⟨hm, hn, _⟩ := he
  have ⟨hd, hi, _⟩ := h.issued _ <| List.mem_append_left _ hm
  refine List.forall_mem_append.mpr ⟨fun o ho => ?_, List.forall_mem_singleton.mpr ?_⟩
  · have hne : o.current ≠ m.orderToken :=
      fun hc => h.notMem_of_entered ho hm (hn o ho) (hc ▸ o.current_mem_tokens)
    exact ht.other h hd ho hne
  · have ⟨order, ho⟩ := OrderManager.order?_of_inRange (m := s.accessor.orderManager) hi
    have hs := BistMarketAccessor.order?_respond_self (a := s.accessor) (r := .accepted m)
    refine ⟨(Response.accepted m).update order, hs.trans ?_, (Nat.sub_zero _).symm⟩
    rw [Response.token, ho, Option.map_some]

theorem Tracked.executed {m : Ouch.OrderExecuted} (h : s.Sound) (ht : s.Tracked) (he : s.Expects (.executed m)) :
    ∀ o ∈ OwnOrder.afterResponse s.orders (.executed m), ∃ order,
      (s.accessor.respond (.executed m)).orderManager.order? o.current = some order ∧
      order.quantity.toNat = o.remaining := by
  have hw := ht.noWrap he
  have ⟨o₁, ho₁, hc₁, _⟩ := he
  have hd : m.orderToken.IsDecimal := h.decimal_of_mem ho₁ (hc₁ ▸ o₁.current_mem_tokens)
  refine List.forall_mem_map.mpr fun o ho => ?_
  cases Decidable.em (o.current = m.orderToken)
  case inl hc =>
    have ⟨order, ho', hq⟩ := ht o ho
    have hs := BistMarketAccessor.order?_respond_self (a := s.accessor) (r := .executed m)
    rw [hc] at ho'
    refine ⟨(Response.executed m).update order, ?_, ?_⟩
    · rw [OwnOrder.current_trade, hc]
      exact hs.trans (congrArg _ ho')
    · rw [update_executed, UInt64.toNat_sub_of_le _ _ (hw order ho'), hq, OwnOrder.trade_of_current hc,
        OwnOrder.remaining, OwnOrder.remaining, Nat.sub_sub]
  case inr hc =>
    rw [OwnOrder.trade_of_ne hc]
    exact ht.other h hd ho hc

theorem Tracked.replaced {m : Ouch.OrderReplaced} (h : s.Sound) (ht : s.Tracked) (he : s.Expects (.replaced m))
    (hx : s.Exhausted (.replaced m)) :
    ∀ o ∈ OwnOrder.afterResponse s.orders (.replaced m), ∃ order,
      (s.accessor.respond (.replaced m)).orderManager.order? o.current = some order ∧
      order.quantity.toNat = o.remaining := by
  refine List.forall_mem_map.mpr fun o ho => ?_
  cases Decidable.em (o.current = m.previousOrderToken)
  case inl hc =>
    have ⟨order, ho', hq⟩ := h.empty_of_replacement he.mem_replacementTokens he.right
    rw [OwnOrder.replace_of_current hc]
    exact ⟨order, ho', hq ▸ (hx o ho hc).symm⟩
  case inr hc =>
    rw [OwnOrder.replace_of_ne hc]
    exact ht o ho

theorem Tracked.respond {r : Response} (h : s.Sound) (ht : s.Tracked) (he : s.Expects r) (hx : s.Exhausted r) :
    ∀ o ∈ OwnOrder.afterResponse s.orders r, ∃ order,
      (s.accessor.respond r).orderManager.order? o.current = some order ∧ order.quantity.toNat = o.remaining := by
  cases r
  case accepted            => exact ht.accepted h he
  case executed            => exact ht.executed h he
  case replaced            => exact ht.replaced h he hx
  case canceled | rejected => exact he.elim

-- The record at a replacement token is empty when the token comes into use.
theorem Tracked.exhausted {r : Response} (h : s.Sound) (he : s.Expects r)
    (ht : ∀ o ∈ OwnOrder.afterResponse s.orders r, ∃ order,
      (s.accessor.respond r).orderManager.order? o.current = some order ∧ order.quantity.toNat = o.remaining) :
    s.Exhausted r := by
  cases r
  case replaced m =>
    intro o ho hc
    have ⟨order, ho₁, hq₁⟩ := h.empty_of_replacement he.mem_replacementTokens he.right
    have ⟨order', ho₂, hq₂⟩ := List.forall_mem_map.mp ht o ho
    rw [OwnOrder.replace_of_current hc] at ho₂ hq₂
    cases ho₁.symm.trans ho₂
    exact hq₂.symm.trans (hq₁ ▸ rfl)
  case accepted | executed | canceled | rejected => trivial

end Tracked

section Runs

variable {partition : OrderEntryPartitionConfig} {exchangeInfo : ExchangeInfo} {last : Int32}
variable {actions : List Action}

def start (partition : OrderEntryPartitionConfig) (exchangeInfo : ExchangeInfo) (last : Int32) : Session where
  accessor := .ofPartition partition exchangeInfo last

theorem sound_start (h : last.toUInt32.toNat + 1 < 2 ^ 31) : (start partition exchangeInfo last).Sound where
  decimal          := (OrderToken.ofIndex_isDecimal h).left
  small            := (OrderToken.ofIndex_isDecimal h).right ▸ Nat.lt_trans h (by decide)
  issued           := List.forall_mem_nil _
  disjoint         := List.forall_mem_nil _
  enteredOf        := List.forall_mem_nil _
  replacedWith     := List.forall_mem_nil _
  untouched t _ _ order ho := by
    have ⟨_, _, ho⟩ := Option.map_eq_some_iff.mp ho
    exact ho ▸ rfl

theorem sound_invariant (h : last.toUInt32.toNat + 1 < 2 ^ 31) :
    Run.Invariant step (start partition exchangeInfo last) (fun _ => Allows) (fun _ => Sound) where
  init    := sound_start h
  next hs := hs.step

theorem tracked_invariant (h : last.toUInt32.toNat + 1 < 2 ^ 31) :
    Run.Invariant step (start partition exchangeInfo last)
      (fun _ s a => s.Allows a ∧ a.Responds s.Exhausted) (fun _ s => s.Sound ∧ s.Tracked) where
  init := ⟨sound_start h, List.forall_mem_nil _⟩
  next := by
    intro _ s a ⟨hs, ht⟩ ⟨ha, hx⟩
    have ⟨s', he, hs'⟩ := hs.step ha
    refine ⟨s', he, hs', ?_⟩
    cases a
    case enter | replace =>
      cases he
      exact ht
    case response d =>
      cases step_response.symm.trans he
      exact ht.respond hs ha hx

-- In every run in which the exchange answers as it can, the records are tracked and no subtraction
-- wraps if and only if no order is replaced while something of it remains.
theorem tracked_iff (h : last.toUInt32.toNat + 1 < 2 ^ 31)
    (ha : Run.Admits step (start partition exchangeInfo last) (fun _ => Allows) actions) :
    ((∀ pre s, pre <+: actions → Run.exec step (start partition exchangeInfo last) pre = .ok s → s.Tracked) ∧
      Run.Admits step (start partition exchangeInfo last) (fun _ s a => a.Responds s.NoWrap) actions) ↔
    Run.Admits step (start partition exchangeInfo last) (fun _ s a => a.Responds s.Exhausted) actions := by
  constructor
  case mp =>
    intro ⟨ht, _⟩ pre a post s he hs
    cases a
    case enter | replace => trivial
    case response d =>
      have ⟨_, hs', hsound⟩ := (sound_invariant h).exec_restrict ha ⟨_, he.symm⟩
      cases hs.symm.trans hs'
      have hr := (Run.exec_snoc_of_ok hs).trans (step_response (d := d))
      have hp : pre ++ [.response d] <+: actions := ⟨post, by rw [he, List.append_assoc, List.singleton_append]⟩
      have ht := ht _ _ hp hr
      exact Tracked.exhausted hsound (ha pre _ post s he hs) ht
  case mpr =>
    intro hx
    refine ⟨fun pre s hp hs => ?_, fun pre a post s he hs => ?_⟩
    · have ⟨_, hs', _, ht⟩ := (tracked_invariant h).exec_restrict (ha.and hx) hp
      cases hs.symm.trans hs'
      exact ht
    · have ⟨_, hs', _, ht⟩ := (tracked_invariant h).exec_restrict (ha.and hx) ⟨_, he.symm⟩
      cases hs.symm.trans hs'
      cases a
      case enter | replace => trivial
      case response => exact ht.noWrap (ha pre _ post s he hs)

end Runs

section Samples

def sampleStart : Session :=
  start samplePartition sampleExchangeInfo 0

def sampleEntered : List Action :=
  [.enter 78436 'S'.toUInt8 5000 770000, .response (sampleAccepted 2 10)]

-- An order is replaced when all of it has been traded.
def sampleFilled : List Action :=
  sampleEntered ++ [.response (sampleTraded 2 10)] ++ [.response (sampleReplaced 3 2)]

-- An order of which 10 remain is replaced, and 4 of it are traded under its new token.
def sampleOpen : List Action :=
  sampleEntered ++ [.response (sampleReplaced 3 2)] ++ [.response (sampleTraded 3 4)]

theorem sampleEntered_allowed : Run.Admits step sampleStart (fun _ => Allows) sampleEntered := by
  have h : Run.Admits step sampleStart (fun _ => Allows) [.enter 78436 'S'.toUInt8 5000 770000] :=
    .singleton (by decide +kernel)
  apply h.snoc
  intro s hs
  cases hs
  decide +kernel

theorem tracked_iff_filled :
    ((∀ pre s, pre <+: sampleFilled → Run.exec step sampleStart pre = .ok s → s.Tracked) ∧
      Run.Admits step sampleStart (fun _ s a => a.Responds s.NoWrap) sampleFilled) ↔
    Run.Admits step sampleStart (fun _ s a => a.Responds s.Exhausted) sampleFilled := by
  have h : Run.Admits step sampleStart (fun _ => Allows) (sampleEntered ++ [.response (sampleTraded 2 10)]) := by
    apply sampleEntered_allowed.snoc
    intro s hs
    cases hs
    decide +kernel
  refine tracked_iff (by decide) (h.snoc fun s hs => ?_)
  cases hs
  decide +kernel

theorem sampleOpen_allowed : Run.Admits step sampleStart (fun _ => Allows) sampleOpen := by
  have h : Run.Admits step sampleStart (fun _ => Allows) (sampleEntered ++ [.response (sampleReplaced 3 2)]) := by
    apply sampleEntered_allowed.snoc
    intro s hs
    cases hs
    decide +kernel
  apply h.snoc
  intro s hs
  cases hs
  decide +kernel

theorem replaced_wraps :
    Run.Admits step sampleStart (fun _ => Allows) sampleOpen ∧
    ∃ s, Run.exec step sampleStart sampleOpen = .ok s ∧ ¬s.Tracked ∧
      (s.accessor.orderManager.order? (.ofIndex 3)).map Order.quantity = some (-4) := by
  have ⟨s, hs, hm, hq⟩ : ∃ s, Run.exec step sampleStart sampleOpen = .ok s ∧
      { entered := .ofIndex 2, replacements := [.ofIndex 3], accepted := 10, traded := 4 } ∈ s.orders ∧
      (s.accessor.orderManager.order? (.ofIndex 3)).map Order.quantity = some (-4) :=
    ⟨_, rfl, by decide +kernel, by decide +kernel⟩
  refine ⟨sampleOpen_allowed, s, hs, fun ht => ?_, hq⟩
  have ⟨order, ho, hr⟩ := ht _ hm
  have ho : s.accessor.orderManager.order? (.ofIndex 3) = some order := ho
  rw [ho] at hq
  rw [Option.some.inj hq] at hr
  exact absurd hr (by decide +kernel)

end Samples

end Session
