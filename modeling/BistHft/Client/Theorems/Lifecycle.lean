import BistHft.Client.Theorems.Responses

-- The validity flags of the client's own orders, over any interleaving of the lives of the orders.

-- A closed order had been filled when its cancellation was reported.
inductive Life
  | unseen
  | active (remaining : UInt64)
  | filled
  | rejected
  | canceled
  | closed
  deriving DecidableEq

namespace Life

-- What becomes of an order with the next response about it.
inductive Step : Life → Response → Life → Prop
  | accepted (m : Ouch.OrderAccepted) : Step unseen (.accepted m) (active <| be64toh m.quantity)
  | rejected (m : Ouch.OrderRejected) : Step unseen (.rejected m) rejected
  | traded {remaining : UInt64} (m : Ouch.OrderExecuted) (h : be64toh m.tradedQuantity < remaining) :
    Step (active remaining) (.executed m) (active <| remaining - be64toh m.tradedQuantity)
  | filled {remaining : UInt64} (m : Ouch.OrderExecuted) (h : be64toh m.tradedQuantity = remaining) :
    Step (active remaining) (.executed m) filled
  | nothing (m : Ouch.OrderExecuted) (h : be64toh m.tradedQuantity = 0) : Step filled (.executed m) filled
  | canceled {remaining : UInt64} (m : Ouch.OrderCanceled) : Step (active remaining) (.canceled m) canceled
  | closed (m : Ouch.OrderCanceled) : Step filled (.canceled m) closed

-- The life of an order among the responses, which may be about other orders in between.
inductive Lived (token : OrderToken) : List Delivery → Life → Prop
  | nil : Lived token [] unseen
  | step {ds : List Delivery} {d : Delivery} {life life' : Life} (h : Lived token ds life)
    (about : d.response.token = token) (next : Step life d.response life') : Lived token (ds ++ [d]) life'
  | other {ds : List Delivery} {d : Delivery} {life : Life} (h : Lived token ds life)
    (about : d.response.token ≠ token) : Lived token (ds ++ [d]) life

-- Not rejected, fully executed or canceled.
def IsOpen : Life → Prop
  | unseen | active _                       => True
  | filled | rejected | canceled | closed => False

-- What the record of an order says about its life. A cancellation leaves no trace in the record.
def Agrees (order : Order) : Life → Prop
  | unseen            => order.isValid
  | active remaining  => order.isValid ∧ order.quantity = remaining
  | filled            => order.isValid = false ∧ order.quantity = 0
  | rejected | closed => order.isValid = false
  | canceled          => True

variable {life life' : Life} {r : Response} {order : Order} {token : OrderToken} {ds : List Delivery}

theorem Lived.unseen_of_nil (h : Lived token [] life) : life = unseen := by
  generalize he : [] = ds at h
  cases h
  case nil          => rfl
  case step | other => simp at he

theorem Lived.of_other {d : Delivery} (h : Lived token (ds ++ [d]) life) (hd : d.response.token ≠ token) :
    Lived token ds life := by
  generalize he : ds ++ [d] = ds' at h
  cases h
  case nil => simp at he
  case step about _ =>
    cases (List.append_inj' he rfl).right
    contradiction
  case other _ h =>
    cases (List.append_inj' he rfl).left
    exact h

theorem Agrees.step (ha : life.Agrees order) (hs : Step life r life') : life'.Agrees (r.update order) := by
  cases hs
  case accepted m =>
    rw [Response.update]
    exact ⟨ha, rfl⟩
  case rejected => rfl
  case traded m h =>
    have hn : order.quantity ≠ be64toh m.tradedQuantity := ha.right ▸ UInt64.ne_of_lt h |>.symm
    rw [Response.update, if_neg hn]
    exact ⟨ha.left, ha.right ▸ rfl⟩
  case filled m h =>
    rw [Response.update, if_pos (ha.right.trans h.symm)]
    exact ⟨rfl, rfl⟩
  case nothing m h =>
    rw [Response.update, if_pos (ha.right.trans h.symm)]
    exact ⟨rfl, rfl⟩
  case canceled => trivial
  case closed => exact ha.left

theorem Agrees.isValid_iff (ha : life.Agrees order) (hc : life ≠ canceled) : order.isValid ↔ life.IsOpen := by
  cases life
  case unseen   => simpa [Agrees, IsOpen] using ha
  case active   => simpa [IsOpen] using ha.left
  case filled   => simp [IsOpen, ha.left]
  case rejected => simpa [Agrees, IsOpen] using ha
  case canceled => contradiction
  case closed   => simpa [Agrees, IsOpen] using ha

end Life

namespace BistMarketAccessor

variable {a : BistMarketAccessor} {token : OrderToken} {ds : List Delivery} {life : Life} {order : Order}

def handleMessages (a : BistMarketAccessor) (ds : List Delivery) : BistMarketAccessor :=
  ds.foldl (fun a d => TcpClient.handleMessage a d.data d.length) a

theorem handleMessages_concat {d : Delivery} :
    a.handleMessages (ds ++ [d]) = (a.handleMessages ds).respond d.response := by
  rw [handleMessages, List.foldl_concat]
  exact d.handleMessage_eq

-- The interleaving is taken apart along the life of one order.
theorem agrees_of_lived (hd : ∀ d ∈ ds, d.response.token.IsDecimal) (ht : token.IsDecimal)
    (hl : Life.Lived token ds life) (ha : ∃ order, a.orderManager.order? token = some order ∧ order.isValid) :
    ∃ order, (a.handleMessages ds).orderManager.order? token = some order ∧ life.Agrees order := by
  induction hl
  case nil => exact ha
  case step ds d life life' _ about next hi =>
    subst about
    obtain ⟨order, ho, ha⟩ := hi fun d h => hd d (List.mem_append_left _ h)
    refine ⟨d.response.update order, ?_, ha.step next⟩
    rw [handleMessages_concat, order?_respond_self, ho, Option.map_some]
  case other ds d _ _ about hi =>
    obtain ⟨order, ho, ha⟩ := hi fun d h => hd d (List.mem_append_left _ h)
    refine ⟨order, ?_, ha⟩
    have hd := hd d (List.mem_append_right _ <| List.mem_singleton_self _)
    rw [handleMessages_concat, order?_respond_other hd ht about.symm, ho]

-- All records of a new client are valid, also those of tokens that no order has used.
theorem valid_iff_open {partition : OrderEntryPartitionConfig} {exchangeInfo : ExchangeInfo} {last : Int32}
    (hd : ∀ d ∈ ds, d.response.token.IsDecimal) (ht : token.IsDecimal)
    (hr : (parseOrderTokenDecimal token).toNat < ordersSize) (hl : Life.Lived token ds life)
    (hc : life ≠ .canceled) :
    ∃ order, ((ofPartition partition exchangeInfo last).handleMessages ds).orderManager.order? token =
      some order ∧ (order.isValid ↔ life.IsOpen) := by
  have h₀ : (ofPartition partition exchangeInfo last).orderManager.order? token = some {} := by
    simp [OrderManager.order?, OrderManager.getOrder, hr, ofPartition, OrderManager.ofLastOrderTokenIndex]
  obtain ⟨order, ho, ha⟩ := agrees_of_lived hd ht hl ⟨_, h₀, rfl⟩
  exact ⟨order, ho, ha.isValid_iff hc⟩

section Samples

def sampleLives : List Delivery :=
  [sampleAccepted 1 10, sampleAccepted 2 5, sampleTraded 2 5, sampleTraded 1 4]

theorem valid_iff_open_filled :
    ∃ order, (sampleAccessor.handleMessages sampleLives).orderManager.order? (.ofIndex 2) = some order ∧
      (order.isValid ↔ Life.filled.IsOpen) := by
  have hd : ∀ d ∈ sampleLives, d.response.token.IsDecimal := by decide +kernel
  have hl₁ : Life.Lived (.ofIndex 2) [sampleAccepted 1 10] .unseen := Life.Lived.nil.other (by decide +kernel)
  have hl₂ := hl₁.step (d := sampleAccepted 2 5) rfl (.accepted _)
  have hl₃ := hl₂.step (d := sampleTraded 2 5) rfl (.filled _ (by decide +kernel))
  have hl₄ : Life.Lived (.ofIndex 2) sampleLives .filled := hl₃.other (by decide +kernel)
  exact valid_iff_open hd (by decide +kernel) (by decide +kernel) hl₄ (nomatch ·)

-- The record of a token that has not been accepted is valid, too.
theorem unseen_is_valid :
    ¬∀ ds : List Delivery, (∀ d ∈ ds, d.response.token.IsDecimal) →
      (∀ token, ∃ life, Life.Lived token ds life) →
      ∀ token : OrderToken, token.IsDecimal → (parseOrderTokenDecimal token).toNat < ordersSize →
      ∀ order, (sampleAccessor.handleMessages ds).orderManager.order? token = some order →
      (order.isValid ↔ ∃ remaining, Life.Lived token ds (.active remaining)) := by
  intro h
  have hl token : ∃ life, Life.Lived token [sampleAccepted 1 10] life := by
    cases Decidable.em ((sampleAccepted 1 10).response.token = token)
    case inl he => exact ⟨_, Life.Lived.nil.step he (.accepted _)⟩
    case inr hn => exact ⟨_, Life.Lived.nil.other hn⟩
  have hn : (sampleAccepted 1 10).response.token ≠ .ofIndex 2 := by decide +kernel
  have hi := h _ (by decide +kernel) hl (.ofIndex 2) (by decide +kernel) (by decide +kernel) {} (by decide +kernel)
  have ⟨_, hr⟩ := hi.mp rfl
  have hr : Life.Lived (.ofIndex 2) [] _ := .of_other hr hn
  exact Life.noConfusion hr.unseen_of_nil

end Samples

end BistMarketAccessor
