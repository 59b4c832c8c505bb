import BistHft.Client.OrderEntryClient
import BistHft.Core.Theorems.OrderManager

-- What the client does with a response of the exchange, apart from the bytes that carry it.

inductive Response
  | accepted (m : Ouch.OrderAccepted)
  | executed (m : Ouch.OrderExecuted)
  | replaced (m : Ouch.OrderReplaced)
  | canceled (m : Ouch.OrderCanceled)
  | rejected (m : Ouch.OrderRejected)
  deriving DecidableEq

@[simp]
theorem OrderToken.val_length (token : OrderToken) : token.val.length = 14 :=
  token.property

namespace Response

def type : Response → Ouch.MessageType
  | accepted _ => .orderAccepted
  | executed _ => .orderExecuted
  | replaced _ => .orderReplaced
  | canceled _ => .orderCanceled
  | rejected _ => .orderRejected

-- `sizeof` the struct
def size : Response → ℕ
  | accepted _ => 135
  | executed _ => 68
  | replaced _ => 145
  | canceled _ => 37
  | rejected _ => 27

-- The order that the response is about, and what the response does to the record of that order.

def token : Response → OrderToken
  | accepted m => m.orderToken
  | executed m => m.orderToken
  | replaced m => m.previousOrderToken
  | canceled m => m.orderToken
  | rejected m => m.orderToken

def update : Response → Order → Order
  | accepted m, order =>
    { order with
      quantity    := be64toh m.quantity
      orderbookId := m.orderbookId
      price       := (be32toh m.price.toUInt32).toInt32
      side        := m.side
    }
  | executed m, order =>
    if order.quantity = be64toh m.tradedQuantity then
      { order with quantity := 0, isValid := false }
    else
      { order with quantity := order.quantity - be64toh m.tradedQuantity }
  | rejected _, order => { order with isValid := false }
  | replaced _, order => order
  | canceled _, order => order

-- The struct at the pointer.
def At (payload : Memory) : Response → Prop
  | accepted m => payload.orderAccepted = m
  | executed m => payload.ouchOrderExecuted = m
  | replaced m => payload.orderReplaced = m
  | canceled m => payload.orderCanceled = m
  | rejected m => payload.orderRejected = m

instance {payload : Memory} : {r : Response} → Decidable (r.At payload)
  | accepted _ | executed _ | replaced _ | canceled _ | rejected _ => inferInstanceAs (Decidable (_ = _))

end Response

-- A packet of sequenced data that holds a response.
structure Delivery where
  data        : Memory
  length      : UInt16
  response    : Response
  packetType  : data 2 = PacketType.sequencedData.code
  payloadType : data 3 = response.type.code
  complete    : length.toNat = 3 + response.size
  payload     : response.At (data.shift 3)

namespace BistMarketAccessor

variable {a : BistMarketAccessor}

def respond (a : BistMarketAccessor) : Response → BistMarketAccessor
  | .accepted m =>
    { a with
      orderManager := a.orderManager.orderAccepted m.orderToken (be64toh m.quantity) m.orderbookId
        (be32toh m.price.toUInt32).toInt32 m.side
    }.sendReplaceOrder m.orderToken 775000
  | .executed m =>
    { a with orderManager := a.orderManager.orderExecuted m.orderToken (be64toh m.tradedQuantity) }
  | .replaced m => a.sendCancelOrder m.replacementOrderToken
  | .canceled _ => a
  | .rejected m => { a with orderManager := a.orderManager.orderDeleted m.orderToken }

theorem orders_respond {r : Response} :
    (a.respond r).orderManager.orders = (a.orderManager.modify r.token r.update).orders := by
  cases r
  case accepted | rejected => rfl
  case executed m =>
    have hz {q : UInt64} : q - be64toh m.tradedQuantity = 0 ↔ q = be64toh m.tradedQuantity := by grind
    simp only [respond, OrderManager.orderExecuted, Response.token, hz]
    congr 2
    funext order
    simp only [Response.update]
    split
    case isTrue h  => rw [h, UInt64.sub_self]
    case isFalse h => rfl
  case replaced | canceled => exact (congrArg OrderManager.orders OrderManager.modify_id).symm

theorem order?_respond_self {r : Response} :
    (a.respond r).orderManager.order? r.token = (a.orderManager.order? r.token).map r.update := by
  rw [OrderManager.order?, orders_respond]
  exact OrderManager.order?_modify_self

-- A response leaves the records of the other orders alone.
theorem order?_respond_other {r : Response} {t : OrderToken} (h : r.token.IsDecimal) (ht : t.IsDecimal)
    (hn : t ≠ r.token) : (a.respond r).orderManager.order? t = a.orderManager.order? t := by
  cases r
  case accepted | executed | rejected => exact OrderManager.order?_modify_other h ht hn
  case replaced | canceled => rfl

end BistMarketAccessor

namespace Delivery

variable {a : BistMarketAccessor} {d : Delivery} {r : Response} {m : Memory} {n : ℕ}

section Copied

variable {o k : ℕ}

theorem orderToken_copied (h : o + 14 ≤ n) : (m.copied n).orderToken o = m.orderToken o :=
  Memory.orderToken_congr <| Memory.bytes_copied h

theorem load32_copied (h : o + 4 ≤ n) : (m.copied n).load32 o = m.load32 o :=
  Memory.load32_congr <| Memory.bytes_copied h

theorem load64_copied (h : o + 8 ≤ n) : (m.copied n).load64 o = m.load64 o :=
  Memory.load64_congr <| Memory.bytes_copied h

-- A struct is read from its copy as from the original, if all of it has been copied.
theorem at_copied (h : r.size ≤ n) : r.At (m.copied n) ↔ r.At m := by
  cases r
  all_goals
    simp only [Response.size] at h
    simp (disch := omega) only [Response.At, Memory.orderAccepted, Memory.ouchOrderExecuted,
      Memory.orderReplaced, Memory.orderCanceled, Memory.orderRejected, orderToken_copied,
      load32_copied, load64_copied, Memory.copied_apply]

end Copied

theorem copied_size (d : Delivery) : d.response.size ≤ (d.length.toUInt64 - 1).toNat := by
  have hl : d.length.toUInt64.toNat = 3 + d.response.size :=
    (UInt16.toNat_toUInt64 _).trans d.complete
  have h1 : (1 : UInt64).toNat = 1 := rfl
  have hle : (1 : UInt64) ≤ d.length.toUInt64 := UInt64.le_iff_toNat_le.mpr (by omega)
  rw [UInt64.toNat_sub_of_le _ _ hle]
  omega

theorem handleMessage_eq (d : Delivery) : TcpClient.handleMessage a d.data d.length = a.respond d.response := by
  have hp := (at_copied d.copied_size).mpr d.payload
  have ht := d.payloadType
  rw [TcpClient.handleMessage, if_pos d.packetType, TcpClient.handleSequencedData]
  cases h : d.response
  all_goals
    rw [h] at hp ht
    cases hp
    rw [ht]
    rfl

section Of

-- A struct of zeros with the fields of the response, and the packet around it.

def payloadOf (r : Response) : Memory :=
  let payload := Memory.zeros.store 0 [r.type.code]
  match r with
  | .accepted m =>
    payload.store 9 m.orderToken.val
      |>.store32 23 m.orderbookId
      |>.store 27 [m.side]
      |>.store64 36 m.quantity
      |>.store32 44 m.price.toUInt32
  | .executed m => payload.store 9 m.orderToken.val |>.store64 27 m.tradedQuantity
  | .replaced m => payload.store 9 m.replacementOrderToken.val |>.store 23 m.previousOrderToken.val
  | .canceled m => payload.store 9 m.orderToken.val
  | .rejected m => payload.store 9 m.orderToken.val

def packetOf (r : Response) : Memory :=
  fun i => if i < 3 then soupbinHeader .sequencedData r.size i else payloadOf r (i - 3)

theorem packetOf_shift : (packetOf r).shift 3 = payloadOf r := by
  funext i
  simp [Memory.shift, packetOf]

theorem payloadOf_at : r.At (payloadOf r) := by
  cases r
  all_goals
    simp (disch := simp) only [Response.At, payloadOf, Memory.orderAccepted, Memory.ouchOrderExecuted,
      Memory.orderReplaced, Memory.orderCanceled, Memory.orderRejected, Memory.store32, Memory.store64,
      Memory.orderToken_store, Memory.orderToken_store_of_disjoint, Memory.store_singleton, Memory.store_apply, Memory.load32_store,
      Memory.load64_store, Memory.load32_store_of_disjoint, Memory.load64_store_of_disjoint]
  case accepted => rfl

def of (r : Response) : Delivery where
  data        := packetOf r
  length      := .ofNat (3 + r.size)
  response    := r
  packetType  := rfl
  payloadType := by cases r <;> rfl
  complete    := by cases r <;> rfl
  payload     := packetOf_shift ▸ payloadOf_at

end Of

end Delivery

section Samples

def samplePartition : OrderEntryPartitionConfig where
  instrumentType := .equity
  username       := []
  password       := []

def sampleExchangeInfo : ExchangeInfo :=
  ⟨[], Nat.zero_le _⟩

-- The client as it is when it is started for the first time.
def sampleAccessor : BistMarketAccessor :=
  .ofPartition samplePartition sampleExchangeInfo 0

def sampleAccepted (index : Int32) (quantity : UInt64) : Delivery :=
  .of <| .accepted {
    orderToken  := .ofIndex index
    orderbookId := htobe32 78436
    side        := 'S'.toUInt8
    quantity    := htobe64 quantity
    price       := (htobe32 770000).toInt32
  }

def sampleTraded (index : Int32) (quantity : UInt64) : Delivery :=
  .of <| .executed { orderToken := .ofIndex index, tradedQuantity := htobe64 quantity }

def sampleReplaced (index previous : Int32) : Delivery :=
  .of <| .replaced { replacementOrderToken := .ofIndex index, previousOrderToken := .ofIndex previous }

end Samples
