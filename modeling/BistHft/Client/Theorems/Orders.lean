import BistHft.Client.Theorems.Responses

-- The order messages that are written from the three buffers, over any sequence of requests.

namespace Ouch

-- The messages in host byte order.

def EnterOrder.toHost (m : EnterOrder) : EnterOrder :=
  { m with
    orderbookId     := be32toh m.orderbookId
    quantity        := be64toh m.quantity
    price           := (be32toh m.price.toUInt32).toInt32
    displayQuantity := be64toh m.displayQuantity
  }

def ReplaceOrder.toHost (m : ReplaceOrder) : ReplaceOrder :=
  { m with
    quantity        := be64toh m.quantity
    price           := (be32toh m.price.toUInt32).toInt32
    displayQuantity := be64toh m.displayQuantity
  }

end Ouch

namespace Memory

variable {m m' : Memory} {n o : ℕ}

-- The message behind the header of a packet.

def enterOrderPacket (m : Memory) : Ouch.EnterOrder :=
  (m.shift 3).enterOrder.toHost

def replaceOrderPacket (m : Memory) : Ouch.ReplaceOrder :=
  (m.shift 3).replaceOrder.toHost

def cancelOrderPacket (m : Memory) : Ouch.CancelOrder :=
  (m.shift 3).cancelOrder

-- Two packets that differ only where the client writes.

theorem enterOrderPacket_congr (h : ∀ i < 117, i < 4 ∨ 35 ≤ i → m i = m' i) :
    m.enterOrderPacket = { m'.enterOrderPacket with
      orderToken  := m.orderToken 4
      orderbookId := be32toh (m.load32 18)
      side        := m 22
      quantity    := be64toh (m.load64 23)
      price       := (be32toh (m.load32 31)).toInt32
    } := by
  have hb {o n} (hn : o + n ≤ 117) (ho : 35 ≤ o) : m.bytes o n = m'.bytes o n :=
    bytes_congr fun i _ hi => h i (by omega) (by omega)
  have hq : m.load64 100 = m'.load64 100 := load64_congr (hb (by decide) (by decide))
  simp (disch := decide) only [enterOrderPacket, enterOrder, Ouch.EnterOrder.toHost, orderToken_shift, load32_shift,
    load64_shift, bytes_shift, shift_apply, hb, hq, h, UInt32.toUInt32_toInt32, Nat.reduceAdd]

theorem replaceOrderPacket_congr (h : ∀ i < 125, i < 4 ∨ 32 ≤ i ∧ i < 40 ∨ 44 ≤ i → m i = m' i) :
    m.replaceOrderPacket = { m'.replaceOrderPacket with
      existingOrderToken    := m.orderToken 4
      replacementOrderToken := m.orderToken 18
      price                 := (be32toh (m.load32 40)).toInt32
    } := by
  have hb {o n} (hn : o + n ≤ 125) (ho : 44 ≤ o) : m.bytes o n = m'.bytes o n :=
    bytes_congr fun i _ hi => h i (by omega) (by omega)
  have hq : m.load64 32 = m'.load64 32 := load64_congr (bytes_congr fun i _ hi => h i (by omega) (by omega))
  have hd : m.load64 108 = m'.load64 108 := load64_congr (hb (by decide) (by decide))
  simp (disch := decide) only [replaceOrderPacket, replaceOrder, Ouch.ReplaceOrder.toHost, orderToken_shift, load32_shift,
    load64_shift, bytes_shift, shift_apply, hb, hq, hd, h, UInt32.toUInt32_toInt32, Nat.reduceAdd]

theorem cancelOrderPacket_congr (h : m 3 = m' 3) :
    m.cancelOrderPacket = { m'.cancelOrderPacket with orderToken := m.orderToken 4 } := by
  simp only [cancelOrderPacket, cancelOrder, orderToken_shift, shift_apply, h, Nat.reduceAdd]

end Memory

namespace BistMarketAccessor

inductive Request
  | enter (orderbookId : UInt32) (side : UInt8) (qty : UInt32) (price : Int32)
  | replace (originalOrderToken : OrderToken) (price : Int32)
  | cancel (originalOrderToken : OrderToken)

namespace Request

def send (a : BistMarketAccessor) : Request → BistMarketAccessor
  | enter orderbookId side qty price => a.sendEnterOrder orderbookId side qty price
  | replace originalOrderToken price => a.sendReplaceOrder originalOrderToken price
  | cancel originalOrderToken        => a.sendCancelOrder originalOrderToken

-- The frame carries the arguments of the request and the new token. In everything else it is as the
-- buffer was prepared.
def Encodes (exchangeInfo : ExchangeInfo) (token : OrderToken) (frame : List UInt8) : Request → Prop
  | enter orderbookId side qty price =>
    frame.length = 117 ∧ ∀ data : Memory, data.Holds frame →
      data.enterOrderPacket = { (prepareEnterOrderBuffer exchangeInfo).enterOrderPacket with
        orderToken := token, orderbookId, side, quantity := qty.toUInt64, price }
  | replace originalOrderToken price =>
    frame.length = 125 ∧ ∀ data : Memory, data.Holds frame →
      data.replaceOrderPacket = { prepareReplaceOrderBuffer.replaceOrderPacket with
        existingOrderToken := originalOrderToken, replacementOrderToken := token, price }
  | cancel originalOrderToken =>
    frame.length = 18 ∧ ∀ data : Memory, data.Holds frame →
      data.cancelOrderPacket = { prepareCancelOrderBuffer.cancelOrderPacket with orderToken := originalOrderToken }

-- The pair that is remembered until the exchange has replaced the order.
def pending (token : OrderToken) : Request → List (OrderToken × OrderToken)
  | replace originalOrderToken _ => [(originalOrderToken, token)]
  | enter .. | cancel _          => []

end Request

def sendAll (a : BistMarketAccessor) (requests : List Request) : BistMarketAccessor :=
  requests.foldl Request.send a

variable {a : BistMarketAccessor} {partition : OrderEntryPartitionConfig} {exchangeInfo : ExchangeInfo} {last : Int32}
variable {requests : List Request} {request : Request} {token : OrderToken} {price : Int32} {i : ℕ}

-- Outside of the fields that the requests write, the buffers are as they were prepared.
structure Prepared (exchangeInfo : ExchangeInfo) (a : BistMarketAccessor) : Prop where
  enterOrder   : ∀ i < 117, i < 4 ∨ 35 ≤ i → a.enterOrderByteArray i = prepareEnterOrderBuffer exchangeInfo i
  replaceOrder : ∀ i < 125, i < 4 ∨ 32 ≤ i ∧ i < 40 ∨ 44 ≤ i → a.replaceOrderByteArray i = prepareReplaceOrderBuffer i
  cancelOrder  : ∀ i < 4, a.cancelOrderByteArray i = prepareCancelOrderBuffer i

section Prepare

-- What is prepared for the fields that no request writes.

def preparedEnterOrder (exchangeInfo : List UInt8) : Ouch.EnterOrder where
  type            := Ouch.MessageType.enterOrder.code
  orderToken      := ⟨.replicate 14 0, rfl⟩
  orderbookId     := 0
  side            := 0
  quantity        := 0
  price           := 0
  timeInForce     := 0
  openClose       := 4
  clientAccount   := .replicate 16 0
  customerInfo    := .replicate 15 0
  exchangeInfo
  displayQuantity := 0
  clientCategory  := 1
  offhours        := 0
  reserved        := .replicate 7 0

theorem prepareEnterOrderBuffer_nil :
    (prepareEnterOrderBuffer ⟨[], Nat.zero_le _⟩).enterOrderPacket = preparedEnterOrder (.replicate 32 0) := by
  decide +kernel

theorem prepareEnterOrderBuffer_apply (hi : i < 117) (h : i < 68 ∨ 100 ≤ i) :
    prepareEnterOrderBuffer exchangeInfo i = prepareEnterOrderBuffer ⟨[], Nat.zero_le _⟩ i := by
  have ht := exchangeInfo.property
  have hc {m : Memory} {j : ℕ} (hj : j < 65 ∨ 97 ≤ j) : m.store 65 exchangeInfo.val j = m.store 65 [] j := by
    rw [Memory.store_apply (by omega), Memory.store_apply (by rw [List.length_nil]; omega)]
  rw [prepareEnterOrderBuffer, prepareEnterOrderBuffer]
  cases Nat.lt_or_ge i 3
  case inl hl => rw [Memory.store_apply (.inl hl), Memory.store_apply (.inl hl)]
  case inr hl =>
    rw [Memory.store_bytes_apply hl hi, Memory.store_bytes_apply hl hi]
    iterate 4 apply Memory.store_congr
    exact hc (by omega)

theorem prepareEnterOrderBuffer_exchangeInfo :
    (prepareEnterOrderBuffer exchangeInfo).bytes 68 32 =
      exchangeInfo.val ++ .replicate (32 - exchangeInfo.val.length) 0 := by
  rw [← Memory.bytes_store_replicate (o := 65) (m := Memory.zeros) (by decide) exchangeInfo.property,
    ← Memory.bytes_shift (n := 3) (o := 65)]
  refine Memory.bytes_congr fun i hl hu => ?_
  rw [Memory.shift_apply, prepareEnterOrderBuffer, Memory.store_bytes_apply (by omega) (by omega), Nat.zero_add,
    Nat.add_sub_cancel_left]
  simp only [Memory.store64]
  rw [Memory.store_apply, Memory.store_apply, Memory.store_apply, Memory.store_apply]
  · apply Memory.store_congr
    rw [Memory.store_apply, Memory.store_apply, Memory.store_apply]
    all_goals simp only [List.length_singleton]; omega
  all_goals exact .inl (by omega)

theorem prepareEnterOrderBuffer_packet :
    (prepareEnterOrderBuffer exchangeInfo).enterOrderPacket =
      preparedEnterOrder (exchangeInfo.val ++ .replicate (32 - exchangeInfo.val.length) 0) := by
  let m := prepareEnterOrderBuffer exchangeInfo
  let m' := prepareEnterOrderBuffer ⟨[], Nat.zero_le _⟩
  have ha {i} (hi : i < 117) (h : i < 68 ∨ 100 ≤ i) : m i = m' i := prepareEnterOrderBuffer_apply hi h
  have hb {o n} (hn : o + n ≤ 117) (h : o + n ≤ 68 ∨ 100 ≤ o) : m.bytes o n = m'.bytes o n :=
    Memory.bytes_congr fun i _ hi => ha (by omega) (by omega)
  have hi {o} (hn : o + 4 ≤ 117) (h : o + 4 ≤ 68 ∨ 100 ≤ o) : m.load32 o = m'.load32 o := Memory.load32_congr (hb hn h)
  have hl {o} (hn : o + 8 ≤ 117) (h : o + 8 ≤ 68 ∨ 100 ≤ o) : m.load64 o = m'.load64 o := Memory.load64_congr (hb hn h)
  have ht : m.orderToken 4 = m'.orderToken 4 := Memory.orderToken_congr (hb (by decide) (by decide))
  have he : m.enterOrderPacket = { m'.enterOrderPacket with exchangeInfo := m.bytes 68 32 } := by
    simp (disch := decide) only [Memory.enterOrderPacket, Memory.enterOrder, Ouch.EnterOrder.toHost, Memory.orderToken_shift,
      Memory.load32_shift, Memory.load64_shift, Memory.bytes_shift, Memory.shift_apply, Nat.reduceAdd, ha, hb, hi, hl, ht]
  have hn : m'.enterOrderPacket = _ := prepareEnterOrderBuffer_nil
  rw [he, prepareEnterOrderBuffer_exchangeInfo, hn, preparedEnterOrder, preparedEnterOrder]

theorem prepareReplaceOrderBuffer_packet :
    prepareReplaceOrderBuffer.replaceOrderPacket = {
      type                  := Ouch.MessageType.replaceOrder.code
      existingOrderToken    := ⟨.replicate 14 0, rfl⟩
      replacementOrderToken := ⟨.replicate 14 0, rfl⟩
      quantity              := 0
      price                 := 0
      openClose             := 4
      clientAccount         := .replicate 16 0
      customerInfo          := .replicate 15 0
      exchangeInfo          := .replicate 32 0
      displayQuantity       := 0
      clientCategory        := 0
      reserved              := .replicate 8 0
    } := by
  decide +kernel

end Prepare

section Buffers

variable {orderbookId : UInt32} {side : UInt8} {qty : UInt32}

theorem enterOrderByteArray_apply (h : i < 4 ∨ 35 ≤ i) :
    (a.sendEnterOrder orderbookId side qty price).enterOrderByteArray i = a.enterOrderByteArray i := by
  simp only [sendEnterOrder, write, Memory.store32, Memory.store64]
  rw [Memory.store_apply, Memory.store_apply, Memory.store_apply, Memory.store_apply, Memory.store_apply]
  all_goals simp only [Bytes.leBytes_length, OrderToken.val_length, List.length_singleton]; omega

theorem replaceOrderByteArray_apply (h : i < 4 ∨ 32 ≤ i ∧ i < 40 ∨ 44 ≤ i) :
    (a.sendReplaceOrder token price).replaceOrderByteArray i = a.replaceOrderByteArray i := by
  simp only [sendReplaceOrder, write, Memory.store32]
  rw [Memory.store_apply, Memory.store_apply, Memory.store_apply]
  all_goals simp only [Bytes.leBytes_length, OrderToken.val_length]; omega

theorem cancelOrderByteArray_apply (h : i < 4) :
    (a.sendCancelOrder token).cancelOrderByteArray i = a.cancelOrderByteArray i :=
  Memory.store_apply (.inl h)

theorem enterOrder_encodes (h : a.Prepared exchangeInfo) :
    (Request.enter orderbookId side qty price).Encodes exchangeInfo a.orderManager.nextToken.token
      ((a.sendEnterOrder orderbookId side qty price).enterOrderByteArray.bytes 0 117) := by
  refine ⟨Memory.bytes_length, fun data hd => ?_⟩
  have hd {i} (hi : i < 117) := hd.apply_bytes hi
  have hc {o n} (hn : o + n ≤ 117) : data.bytes o n = _ := Memory.bytes_congr fun i _ hi => hd (by omega)
  rw [Memory.enterOrderPacket_congr fun i hi ho => (hd hi).trans <| (enterOrderByteArray_apply ho).trans (h.enterOrder i hi ho),
    Memory.orderToken_congr (hc (by decide)), Memory.load32_congr (hc (by decide)), hd (by decide),
    Memory.load64_congr (hc (by decide)), Memory.load32_congr (n := 31) (hc (by decide))]
  simp (disch := simp) only [sendEnterOrder, write, Memory.store32, Memory.store64, Memory.orderToken_store,
    Memory.orderToken_store_of_disjoint, Memory.store_singleton, Memory.store_apply, Memory.load32_store,
    Memory.load64_store, Memory.load32_store_of_disjoint, Memory.load64_store_of_disjoint, be32toh_be32toh,
    be64toh_be64toh, Nat.reduceAdd, Int32.toInt32_toUInt32]

theorem replaceOrder_encodes (h : a.Prepared exchangeInfo) :
    (Request.replace token price).Encodes exchangeInfo a.orderManager.nextToken.token
      ((a.sendReplaceOrder token price).replaceOrderByteArray.bytes 0 125) := by
  refine ⟨Memory.bytes_length, fun data hd => ?_⟩
  have hd {i} (hi : i < 125) := hd.apply_bytes hi
  have hc {o n} (hn : o + n ≤ 125) : data.bytes o n = _ := Memory.bytes_congr fun i _ hi => hd (by omega)
  rw [Memory.replaceOrderPacket_congr fun i hi ho =>
      (hd hi).trans <| (replaceOrderByteArray_apply ho).trans (h.replaceOrder i hi ho),
    Memory.orderToken_congr (hc (by decide)), Memory.orderToken_congr (n := 18) (hc (by decide)),
    Memory.load32_congr (hc (by decide))]
  simp (disch := simp) only [sendReplaceOrder, write, Memory.store32, Memory.orderToken_store,
    Memory.orderToken_store_of_disjoint, Memory.load32_store, be32toh_be32toh, Nat.reduceAdd, Int32.toInt32_toUInt32]

theorem cancelOrder_encodes (h : a.Prepared exchangeInfo) :
    (Request.cancel token).Encodes exchangeInfo a.orderManager.nextToken.token
      ((a.sendCancelOrder token).cancelOrderByteArray.bytes 0 18) := by
  refine ⟨Memory.bytes_length, fun data hd => ?_⟩
  have hd {i} (hi : i < 18) := hd.apply_bytes hi
  have hc : data.bytes 4 14 = _ := Memory.bytes_congr fun i _ hi => hd (by omega)
  rw [Memory.cancelOrderPacket_congr <|
      (hd (by decide)).trans <| (cancelOrderByteArray_apply (by decide)).trans (h.cancelOrder 3 (by decide)),
    Memory.orderToken_congr hc]
  simp only [sendCancelOrder, write, Memory.orderToken_store, Nat.reduceAdd]

end Buffers

theorem prepared_ofPartition : (ofPartition partition exchangeInfo last).Prepared exchangeInfo where
  enterOrder _ _ _   := rfl
  replaceOrder _ _ _ := rfl
  cancelOrder _ _    := rfl

theorem Prepared.send (h : a.Prepared exchangeInfo) : (request.send a).Prepared exchangeInfo := by
  cases request
  case enter  => exact { h with enterOrder := fun i hi ho => (enterOrderByteArray_apply ho).trans (h.enterOrder i hi ho) }
  case replace =>
    exact { h with replaceOrder := fun i hi ho => (replaceOrderByteArray_apply ho).trans (h.replaceOrder i hi ho) }
  case cancel => exact { h with cancelOrder := fun i hi => (cancelOrderByteArray_apply hi).trans (h.cancelOrder i hi) }

theorem Prepared.sendAll (h : a.Prepared exchangeInfo) : (a.sendAll requests).Prepared exchangeInfo := by
  induction requests generalizing a
  case nil          => exact h
  case cons req _ hi => exact hi h.send

-- What a request writes does not depend on the requests before it, apart from the new token.
theorem requests_encoded (partition : OrderEntryPartitionConfig) (exchangeInfo : ExchangeInfo) (last : Int32)
    (requests : List Request) (request : Request) :
    let a := (ofPartition partition exchangeInfo last).sendAll requests
    let token := a.orderManager.nextToken.token
    ∃ frame,
      (request.send a).written = a.written ++ [frame] ∧
      request.Encodes exchangeInfo token frame ∧
      (request.send a).orderManager.originalToReplacementTokens =
        a.orderManager.originalToReplacementTokens ++ request.pending token := by
  intro a token
  have h : a.Prepared exchangeInfo := prepared_ofPartition.sendAll
  cases request
  case enter   => exact ⟨_, rfl, enterOrder_encodes h, (List.append_nil _).symm⟩
  case replace => exact ⟨_, rfl, replaceOrder_encodes h, rfl⟩
  case cancel  => exact ⟨_, rfl, cancelOrder_encodes h, (List.append_nil _).symm⟩

end BistMarketAccessor
