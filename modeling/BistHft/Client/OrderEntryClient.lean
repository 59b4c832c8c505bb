import BistHft.Core.OrderManager
import BistHft.Network.TcpClient

inductive InstrumentType
  | equity
  | derivative
  deriving DecidableEq

structure OrderEntryPartitionConfig where
  instrumentType : InstrumentType
  username       : List UInt8
  password       : List UInt8
  deriving DecidableEq

-- The text that the field `exchange_info` of an order has room for.
abbrev ExchangeInfo := { text : List UInt8 // text.length ≤ 32 }

-- `htobe16` of the length that a packet with a payload of `n` bytes announces, and its type
def soupbinHeader (packetType : PacketType) (n : ℕ) : Memory :=
  (Memory.zeros.store16 0 <| htobe16 <| .ofNat <| 3 + n - 2).store 2 [packetType.code]

def toPaddedArray (n : ℕ) (input : List UInt8) : List UInt8 :=
  input.take n ++ .replicate (n - input.length) ' '.toUInt8

-- `std::to_string`
def decimalString (n : UInt64) : List UInt8 :=
  (Nat.toDigits 10 n.toNat).map Char.toUInt8

namespace BistMarketAccessor

inductive State
  | continuous
  | disconnected
  | reconnecting
  deriving DecidableEq

def prepareEnterOrderBuffer (exchangeInfo : ExchangeInfo) : Memory :=
  let enterOrder := Memory.zeros
    |>.store 0 [Ouch.MessageType.enterOrder.code]
    |>.store 32 [0]
    |>.store 33 [4]
    |>.store 65 exchangeInfo.val
    |>.store64 97 (be64toh 0)
    |>.store 105 [1]
    |>.store 106 [0]
    |>.store 107 (.replicate 7 0)
  Memory.zeros
    |>.store 0 ((soupbinHeader .unsequencedData 114).bytes 0 3)
    |>.store 3 (enterOrder.bytes 0 114)

def prepareReplaceOrderBuffer : Memory :=
  let replaceOrder := Memory.zeros
    |>.store 0 [Ouch.MessageType.replaceOrder.code]
    |>.store64 29 (be64toh 0)
    |>.store 41 [4]
    |>.store64 105 (be64toh 0)
    |>.store 113 [0]
    |>.store 114 (.replicate 8 0)
  Memory.zeros
    |>.store 0 ((soupbinHeader .unsequencedData 122).bytes 0 3)
    |>.store 3 (replaceOrder.bytes 0 122)

def prepareCancelOrderBuffer : Memory :=
  let cancelOrder := Memory.zeros
    |>.store 0 [Ouch.MessageType.cancelOrder.code]
  Memory.zeros
    |>.store 0 ((soupbinHeader .unsequencedData 15).bytes 0 3)
    |>.store 3 (cancelOrder.bytes 0 15)

end BistMarketAccessor

structure BistMarketAccessor where
  partition             : OrderEntryPartitionConfig
  orderManager          : OrderManager
  sequenceNumber        : UInt64 := 0
  sessionName           : List UInt8 := []
  state                 : BistMarketAccessor.State := .disconnected
  enterOrderByteArray   : Memory
  replaceOrderByteArray : Memory
  cancelOrderByteArray  : Memory
  -- what has been handed to the socket, one entry for each call
  written               : List (List UInt8) := []

namespace BistMarketAccessor

def ofPartition (partition : OrderEntryPartitionConfig) (exchangeInfo : ExchangeInfo)
    (lastOrderTokenIndex : Int32) : BistMarketAccessor where
  partition             := partition
  orderManager          := .ofLastOrderTokenIndex lastOrderTokenIndex.toUInt32
  enterOrderByteArray   := prepareEnterOrderBuffer exchangeInfo
  replaceOrderByteArray := prepareReplaceOrderBuffer
  cancelOrderByteArray  := prepareCancelOrderBuffer

def write (a : BistMarketAccessor) (bytes : List UInt8) : BistMarketAccessor :=
  { a with written := a.written ++ [bytes] }

def login (a : BistMarketAccessor) : BistMarketAccessor :=
  let loginRequest := Memory.zeros
    |>.store16 0 (htobe16 47)
    |>.store 2 [PacketType.loginRequest.code]
    |>.store 3 (toPaddedArray 6 a.partition.username)
    |>.store 9 (toPaddedArray 10 a.partition.password)
    |>.store 19 (toPaddedArray 10 a.sessionName)
    |>.store 29 (toPaddedArray 20 <| decimalString <| a.sequenceNumber + 1)
  a.write (loginRequest.bytes 0 49)

def logout (a : BistMarketAccessor) : BistMarketAccessor :=
  let logoutRequest := Memory.zeros
    |>.store16 0 (htobe16 3)
    |>.store 2 [PacketType.logoutRequest.code]
  a.write (logoutRequest.bytes 0 3)

-- In the buffers an order begins behind the header, at offset 3.

def sendEnterOrder (a : BistMarketAccessor) (orderbookId : UInt32) (side : UInt8) (qty : UInt32)
    (price : Int32) : BistMarketAccessor :=
  let orderManager := a.orderManager.nextToken
  let enterOrder := a.enterOrderByteArray
    |>.store (3 + 1) orderManager.token.val
    |>.store32 (3 + 15) (be32toh orderbookId)
    |>.store (3 + 19) [side]
    |>.store64 (3 + 20) (be64toh qty.toUInt64)
    |>.store32 (3 + 28) (be32toh price.toUInt32)
  { a with orderManager, enterOrderByteArray := enterOrder }.write (enterOrder.bytes 0 117)

def sendReplaceOrder (a : BistMarketAccessor) (originalOrderToken : OrderToken) (price : Int32) :
    BistMarketAccessor :=
  let orderManager := a.orderManager.nextToken
  let replacementToken := orderManager.token
  let replaceOrder := a.replaceOrderByteArray
    |>.store (3 + 1) originalOrderToken.val
    |>.store (3 + 15) replacementToken.val
    |>.store32 (3 + 37) (be32toh price.toUInt32)
  { a with
    orderManager := orderManager.pendingReplace originalOrderToken replacementToken
    replaceOrderByteArray := replaceOrder
  }.write (replaceOrder.bytes 0 125)

def sendCancelOrder (a : BistMarketAccessor) (originalOrderToken : OrderToken) : BistMarketAccessor :=
  let cancelOrder := a.cancelOrderByteArray.store (3 + 1) originalOrderToken.val
  { a with cancelOrderByteArray := cancelOrder }.write (cancelOrder.bytes 0 18)

def onLoginAccepted (a : BistMarketAccessor) (loginAccepted : LoginAccepted) : BistMarketAccessor :=
  let a := { a with state := .continuous, sessionName := loginAccepted.sessionName }
  if a.partition.instrumentType = .equity then
    a.sendEnterOrder 78436 'S'.toUInt8 5000 770000
  else
    a

end BistMarketAccessor

namespace TcpClient

-- The destination of each `memcpy` is a struct of zeros. Only what it puts into the struct matters
-- here, not what it puts behind it.

def handleSequencedData (a : BistMarketAccessor) (data : Memory) (length : UInt16) : BistMarketAccessor :=
  let payloadType := data 3
  let payload := (data.shift 3).copied (length.toUInt64 - 1).toNat
  if payloadType = Ouch.MessageType.orderCanceled.code then
    a
  else if payloadType = Ouch.MessageType.orderAccepted.code then
    let orderAccepted := payload.orderAccepted
    let orderManager := a.orderManager.orderAccepted orderAccepted.orderToken
      (be64toh orderAccepted.quantity) orderAccepted.orderbookId
      (be32toh orderAccepted.price.toUInt32).toInt32 orderAccepted.side
    { a with orderManager }.sendReplaceOrder orderAccepted.orderToken 775000
  else if payloadType = Ouch.MessageType.orderExecuted.code then
    let orderExecuted := payload.ouchOrderExecuted
    { a with orderManager :=
        a.orderManager.orderExecuted orderExecuted.orderToken (be64toh orderExecuted.tradedQuantity) }
  else if payloadType = Ouch.MessageType.orderReplaced.code then
    -- the call of `orderReplaced` is commented out
    a.sendCancelOrder payload.orderReplaced.replacementOrderToken
  else if payloadType = Ouch.MessageType.orderRejected.code then
    { a with orderManager := a.orderManager.orderDeleted payload.orderRejected.orderToken }
  else
    a

def handleMessage (a : BistMarketAccessor) (data : Memory) (length : UInt16) : BistMarketAccessor :=
  let packetType := data 2
  if packetType = PacketType.sequencedData.code then
    handleSequencedData a data length
  else if packetType = PacketType.serverHeartbeat.code then
    let clientHeartbeat := Memory.zeros
      |>.store 2 [PacketType.clientHeartbeat.code]
      |>.store16 0 (be16toh 1)
    a.write (clientHeartbeat.bytes 0 3)
  else if packetType = PacketType.loginAccepted.code then
    a.onLoginAccepted (data.copied length.toNat).loginAccepted
  else
    -- a rejected login and the end of the session are logged, and so is an unknown packet
    a

end TcpClient
