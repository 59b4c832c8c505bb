import BistHft.Wire

-- SoupBinTCP packets and the OUCH messages in them. The structs are packed, and the integers in them
-- are in network byte order.

inductive PacketType
  | debug
  | loginAccepted
  | loginRejected
  | sequencedData
  | serverHeartbeat
  | endOfSession
  | loginRequest
  | unsequencedData
  | clientHeartbeat
  | logoutRequest
  deriving DecidableEq

def PacketType.code : PacketType → UInt8
  | debug           => '+'.toUInt8
  | loginAccepted   => 'A'.toUInt8
  | loginRejected   => 'J'.toUInt8
  | sequencedData   => 'S'.toUInt8
  | serverHeartbeat => 'H'.toUInt8
  | endOfSession    => 'Z'.toUInt8
  | loginRequest    => 'L'.toUInt8
  | unsequencedData => 'U'.toUInt8
  | clientHeartbeat => 'R'.toUInt8
  | logoutRequest   => 'O'.toUInt8

structure LoginAccepted where
  sessionName : List UInt8
  deriving DecidableEq

-- `std::array<char, 14>`
abbrev OrderToken := { chars : List UInt8 // chars.length = 14 }

namespace Ouch

inductive MessageType
  | enterOrder
  | replaceOrder
  | cancelOrder
  | cancelByOrderId
  | massQuote
  | orderAccepted
  | orderRejected
  | orderReplaced
  | orderCanceled
  | orderExecuted
  | massQuoteAcknowledgement
  | massQuoteRejection
  deriving DecidableEq

def MessageType.code : MessageType → UInt8
  | enterOrder               => 'O'.toUInt8
  | replaceOrder             => 'U'.toUInt8
  | cancelOrder              => 'X'.toUInt8
  | cancelByOrderId          => 'Y'.toUInt8
  | massQuote                => 'Q'.toUInt8
  | orderAccepted            => 'A'.toUInt8
  | orderRejected            => 'J'.toUInt8
  | orderReplaced            => 'U'.toUInt8
  | orderCanceled            => 'C'.toUInt8
  | orderExecuted            => 'E'.toUInt8
  | massQuoteAcknowledgement => 'K'.toUInt8
  | massQuoteRejection       => 'R'.toUInt8

structure EnterOrder where
  type            : UInt8
  orderToken      : OrderToken
  orderbookId     : UInt32
  side            : UInt8
  quantity        : UInt64
  price           : Int32
  timeInForce     : UInt8
  openClose       : UInt8
  clientAccount   : List UInt8
  customerInfo    : List UInt8
  exchangeInfo    : List UInt8
  displayQuantity : UInt64
  clientCategory  : UInt8
  offhours        : UInt8
  reserved        : List UInt8
  deriving DecidableEq

structure ReplaceOrder where
  type                  : UInt8
  existingOrderToken    : OrderToken
  replacementOrderToken : OrderToken
  quantity              : UInt64
  price                 : Int32
  openClose             : UInt8
  clientAccount         : List UInt8
  customerInfo          : List UInt8
  exchangeInfo          : List UInt8
  displayQuantity       : UInt64
  clientCategory        : UInt8
  reserved              : List UInt8
  deriving DecidableEq

structure CancelOrder where
  type       : UInt8
  orderToken : OrderToken
  deriving DecidableEq

structure OrderAccepted where
  orderToken  : OrderToken
  orderbookId : UInt32
  side        : UInt8
  quantity    : UInt64
  price       : Int32
  deriving DecidableEq

structure OrderExecuted where
  orderToken     : OrderToken
  tradedQuantity : UInt64
  deriving DecidableEq

structure OrderReplaced where
  replacementOrderToken : OrderToken
  previousOrderToken    : OrderToken
  deriving DecidableEq

structure OrderCanceled where
  orderToken : OrderToken
  deriving DecidableEq

structure OrderRejected where
  orderToken : OrderToken
  deriving DecidableEq

end Ouch

namespace Memory

open Ouch

def orderToken (m : Memory) (offset : ℕ) : OrderToken :=
  ⟨m.bytes offset 14, bytes_length⟩

def enterOrder (m : Memory) : EnterOrder where
  type            := m 0
  orderToken      := m.orderToken 1
  orderbookId     := m.load32 15
  side            := m 19
  quantity        := m.load64 20
  price           := (m.load32 28).toInt32
  timeInForce     := m 32
  openClose       := m 33
  clientAccount   := m.bytes 34 16
  customerInfo    := m.bytes 50 15
  exchangeInfo    := m.bytes 65 32
  displayQuantity := m.load64 97
  clientCategory  := m 105
  offhours        := m 106
  reserved        := m.bytes 107 7

def replaceOrder (m : Memory) : ReplaceOrder where
  type                  := m 0
  existingOrderToken    := m.orderToken 1
  replacementOrderToken := m.orderToken 15
  quantity              := m.load64 29
  price                 := (m.load32 37).toInt32
  openClose             := m 41
  clientAccount         := m.bytes 42 16
  customerInfo          := m.bytes 58 15
  exchangeInfo          := m.bytes 73 32
  displayQuantity       := m.load64 105
  clientCategory        := m 113
  reserved              := m.bytes 114 8

def cancelOrder (m : Memory) : CancelOrder where
  type       := m 0
  orderToken := m.orderToken 1

def orderAccepted (m : Memory) : Ouch.OrderAccepted where
  orderToken  := m.orderToken 9
  orderbookId := m.load32 23
  side        := m 27
  quantity    := m.load64 36
  price       := (m.load32 44).toInt32

def ouchOrderExecuted (m : Memory) : Ouch.OrderExecuted where
  orderToken     := m.orderToken 9
  tradedQuantity := m.load64 27

def orderReplaced (m : Memory) : Ouch.OrderReplaced where
  replacementOrderToken := m.orderToken 9
  previousOrderToken    := m.orderToken 23

def orderCanceled (m : Memory) : Ouch.OrderCanceled where
  orderToken := m.orderToken 9

def orderRejected (m : Memory) : Ouch.OrderRejected where
  orderToken := m.orderToken 9

def loginAccepted (m : Memory) : LoginAccepted where
  sessionName := m.bytes 3 10

section OrderToken

variable {m m' : Memory} {token : OrderToken} {n o : ℕ} {bs : List UInt8}

theorem orderToken_congr (h : m.bytes n 14 = m'.bytes o 14) : m.orderToken n = m'.orderToken o :=
  Subtype.ext h

@[simp]
theorem orderToken_shift : (m.shift n).orderToken o = m.orderToken (n + o) :=
  orderToken_congr bytes_shift

theorem orderToken_store : (m.store n token.val).orderToken n = token :=
  Subtype.ext <| bytes_store token.property

theorem orderToken_store_of_disjoint (h : o + 14 ≤ n ∨ n + bs.length ≤ o) :
    (m.store n bs).orderToken o = m.orderToken o :=
  orderToken_congr <| bytes_store_of_disjoint h

end OrderToken

end Memory
