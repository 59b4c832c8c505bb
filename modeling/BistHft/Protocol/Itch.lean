import BistHft.Wire
import Mathlib.Data.Fintype.Basic

-- The packed message structs. All integers are in network byte order, as the structs hold them.

structure AddOrder where
  type              : UInt8
  nanoseconds       : UInt32
  orderId           : UInt64
  orderbookId       : UInt32
  side              : UInt8
  orderbookPosition : UInt32
  quantity          : UInt64
  price             : Int32
  orderAttributes   : UInt16
  lotType           : UInt8
  deriving DecidableEq

structure OrderExecuted where
  type         : UInt8
  nanoseconds  : UInt32
  orderId      : UInt64
  orderbookId  : UInt32
  side         : UInt8
  quantity     : UInt64
  matchId      : UInt64
  comboGroupId : UInt32
  reserved1    : Fin 7 → UInt8
  reserved2    : Fin 7 → UInt8
  deriving DecidableEq

structure OrderDelete where
  type        : UInt8
  nanoseconds : UInt32
  orderId     : UInt64
  orderbookId : UInt32
  side        : UInt8
  deriving DecidableEq

structure DownstreamHeader where
  session        : List UInt8
  sequenceNumber : UInt64
  messageCount   : UInt16
  deriving DecidableEq

namespace Memory

-- `*reinterpret_cast<const T*>(ptr)` at the offsets of the packed layouts.

def addOrder (m : Memory) : AddOrder where
  type              := m 0
  nanoseconds       := m.load32 1
  orderId           := m.load64 5
  orderbookId       := m.load32 13
  side              := m 17
  orderbookPosition := m.load32 18
  quantity          := m.load64 22
  price             := (m.load32 30).toInt32
  orderAttributes   := m.load16 34
  lotType           := m 36

def orderExecuted (m : Memory) : OrderExecuted where
  type         := m 0
  nanoseconds  := m.load32 1
  orderId      := m.load64 5
  orderbookId  := m.load32 13
  side         := m 17
  quantity     := m.load64 18
  matchId      := m.load64 26
  comboGroupId := m.load32 34
  reserved1 i  := m (38 + i)
  reserved2 i  := m (45 + i)

def orderDelete (m : Memory) : OrderDelete where
  type        := m 0
  nanoseconds := m.load32 1
  orderId     := m.load64 5
  orderbookId := m.load32 13
  side        := m 17

def downstreamHeader (m : Memory) : DownstreamHeader where
  session        := m.bytes 0 10
  sequenceNumber := m.load64 10
  messageCount   := m.load16 18

end Memory
