import BistHft.Core.L2Orderbook
import BistHft.Protocol.Itch
import Mathlib.Data.Finmap

structure ItchOrder where
  id          : UInt64
  price       : Int32
  leftQty     : UInt64
  side        : UInt8
  orderbookId : UInt32
  deriving DecidableEq

-- `std::tuple<uint32_t, uint64_t, char>`: orderbook, order and side
abbrev OrderKey := UInt32 × UInt64 × UInt8

structure OrderbookBuilder where
  orderbookMap : Finmap fun _ : UInt32 => L2Orderbook := ∅
  orderMap     : Finmap fun _ : OrderKey => ItchOrder := ∅
  deriving DecidableEq

namespace OrderbookBuilder

-- `m_orderbookMap[id]`, which creates an empty orderbook for a new identifier.
def orderbook (b : OrderbookBuilder) (id : UInt32) : L2Orderbook :=
  (b.orderbookMap.lookup id).getD {}

def hasOrder (b : OrderbookBuilder) (orderbookId : UInt32) (orderId : UInt64) (side : UInt8) : Bool :=
  (b.orderMap.lookup (orderbookId, orderId, side)).isSome

def addOrder (b : OrderbookBuilder) (orderAdd : AddOrder) : OrderbookBuilder :=
  let orderId := be64toh orderAdd.orderId
  let orderbookId := be32toh orderAdd.orderbookId
  let price := (be32toh orderAdd.price.toUInt32).toInt32
  let qty := be64toh orderAdd.quantity
  let side := orderAdd.side
  let order := { id := orderId, price, leftQty := qty, side, orderbookId }
  {
    orderMap     := b.orderMap.insert (orderbookId, orderId, side) order
    orderbookMap := b.orderbookMap.insert orderbookId <|
      (b.orderbook orderbookId).addOrder side price qty
  }

def executeOrder (b : OrderbookBuilder) (orderExecuted : OrderExecuted) :
    Except Fault OrderbookBuilder :=
  let orderId := be64toh orderExecuted.orderId
  let orderbookId := be32toh orderExecuted.orderbookId
  let side := orderExecuted.side
  let executedQty := be64toh orderExecuted.quantity
  match b.orderMap.lookup (orderbookId, orderId, side) with
  | none    => .ok b
  | some it => do
    let orderbook ← (b.orderbook orderbookId).executeOrder side it.price executedQty
    let leftQty := it.leftQty - executedQty
    return {
      orderbookMap := b.orderbookMap.insert orderbookId orderbook
      orderMap     :=
        if leftQty = 0 then
          b.orderMap.erase (orderbookId, orderId, side)
        else
          b.orderMap.insert (orderbookId, orderId, side) { it with leftQty }
    }

def deleteOrder (b : OrderbookBuilder) (orderDelete : OrderDelete) : Except Fault OrderbookBuilder :=
  let orderId := be64toh orderDelete.orderId
  let orderbookId := be32toh orderDelete.orderbookId
  let side := orderDelete.side
  match b.orderMap.lookup (orderbookId, orderId, side) with
  | none    => .ok b
  | some it => do
    let orderbook ← (b.orderbook orderbookId).deleteOrder side it.price it.leftQty
    return {
      orderbookMap := b.orderbookMap.insert orderbookId orderbook
      orderMap     := b.orderMap.erase (orderbookId, orderId, side)
    }

end OrderbookBuilder

-- A call of one of the three handlers that a builder has.
inductive Call
  | addOrder (orderAdd : AddOrder)
  | executeOrder (orderExecuted : OrderExecuted)
  | deleteOrder (orderDelete : OrderDelete)
  deriving DecidableEq

def Call.apply (b : OrderbookBuilder) : Call → Except Fault OrderbookBuilder
  | addOrder orderAdd           => .ok (b.addOrder orderAdd)
  | executeOrder orderExecuted  => b.executeOrder orderExecuted
  | deleteOrder orderDelete     => b.deleteOrder orderDelete
