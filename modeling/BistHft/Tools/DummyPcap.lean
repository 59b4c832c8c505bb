import BistHft.Protocol.Itch

-- What the tool that writes test packets puts on the wire.

-- `struct.pack(">cI Q I c I Q I H B", ...)` of fields in host order, with the price in two's complement
def AddOrder.pack (order : AddOrder) : List UInt8 :=
  [order.type] ++ (pack32 order.nanoseconds ++ (pack64 order.orderId ++ (pack32 order.orderbookId ++
    ([order.side] ++ (pack32 order.orderbookPosition ++ (pack64 order.quantity ++
      (pack32 order.price.toUInt32 ++ (pack16 order.orderAttributes ++ [order.lotType]))))))))

def makeAddOrder (orderId : UInt64) (orderbookId : UInt32) (side : UInt8) (orderbookPos : UInt32)
    (quantity : UInt64) (price : Int32) : List UInt8 :=
  AddOrder.pack {
    type              := 'A'.toUInt8
    nanoseconds       := 123456789
    orderId, orderbookId, side
    orderbookPosition := orderbookPos
    quantity, price
    orderAttributes   := 0
    lotType           := 0
  }

-- The blocks of a packet: the length of each message, then the message.
def messageBlocks (messages : List (List UInt8)) : List UInt8 :=
  messages.flatMap fun msg => pack16 (.ofNat msg.length) ++ msg

-- The tool has one session, padded to ten bytes. Here it is a parameter.
def makeMoldudp64Packet (session : List UInt8) (sequenceNumber : UInt64) (messages : List (List UInt8)) :
    List UInt8 :=
  session ++ (pack64 sequenceNumber ++ (pack16 (.ofNat messages.length) ++ messageBlocks messages))
