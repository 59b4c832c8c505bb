import BistHft.Core.OrderbookBuilder

-- The parser is a template over its builder: any state that handles the three calls.

structure ItchParser where
  session : List UInt8 := []
  deriving DecidableEq

namespace ItchParser

variable {σ ε : Type*}

-- The switch over the type of a message. All other types are ignored.
def handle (builder : σ → Call → Except ε σ) (b : σ) (data : Memory) : Except ε σ :=
  if data 0 = 'A'.toUInt8 then
    builder b (.addOrder data.addOrder)
  else if data 0 = 'E'.toUInt8 then
    builder b (.executeOrder data.orderExecuted)
  else if data 0 = 'D'.toUInt8 then
    builder b (.deleteOrder data.orderDelete)
  else
    .ok b

-- `offset += be16toh(block->length) + sizeof(block->length)` with a 32-bit offset
def nextOffset (payload : Memory) (offset : UInt32) : UInt32 :=
  offset + ((be16toh (payload.load16 offset.toNat)).toUInt32 + 2)

def parsePayload (builder : σ → Call → Except ε σ) (b : σ) (payload : Memory) (messageCount : UInt16) :
    Except ε σ :=
  loop messageCount.toNat 0 b
where
  loop : ℕ → UInt32 → σ → Except ε σ
    | 0, _, b          => .ok b
    | n + 1, offset, b => do
      let b ← handle builder b (payload.shift (offset.toNat + 2))
      loop n (nextOffset payload offset) b

-- Returns sequence number and message count. The builder is never absent, since the constructor
-- takes a reference to it.
def parse (builder : σ → Call → Except ε σ) (parser : ItchParser) (b : σ) :
    Option Memory → Except ε (ItchParser × σ × UInt64 × UInt16)
  | none           => .ok (parser, b, 0, 0)
  | some byteArray => do
    let header := byteArray.downstreamHeader
    let b ← parsePayload builder b (byteArray.shift 20) (be16toh header.messageCount)
    return ({ session := header.session }, b, be64toh header.sequenceNumber, be16toh header.messageCount)

end ItchParser
