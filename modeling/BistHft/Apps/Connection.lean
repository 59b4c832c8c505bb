import BistHft.Apps.Theorems.Replies
import BistHft.Client.Theorems.Written
import BistHft.Network.Theorems.Delivery

-- The trading client and the emulator at the two ends of a connection, which the server knows by its
-- number. What one of them has written and the other one has not read is on its way.

open TcpClient TcpServer ServerLoop BistMarketAccessor

-- What an application can call.
def BistMarketAccessor.Use.isCall : Use → Bool
  | .handleMessage _ _ => false
  | .login | .logout | .sendEnterOrder .. | .sendReplaceOrder .. | .sendCancelOrder _ => true

structure Connection where
  accessor : BistMarketAccessor
  client   : TcpClient := {}
  loop     : ServerLoop := {}
  -- what the client has read
  received : List UInt8 := []

namespace Connection

inductive Move
  | call (use : Use)
  | clientReads (bytes : List UInt8)
  | occurs (o : Occurrence)

def step : Connection → Move → Except Fault Connection
  | c, .call use          => .ok { c with accessor := c.accessor.perform use }
  | c, .clientReads bytes =>
    let (client, accessor) := (c.client.readFromSocket bytes).processBuffer handleMessage c.accessor
    .ok { c with client, accessor, received := c.received ++ bytes }
  | c, .occurs o          => .ok { c with loop := occur ExchangeEmulator.loopHandler c.loop o }

-- The bytes of either direction, since the connection was made.

def upstream (c : Connection) : List UInt8 :=
  c.accessor.written.flatten

def downstream (clientFd : ℕ) (c : Connection) : List UInt8 :=
  (c.loop.view clientFd).sent.flatten

def bytes? : ReadResult → Option (List UInt8)
  | .bytes bytes         => some bytes
  | .wouldBlock | .error => none

-- The number stands for this connection only, and the server reads what has been written there.
def Carries (clientFd : ℕ) (c : Connection) : Occurrence → Prop
  | .connected _        => (c.loop.view clientFd).told = []
  | .readable _ results => ((c.loop.view clientFd).reads ++ results.filterMap bytes?).flatten <+: c.upstream
  | .hangUp _           => True

-- The network may delay bytes and cut them into any pieces, but it does not lose or reorder them. Whatever
-- concerns another client can happen at any time, as long as the server has not gone wrong.
def Enabled (clientFd : ℕ) (c : Connection) : Move → Prop
  | .call use          => use.isCall
  | .clientReads bytes => ReadFits (c.client, c.accessor) bytes ∧ c.received ++ bytes <+: c.downstream clientFd
  | .occurs o          => c.loop.erased = false ∧ (o.clientFd = clientFd → c.Carries clientFd o)

end Connection
