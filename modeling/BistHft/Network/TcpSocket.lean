import BistHft.Lib.Transfer

-- The two loops that hand a message to the kernel, over what `::write` returns.

-- The values of `errno` that they tell apart. `EWOULDBLOCK` is `EAGAIN`.
inductive Errno
  | eintr
  | eagain
  | epipe
  | other
  deriving DecidableEq

abbrev WriteResult := Transfer.Result Errno

-- The bytes of a message, and the results that its loop gets to see.
abbrev WriteCall := List UInt8 × List WriteResult

namespace TcpSocket

def retries : Errno → Bool
  | .eintr                    => true
  | .eagain | .epipe | .other => false

def write (buffer : List UInt8) (results : List WriteResult) : Transfer.Outcome UInt8 :=
  Transfer.drain retries buffer results

end TcpSocket

namespace TcpClientConnection

def retries : Errno → Bool
  | .eintr | .eagain => true
  | .epipe | .other  => false

def write (buffer : List UInt8) (results : List WriteResult) : Transfer.Outcome UInt8 :=
  Transfer.drain retries buffer results

-- What several calls put on the wire, one after the other, and the messages of those that have put the
-- whole message there.

def stream (calls : List WriteCall) : List UInt8 :=
  calls.flatMap fun call => (write call.1 call.2).sent

def finished (calls : List WriteCall) : List (List UInt8) :=
  (calls.filter fun call => (write call.1 call.2).status = .finished).map Prod.fst

end TcpClientConnection
