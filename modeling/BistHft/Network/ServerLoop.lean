import BistHft.Network.TcpServer
import Mathlib.Data.Finset.Sort
import Mathlib.Order.Lattice.Nat

-- The event loop of the server, and what it tells the connection handler.

structure ServerLoop extends TcpServer where
  -- what the connection handler has been called with
  notified : List (ℕ × Bool) := []

namespace ServerLoop

open TcpServer

abbrev MessageHandler := ServerLoop → ℕ → Memory → ℕ → ServerLoop

-- What `acceptConnection` returns, and whether the connection could be made non-blocking. If it could
-- not, it is closed again.
inductive AcceptResult
  | accepted (clientFd : ℕ)
  | blocking (clientFd : ℕ)
  | wouldBlock
  | error
  deriving DecidableEq

-- An event at the listening socket, or one of the flags `EPOLLIN` and `EPOLLHUP | EPOLLERR` of a client,
-- with what the calls that are made for it return. An event with both of the flags is given as two.
inductive Event
  | listening (results : List AcceptResult)
  | readable (clientFd : ℕ) (results : List ReadResult)
  | hangUp (clientFd : ℕ)
  deriving DecidableEq

-- What `epoll_wait` returns.
inductive Wait
  | events (events : List Event)
  | interrupted
  | failed
  deriving DecidableEq

def removeClient (loop : ServerLoop) (clientFd : ℕ) : ServerLoop :=
  if clientFd ∈ loop.clients then
    { toTcpServer := loop.toTcpServer.removeClient clientFd, notified := loop.notified ++ [(clientFd, false)] }
  else
    loop

def sendToClient (loop : ServerLoop) (clientFd : ℕ) (bytes : List UInt8) : ServerLoop :=
  { loop with toTcpServer := loop.toTcpServer.sendToClient clientFd bytes }

def disconnectClient (loop : ServerLoop) (clientFd : ℕ) : ServerLoop :=
  loop.removeClient clientFd

-- The order in which the clients are gone through is that of the hash map, here that of their numbers.
def broadcastToAll (loop : ServerLoop) (bytes : List UInt8) : ServerLoop :=
  { loop with written := loop.written ++ (loop.clients.sort (· ≤ ·)).map (·, bytes) }

def recordHandled (loop : ServerLoop) (clientFd : ℕ) (bytes : List UInt8) : ServerLoop :=
  { loop with toTcpServer := loop.toTcpServer.recordHandled clientFd bytes }

def readAll (messageHandler : MessageHandler) (clientFd : ℕ) : ServerLoop → Memory → List ReadResult → ServerLoop
  | loop, _,      []               => loop
  | loop, buffer, result :: results =>
    if clientFd ∈ loop.clients then
      match result with
      | .wouldBlock => loop
      | .error      => loop.removeClient clientFd
      | .bytes bytes =>
        if bytes.isEmpty then
          loop.removeClient clientFd
        else
          let buffer := buffer.store 0 bytes
          let loop := loop.recordHandled clientFd (buffer.bytes 0 bytes.length)
          readAll messageHandler clientFd (messageHandler loop clientFd buffer bytes.length) buffer results
    else
      { loop with erased := true }

def handleClientData (messageHandler : MessageHandler) (loop : ServerLoop) (clientFd : ℕ)
    (results : List ReadResult) : ServerLoop :=
  if clientFd ∈ loop.clients then
    readAll messageHandler clientFd loop .zeros results
  else
    loop

-- `m_clients[client_fd] = ...` and the call of the connection handler
def addClient (loop : ServerLoop) (clientFd : ℕ) : ServerLoop :=
  { loop with clients := insert clientFd loop.clients, notified := loop.notified ++ [(clientFd, true)] }

def handleNewConnection : ServerLoop → List AcceptResult → ServerLoop
  | loop, []                              => loop
  | loop, .accepted clientFd :: results   => handleNewConnection (loop.addClient clientFd) results
  | loop, .blocking _ :: results          => handleNewConnection loop results
  | loop, .wouldBlock :: _ | loop, .error :: _ => loop

def handleEvent (messageHandler : MessageHandler) (loop : ServerLoop) : Event → ServerLoop
  | .listening results         => loop.handleNewConnection results
  | .readable clientFd results => loop.handleClientData messageHandler clientFd results
  | .hangUp clientFd           => loop.removeClient clientFd

-- The loop, until a wait fails or until the server is stopped after the last of the waits.
def serverLoop (messageHandler : MessageHandler) : ServerLoop → List Wait → ServerLoop
  | loop, []                      => loop
  | loop, .interrupted :: waits   => serverLoop messageHandler loop waits
  | loop, .failed :: _            => loop
  | loop, .events events :: waits => serverLoop messageHandler (events.foldl (handleEvent messageHandler) loop) waits

-- The connections are closed without a call of the connection handler.
def stop (loop : ServerLoop) : ServerLoop :=
  { loop with clients := ∅ }

end ServerLoop
