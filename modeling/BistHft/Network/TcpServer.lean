import BistHft.Wire
import Mathlib.Data.Finset.Basic

-- The receiving side of the server. What a client sends is handed to the message handler as it comes in.

structure TcpServer where
  -- the keys of `m_clients`
  clients : Finset ℕ := ∅
  -- what has been handed to the sockets, and what the message handler has been called with
  written : List (ℕ × List UInt8) := []
  handled : List (ℕ × List UInt8) := []
  -- A connection has been read through an iterator that was erased. There is no telling what
  -- happens from then on.
  erased  : Bool := false

namespace TcpServer

def bufferSize : ℕ := 4096

-- The handler captures the server.
abbrev MessageHandler := TcpServer → ℕ → Memory → ℕ → TcpServer

-- What `::read` returns. No bytes mean that the connection has been closed.
inductive ReadResult
  | bytes (bytes : List UInt8)
  | wouldBlock
  | error
  deriving DecidableEq

def removeClient (server : TcpServer) (clientFd : ℕ) : TcpServer :=
  { server with clients := server.clients.erase clientFd }

def sendToClient (server : TcpServer) (clientFd : ℕ) (bytes : List UInt8) : TcpServer :=
  if clientFd ∈ server.clients then
    { server with written := server.written ++ [(clientFd, bytes)] }
  else
    server

def disconnectClient (server : TcpServer) (clientFd : ℕ) : TcpServer :=
  server.removeClient clientFd

def recordHandled (server : TcpServer) (clientFd : ℕ) (bytes : List UInt8) : TcpServer :=
  { server with handled := server.handled ++ [(clientFd, bytes)] }

-- The loop of `handleClientData`, over the results of its reads. Each of them is put at the front of
-- the buffer, and the handler sees no more than it.
def readAll (messageHandler : MessageHandler) (clientFd : ℕ) : TcpServer → Memory → List ReadResult → TcpServer
  | server, _,      []               => server
  | server, buffer, result :: results =>
    if clientFd ∈ server.clients then
      match result with
      | .wouldBlock => server
      | .error      => server.removeClient clientFd
      | .bytes bytes =>
        if bytes.isEmpty then
          server.removeClient clientFd
        else
          let buffer := buffer.store 0 bytes
          let server := server.recordHandled clientFd (buffer.bytes 0 bytes.length)
          readAll messageHandler clientFd (messageHandler server clientFd buffer bytes.length) buffer results
    else
      { server with erased := true }

def handleClientData (messageHandler : MessageHandler) (server : TcpServer) (clientFd : ℕ)
    (results : List ReadResult) : TcpServer :=
  if clientFd ∈ server.clients then
    readAll messageHandler clientFd server .zeros results
  else
    server

end TcpServer
