import BistHft.Wire
import BistHft.Basic

-- The receiving half of the client: bytes from the socket are gathered in a buffer, and each message
-- that is complete there is handed to a handler. Beyond its size the buffer stands for whatever
-- memory follows it.

def bufferSize : ℕ := 4096

structure TcpClient where
  buffer   : Memory := fun _ => 0
  dataSize : UInt64 := 0

namespace TcpClient

variable {σ : Type*}

-- What `::read` returns of the bytes that have arrived: as many as are asked for at most. Without any it
-- has returned 0, which is taken to mean that the connection has been closed.
def read (client : TcpClient) (arrived : List UInt8) : List UInt8 :=
  arrived.take (.ofNat bufferSize - client.dataSize : UInt64).toNat

-- What the socket delivers is put behind the data that is already there.
def readFromSocket (client : TcpClient) (bytes : List UInt8) : TcpClient where
  buffer i := if i < client.dataSize.toNat then client.buffer i else
    bytes.getD (i - client.dataSize.toNat) (client.buffer i)
  dataSize := client.dataSize + .ofNat bytes.length

-- The length of the message at the offset, if all of it has arrived.
def complete? (client : TcpClient) (offset : UInt64) : Option UInt16 :=
  if client.dataSize - offset ≥ 2 then
    let messageLength := be16toh (client.buffer.load16 offset.toNat)
    if client.dataSize - offset < 2 + messageLength.toUInt64 then none else some messageLength
  else
    none

section Termination

variable {client : TcpClient} {offset : UInt64} {messageLength : UInt16}

theorem complete?_le (h : client.complete? offset = some messageLength) :
    2 + messageLength.toUInt64 ≤ client.dataSize - offset := by
  unfold complete? at h
  split at h
  case isFalse => contradiction
  case isTrue =>
    simp only at h
    split at h
    case isTrue     => contradiction
    case isFalse hl => cases h; exact UInt64.not_lt.mp hl

theorem messageSize_toNat : (2 + messageLength.toUInt64).toNat = 2 + messageLength.toNat := by
  have hl : messageLength.toUInt64.toNat = messageLength.toNat := UInt16.toNat_toUInt64 _
  have hm := messageLength.toNat_lt
  have h2 : (2 : UInt64).toNat = 2 := rfl
  rw [UInt64.toNat_add_of_lt (by omega), hl, h2]

-- A message takes at least its two length bytes from what is left, also if the offset were too large.
theorem left_decreases (h : client.complete? offset = some messageLength) :
    (client.dataSize - (offset + (2 + messageLength.toUInt64))).toNat + 2 ≤ (client.dataSize - offset).toNat := by
  have hle := complete?_le h
  have hs : client.dataSize - (offset + (2 + messageLength.toUInt64)) =
      client.dataSize - offset - (2 + messageLength.toUInt64) := by grind
  have hle' := UInt64.le_iff_toNat_le.mp hle
  rw [hs, UInt64.toNat_sub_of_le _ _ hle, messageSize_toNat]
  rw [messageSize_toNat] at hle'
  omega

end Termination

-- The loop over the complete messages. Its second result is the offset behind them.
def processMessages (handle : σ → Memory → UInt16 → σ) (client : TcpClient) (offset : UInt64) (s : σ) :
    σ × UInt64 :=
  match h : client.complete? offset with
  | none               => (s, offset)
  | some messageLength =>
    processMessages handle client (offset + (2 + messageLength.toUInt64))
      (handle s (client.buffer.shift offset.toNat) (2 + messageLength))
termination_by (client.dataSize - offset).toNat
decreasing_by have := left_decreases h; omega

-- `memmove` of the leftover data to the front of the buffer
def dropFront (client : TcpClient) (offset : UInt64) : TcpClient where
  buffer i := if i < (client.dataSize - offset).toNat then client.buffer (offset.toNat + i) else client.buffer i
  dataSize := client.dataSize - offset

def processBuffer (handle : σ → Memory → UInt16 → σ) (client : TcpClient) (s : σ) : TcpClient × σ :=
  let (s, offset) := client.processMessages handle 0 s
  if offset > 0 then (client.dropFront offset, s) else (client, s)

-- What a read of the socket comes to. No bytes mean that the connection has been closed.
inductive SocketRead
  | bytes (bytes : List UInt8)
  | error
  deriving DecidableEq

-- A round of the loop in `startRead`: whether a stop has been requested before it, and its read.
abbrev Round := Bool × SocketRead

def startRead (handle : σ → Memory → UInt16 → σ) : TcpClient × σ → List Round → TcpClient × σ
  | c, []                                => c
  | c, (stopRequested, result) :: rounds =>
    if stopRequested then
      c
    else
      match result with
      | .error       => c
      | .bytes bytes =>
        if bytes.isEmpty then c else startRead handle ((c.1.readFromSocket bytes).processBuffer handle c.2) rounds

end TcpClient
