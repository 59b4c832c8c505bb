import BistHft.Protocol.ItchParser

inductive State
  | initial
  | joined
  | snapshotting
  | rewinding
  | continuous
  deriving DecidableEq, Repr

structure RewindRequest where
  sequenceNumber : UInt64
  messageCount   : UInt16

inductive SequenceGapParseResult
  | noGap
  | gapDetected
  deriving DecidableEq, Repr

-- The members that keep track of sequence numbers. The top of the vector is its last element.
structure Recovery where
  missingSequenceNumbers                      : List UInt64 := []
  lastRequestedSequenceNumber                 : UInt64 := 0
  rewindNeededTillThisSequenceNumberExclusive : UInt64 := 0
  sessionName                                 : List UInt8 := .replicate 10 0
  sessionNameSet                              : Bool := false
  nextExpectedSeqNo                           : UInt64 := 1
  state                                       : State := .initial
  -- what has been asked for with `requestMissingPackets`, and what that has put on the wire
  requests                                    : List (UInt64 × UInt64) := []
  written                                     : List DownstreamHeader := []
  deriving DecidableEq

-- The counter of the loop is compared with a sum that may wrap. Then the loop body never runs.
def populateVector (a : UInt64) (b : UInt16) : List UInt64 :=
  if a < a + b.toUInt64 then
    (List.range b.toNat).map fun i => a + .ofNat i
  else
    .replicate b.toNat 0

-- `for (uint64_t i = sequence_number - 1; i > 0; --i)`
def missingBefore (sequenceNumber : UInt64) : List UInt64 :=
  ((List.range (sequenceNumber - 1).toNat).map fun i => .ofNat (i + 1)).reverse

-- The loop over the sequence numbers of a datagram while rewinding. `back()` comes first.
def popReceived : List UInt64 → List UInt64 → Except Fault (List UInt64)
  | missing, []      => .ok missing
  | missing, n :: ns =>
    match missing.getLast? with
    | none      => .error .backOfEmpty
    | some back => popReceived (if back = n then missing.dropLast else missing) ns

namespace Recovery

def calculateNextSequenceNumber (r : Recovery) (receivedSequenceNumber : UInt64) (messageCount : UInt16) :
    SequenceGapParseResult × Recovery :=
  let gap :=
    if r.nextExpectedSeqNo ≠ 0 ∧ receivedSequenceNumber ≠ r.nextExpectedSeqNo then
      SequenceGapParseResult.gapDetected
    else
      .noGap
  (gap, { r with nextExpectedSeqNo := receivedSequenceNumber + messageCount.toUInt64 })

def rewind (r : Recovery) (request : RewindRequest) : Recovery :=
  { r with
    state   := .rewinding
    written := r.written ++ [{
      session        := r.sessionName
      sequenceNumber := htobe64 request.sequenceNumber
      messageCount   := htobe16 request.messageCount
    }]
  }

def requestMissingPackets (r : Recovery) (expectedSequenceNumber receivedSequenceNumber : UInt64) : Recovery :=
  if receivedSequenceNumber > expectedSequenceNumber then
    let r := { r with requests := r.requests ++ [(expectedSequenceNumber, receivedSequenceNumber)] }
    r.rewind {
      sequenceNumber := expectedSequenceNumber
      messageCount   := (receivedSequenceNumber - expectedSequenceNumber).toUInt16
    }
  else
    r

-- With nothing left to rewind the client is done, otherwise it asks for the rest, once.
def continueRewinding (r : Recovery) : Recovery :=
  match r.missingSequenceNumbers.getLast?, r.missingSequenceNumbers.head? with
  | some back, some front =>
    if r.lastRequestedSequenceNumber ≠ back then
      { r with lastRequestedSequenceNumber := back }.requestMissingPackets back (front + 1)
    else
      r
  | _, _ => { r with state := .continuous }

-- What `parse` does in the state `Rewinding`.
def whileRewinding (r : Recovery) (sequenceNumber : UInt64) (messageCount : UInt16) :
    Except Fault Recovery := do
  let missing ← popReceived r.missingSequenceNumbers (populateVector sequenceNumber messageCount)
  return { r with missingSequenceNumbers := missing }.continueRewinding

-- What `parse` does when the first datagram to arrive is not the first of the session.
def initialSync (r : Recovery) (sequenceNumber : UInt64) : Recovery :=
  { r with
    missingSequenceNumbers := r.missingSequenceNumbers ++ missingBefore sequenceNumber
    lastRequestedSequenceNumber := 1
    rewindNeededTillThisSequenceNumberExclusive := sequenceNumber
  }.requestMissingPackets 1 sequenceNumber

-- The check for missing packets in the normal flow. The expected sequence number that it asks for
-- has already been moved past the datagram.
def checkGap (r : Recovery) (sequenceNumber : UInt64) (messageCount : UInt16) : Recovery :=
  if sequenceNumber > r.rewindNeededTillThisSequenceNumberExclusive then
    match r.calculateNextSequenceNumber sequenceNumber messageCount with
    | (.gapDetected, r) => r.requestMissingPackets r.nextExpectedSeqNo sequenceNumber
    | (.noGap, r)       => r
  else
    r

def SyncNeeded (r : Recovery) (sequenceNumber : UInt64) : Prop :=
  r.state = .initial ∧ sequenceNumber ≠ 1 ∧ r.nextExpectedSeqNo = 1

instance {r : Recovery} {sequenceNumber : UInt64} : Decidable (r.SyncNeeded sequenceNumber) :=
  inferInstanceAs (Decidable (_ ∧ _ ∧ _))

-- Everything that `parse` does once the payload has been handed to the builder.
def track (r : Recovery) (sequenceNumber : UInt64) (messageCount : UInt16) : Except Fault Recovery :=
  if r.state = .rewinding then do
    let r ← r.whileRewinding sequenceNumber messageCount
    return r.checkGap sequenceNumber messageCount
  else if r.SyncNeeded sequenceNumber then
    .ok (r.initialSync sequenceNumber)
  else
    .ok (r.checkGap sequenceNumber messageCount)

end Recovery

structure MarketDataClient extends Recovery where
  builder    : OrderbookBuilder := {}
  itchParser : ItchParser := {}
  deriving DecidableEq

namespace MarketDataClient

def parse (client : MarketDataClient) (buffer : Memory) : Except Fault MarketDataClient := do
  let (itchParser, builder, sequenceNumber, messageCount) ←
    client.itchParser.parse Call.apply client.builder (some buffer)
  let recovery ← client.toRecovery.track sequenceNumber messageCount
  return { toRecovery := recovery, builder, itchParser }

-- The payload is taken to start at the header itself.
def processRewoundPackets (client : MarketDataClient) (header : Memory) : Except Fault MarketDataClient := do
  let builder ← ItchParser.parsePayload Call.apply client.builder header
    (be16toh header.downstreamHeader.messageCount)
  return { client with builder }

end MarketDataClient
