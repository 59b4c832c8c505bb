import BistHft.Client.Theorems.Responses
import BistHft.Network.Theorems.Framing

-- The branches of `handleMessage`, and the struct that each of them fills from the packet.

namespace TcpClient

variable {client : TcpClient} {a : BistMarketAccessor} {data : Memory} {length : UInt16} {offset : UInt64}
variable {fs : List (Memory × UInt16)} {size : ℕ}

inductive Branch
  | orderCanceled
  | orderAccepted
  | orderExecuted
  | orderReplaced
  | orderRejected
  | unexpectedPayload
  | serverHeartbeat
  | loginAccepted
  | loginRejected
  | endOfSession
  | unidentified
  deriving DecidableEq

-- A `memcpy` from an offset of the packet into a struct of the given size.
structure Copy where
  offset : ℕ
  count  : ℕ
  size   : ℕ
  deriving DecidableEq

def Copy.Fits (c : Copy) : Prop :=
  c.count ≤ c.size

instance {c : Copy} : Decidable c.Fits :=
  inferInstanceAs (Decidable (_ ≤ _))

-- The struct afterwards. It is zero beyond what has been copied.
def Copy.struct (data : Memory) (c : Copy) : Memory :=
  (data.shift c.offset).copied c.count

namespace Branch

def of (data : Memory) : Branch :=
  let packetType := data 2
  if packetType = PacketType.sequencedData.code then
    let payloadType := data 3
    if payloadType = Ouch.MessageType.orderCanceled.code then orderCanceled
    else if payloadType = Ouch.MessageType.orderAccepted.code then orderAccepted
    else if payloadType = Ouch.MessageType.orderExecuted.code then orderExecuted
    else if payloadType = Ouch.MessageType.orderReplaced.code then orderReplaced
    else if payloadType = Ouch.MessageType.orderRejected.code then orderRejected
    else unexpectedPayload
  else if packetType = PacketType.serverHeartbeat.code then serverHeartbeat
  else if packetType = PacketType.loginAccepted.code then loginAccepted
  else if packetType = PacketType.loginRejected.code then loginRejected
  else if packetType = PacketType.endOfSession.code then endOfSession
  else unidentified

-- `data + sizeof(UnsequencedData)` with `length - sizeof(PacketType)` bytes
def payloadCopy (length : UInt16) (size : ℕ) : Copy where
  offset := 3
  count  := (length.toUInt64 - 1).toNat
  size   := size

def loginCopy (length : UInt16) (size : ℕ) : Copy where
  offset := 0
  count  := length.toNat
  size   := size

def copy? (length : UInt16) : Branch → Option Copy
  | orderCanceled => some (payloadCopy length 37)
  | orderAccepted => some (payloadCopy length 135)
  | orderExecuted => some (payloadCopy length 68)
  | orderReplaced => some (payloadCopy length 145)
  | orderRejected => some (payloadCopy length 27)
  | loginAccepted => some (loginCopy length 33)
  | loginRejected => some (loginCopy length 4)
  | unexpectedPayload | serverHeartbeat | endOfSession | unidentified => none

def clientHeartbeat : List UInt8 :=
  (Memory.zeros |>.store 2 [PacketType.clientHeartbeat.code] |>.store16 0 (be16toh 1)).bytes 0 3

-- What a branch does with the struct that it has filled.
def act (a : BistMarketAccessor) (struct : Memory) : Branch → BistMarketAccessor
  | orderAccepted   => a.respond (.accepted struct.orderAccepted)
  | orderExecuted   => a.respond (.executed struct.ouchOrderExecuted)
  | orderReplaced   => a.respond (.replaced struct.orderReplaced)
  | orderRejected   => a.respond (.rejected struct.orderRejected)
  | serverHeartbeat => a.write clientHeartbeat
  | loginAccepted   => a.onLoginAccepted struct.loginAccepted
  | orderCanceled | unexpectedPayload | loginRejected | endOfSession | unidentified => a

def struct (data : Memory) (length : UInt16) (b : Branch) : Memory :=
  (b.copy? length).elim .zeros (·.struct data)

end Branch

-- Nothing but the branch and its struct matters to `handleMessage`.
theorem handleMessage_act :
    handleMessage a data length = (Branch.of data).act a ((Branch.of data).struct data length) := by
  simp only [handleMessage, handleSequencedData, Branch.of]
  split_ifs <;> rfl

section Frames

-- What `processBuffer` hands to its handler, one entry for each call.

def handOver (fs : List (Memory × UInt16)) (data : Memory) (length : UInt16) : List (Memory × UInt16) :=
  fs ++ [(data, length)]

def frames (client : TcpClient) : List (Memory × UInt16) :=
  (client.processBuffer handOver []).snd

-- A message that is complete at an offset where the loop looks for one.
inductive Frame (client : TcpClient) : Memory → UInt16 → Prop
  | intro {offset messageLength} (reaches : client.Reaches offset)
      (complete : client.complete? offset = some messageLength) :
    Frame client (client.buffer.shift offset.toNat) (2 + messageLength)

theorem mem_processMessages (hr : client.Reaches offset) (h : ∀ f ∈ fs, client.Frame f.fst f.snd) :
    ∀ f ∈ (client.processMessages handOver offset fs).fst, client.Frame f.fst f.snd := by
  induction offset, fs using processMessages.induct handOver client
  case case1 hc =>
    rw [processMessages_none hc]
    exact h
  case case2 offset fs messageLength hc hi =>
    rw [processMessages_some hc]
    refine hi (hr.next hc) fun f hf => ?_
    cases List.mem_append.mp hf
    case inl hf => exact h f hf
    case inr hf => exact List.mem_singleton.mp hf ▸ .intro hr hc

theorem frames_eq : client.frames = (client.processMessages handOver 0 []).fst := by
  rw [frames, processBuffer]
  dsimp only
  split <;> rfl

theorem frame_of_mem (h : (data, length) ∈ client.frames) : client.Frame data length :=
  mem_processMessages .start (List.forall_mem_nil _) _ (frames_eq ▸ h)

-- The length counts the two bytes that announce it as well.
theorem Frame.two_le (hd : client.dataSize.toNat ≤ bufferSize) (h : client.Frame data length) : 2 ≤ length.toNat := by
  cases h
  case intro hr hc =>
    rw [(exact_of_le hd _ hr).right _ hc]
    exact Nat.le_add_right ..

end Frames

namespace Branch

-- The size of the largest packet whose struct has room for what is copied.
def longest? : Branch → Option ℕ
  | orderCanceled => some 38
  | orderAccepted => some 136
  | orderExecuted => some 69
  | orderReplaced => some 146
  | orderRejected => some 28
  | loginAccepted => some 33
  | loginRejected => some 4
  | unexpectedPayload | serverHeartbeat | endOfSession | unidentified => none

theorem payloadCopy_count (h : 1 ≤ length.toNat) : (payloadCopy length size).count = length.toNat - 1 := by
  have hl : length.toUInt64.toNat = length.toNat := UInt16.toNat_toUInt64 _
  have h1 : (1 : UInt64).toNat = 1 := rfl
  have hle : (1 : UInt64) ≤ length.toUInt64 := UInt64.le_iff_toNat_le.mpr (hl.symm ▸ h)
  rw [payloadCopy, UInt64.toNat_sub_of_le _ _ hle, hl, h1]

theorem payloadCopy_fits_iff (h : 1 ≤ length.toNat) : (payloadCopy length size).Fits ↔ length.toNat ≤ size + 1 := by
  rw [Copy.Fits, payloadCopy_count h]
  exact Nat.sub_le_iff_le_add

theorem copy?_fits_iff {b : Branch} (h : 1 ≤ length.toNat) :
    (∀ c ∈ b.copy? length, c.Fits) ↔ ∀ n ∈ b.longest?, length.toNat ≤ n := by
  cases b
  case unexpectedPayload | serverHeartbeat | endOfSession | unidentified => simp [copy?, longest?]
  case loginAccepted | loginRejected => simp [copy?, longest?, loginCopy, Copy.Fits]
  all_goals simp [copy?, longest?, payloadCopy_fits_iff h]

end Branch

-- Each struct has room for its message, but not for the two bytes more that are copied.
theorem copies_fit_iff (hd : client.dataSize.toNat ≤ bufferSize) (h : (data, length) ∈ client.frames) :
    (∀ c ∈ (Branch.of data).copy? length, c.Fits) ↔ ∀ n ∈ (Branch.of data).longest?, length.toNat ≤ n := by
  have hl := (frame_of_mem h).two_le hd
  exact Branch.copy?_fits_iff (Nat.one_le_of_lt hl)

theorem copy?_response (d : Delivery) :
    (Branch.of d.data).copy? d.length = some (Branch.payloadCopy d.length d.response.size) := by
  have hp := d.packetType
  have ht := d.payloadType
  simp only [Branch.of, hp, ht, if_pos]
  cases d.response <;> rfl

-- A response that has arrived as a whole is copied together with the two bytes behind it.
theorem response_overruns (d : Delivery) : ∀ c ∈ (Branch.of d.data).copy? d.length, c.count = c.size + 2 := by
  intro c hc
  have hl := d.complete
  rw [copy?_response, Option.mem_some] at hc
  have hs : (Branch.payloadCopy d.length d.response.size).size = d.response.size := rfl
  rw [← hc, Branch.payloadCopy_count (by omega), hl, hs]
  omega

section Samples

def sampleRejected : Delivery :=
  .of <| .rejected { orderToken := .ofIndex 1 }

-- A buffer in which a rejected order has arrived, and nothing else.
def rejectedClient : TcpClient where
  buffer   := sampleRejected.data
  dataSize := 30

theorem rejectedClient_frames : (sampleRejected.data, 30) ∈ rejectedClient.frames := by
  have hc : rejectedClient.complete? 0 = some 28 := by decide +kernel
  have hn : rejectedClient.complete? (0 + (2 + (28 : UInt16).toUInt64)) = none := complete?_of_lt (by decide)
  rw [frames_eq, processMessages_some hc, processMessages_none hn]
  exact List.mem_singleton.mpr (Prod.ext Memory.shift_zero.symm rfl)

theorem copies_fit_iff_rejected :
    (∀ c ∈ (Branch.of sampleRejected.data).copy? 30, c.Fits) ↔
      ∀ n ∈ (Branch.of sampleRejected.data).longest?, (30 : UInt16).toNat ≤ n :=
  copies_fit_iff (show rejectedClient.dataSize.toNat ≤ bufferSize by decide) rejectedClient_frames

theorem rejected_overruns :
    ¬∀ client : TcpClient, client.dataSize.toNat ≤ bufferSize → ∀ f ∈ client.frames,
      ∀ c ∈ (Branch.of f.fst).copy? f.snd, c.Fits := by
  intro h
  have hf := h rejectedClient (by decide) _ rejectedClient_frames
  have hc : Branch.payloadCopy 30 27 ∈ (Branch.of sampleRejected.data).copy? 30 := rfl
  exact absurd (hf _ hc) (by decide)

end Samples

end TcpClient
