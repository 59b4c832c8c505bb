import BistHft.Client.Theorems.Responses
import Mathlib.Data.List.DropRight

-- What the client knows about its session with the exchange, over any sequence of packets.

-- What `handleMessage` is called with.
structure Inbound where
  data   : Memory
  length : UInt16

def Inbound.type (p : Inbound) : UInt8 :=
  p.data 2

namespace BistMarketAccessor

variable {a : BistMarketAccessor} {partition : OrderEntryPartitionConfig} {exchangeInfo : ExchangeInfo} {last : Int32}
variable {data : Memory} {length : UInt16} {p : Inbound} {packets : List Inbound} {types : List UInt8} {n k : ℕ}

def handlePackets (a : BistMarketAccessor) (packets : List Inbound) : BistMarketAccessor :=
  packets.foldl (fun a p => TcpClient.handleMessage a p.data p.length) a

theorem handlePackets_concat :
    a.handlePackets (packets ++ [p]) = TcpClient.handleMessage (a.handlePackets packets) p.data p.length :=
  List.foldl_concat ..

section Packets

theorem onLoginAccepted_session {m : LoginAccepted} :
    (a.onLoginAccepted m).state = .continuous ∧ (a.onLoginAccepted m).sequenceNumber = a.sequenceNumber := by
  rw [onLoginAccepted]
  dsimp only
  split
  case isTrue  => exact ⟨rfl, rfl⟩
  case isFalse => exact ⟨rfl, rfl⟩

theorem sendReplaceOrder_session {token : OrderToken} {price : Int32} :
    (a.sendReplaceOrder token price).state = a.state ∧
      (a.sendReplaceOrder token price).sequenceNumber = a.sequenceNumber :=
  ⟨rfl, rfl⟩

theorem handleSequencedData_session :
    (TcpClient.handleSequencedData a data length).state = a.state ∧
      (TcpClient.handleSequencedData a data length).sequenceNumber = a.sequenceNumber := by
  rw [TcpClient.handleSequencedData]
  dsimp only
  split_ifs
  case pos => exact ⟨rfl, rfl⟩
  case pos => exact sendReplaceOrder_session
  all_goals exact ⟨rfl, rfl⟩

-- No packet other than an accepted login has an effect on the state, and none on the sequence number.
theorem handleMessage_session :
    (TcpClient.handleMessage a data length).state =
      (if data 2 = PacketType.loginAccepted.code then .continuous else a.state) ∧
    (TcpClient.handleMessage a data length).sequenceNumber = a.sequenceNumber := by
  rw [TcpClient.handleMessage]
  dsimp only
  split
  case isTrue h =>
    rw [h]
    exact handleSequencedData_session
  case isFalse =>
    split
    case isTrue h =>
      rw [h]
      exact ⟨rfl, rfl⟩
    case isFalse =>
      split
      case isTrue  => exact onLoginAccepted_session
      case isFalse => exact ⟨rfl, rfl⟩

end Packets

section State

theorem handlePackets_state (h : a.state ≠ .continuous) :
    (a.handlePackets packets).state = .continuous ↔ PacketType.loginAccepted.code ∈ packets.map Inbound.type := by
  induction packets using List.reverseRecOn
  case nil => simpa [handlePackets] using h
  case append_singleton packets p hi =>
    rw [handlePackets_concat, handleMessage_session.left, List.map_append, List.mem_append, ← hi, List.map_singleton,
      List.mem_singleton]
    split
    case isTrue hp  => exact iff_of_true rfl (.inr hp.symm)
    case isFalse hp => exact (or_iff_left (Ne.symm hp)).symm

-- The packets that have come in since the last accepted login.
def sinceLogin (types : List UInt8) : List UInt8 :=
  types.rtakeWhile (· ≠ PacketType.loginAccepted.code)

def Ended (types : List UInt8) : Prop :=
  PacketType.loginRejected.code ∈ sinceLogin types ∨ PacketType.endOfSession.code ∈ sinceLogin types

def LoggedIn (types : List UInt8) : Prop :=
  PacketType.loginAccepted.code ∈ types ∧ ¬Ended types

-- The end of a session is not noticed.
theorem continuous_iff_loggedIn_iff :
    (((ofPartition partition exchangeInfo last).handlePackets packets).state = .continuous ↔
      LoggedIn (packets.map Inbound.type)) ↔
    (PacketType.loginAccepted.code ∈ packets.map Inbound.type → ¬Ended (packets.map Inbound.type)) := by
  have hs : (ofPartition partition exchangeInfo last).state ≠ .continuous := State.noConfusion
  rw [handlePackets_state hs, LoggedIn, iff_self_and]

def sampleInbound (packetType : PacketType) : Inbound where
  data   := soupbinHeader packetType 0
  length := 3

theorem continuous_after_end :
    ¬∀ partition exchangeInfo last packets,
      ((ofPartition partition exchangeInfo last).handlePackets packets).state = .continuous ↔
        LoggedIn (packets.map Inbound.type) := by
  intro h
  have hl := h samplePartition sampleExchangeInfo 0 [sampleInbound .loginAccepted, sampleInbound .endOfSession]
  have hs : (ofPartition samplePartition sampleExchangeInfo 0).state ≠ .continuous := State.noConfusion
  rw [handlePackets_state hs] at hl
  exact (hl.mp (by decide)).right (.inr (by decide))

end State

section SequenceNumber

def decimal (n : ℕ) : List UInt8 :=
  (Nat.toDigits 10 n).map Char.toUInt8

theorem toUInt8_toNat {c : Char} (h : c.isDigit) : c.toUInt8.toNat = c.toNat := by
  have hc : c.toNat ≤ '9'.toNat := (Char.isDigit_iff_toNat.mp h).right
  exact Nat.mod_eq_of_lt (Nat.lt_of_le_of_lt hc (by decide))

theorem decimal_inj (h : decimal n = decimal k) : n = k := by
  have ht {n} : (decimal n).map UInt8.toNat = (Nat.toDigits 10 n).map Char.toNat := by
    rw [decimal, List.map_map]
    exact List.map_congr_left fun c hc => toUInt8_toNat (Nat.isDigit_of_mem_toDigits (by decide) (by decide) hc)
  have hd : Nat.toDigits 10 n = Nat.toDigits 10 k :=
    List.map_injective_iff.mpr (fun _ _ => Char.toNat_inj.mp) (ht.symm.trans <| h ▸ ht)
  rw [← Nat.ofDigitChars_ten_toDigits (n := n), hd, Nat.ofDigitChars_ten_toDigits]

theorem space_notMem_decimal : ' '.toUInt8 ∉ decimal n := by
  intro h
  have ⟨c, hc, hs⟩ := List.mem_map.mp h
  have hd := Nat.isDigit_of_mem_toDigits (by decide) (by decide) hc
  have hn : '0'.toNat ≤ ' '.toNat := calc
    '0'.toNat ≤ c.toNat          := (Char.isDigit_iff_toNat.mp hd).left
    _         = c.toUInt8.toNat  := (toUInt8_toNat hd).symm
    _         = ' '.toNat        := congrArg UInt8.toNat hs
  contradiction

theorem toPaddedArray_length {input : List UInt8} : (toPaddedArray n input).length = n := by
  rw [toPaddedArray, List.length_append, List.length_take, List.length_replicate]
  omega

-- The digits are all that is not a space.
theorem toPaddedArray_decimal : (toPaddedArray k (decimal n)).filter (· ≠ ' '.toUInt8) = (decimal n).take k := by
  have hd : ∀ b ∈ (decimal n).take k, decide (b ≠ ' '.toUInt8) = true := by
    intro b hb
    exact decide_eq_true fun he => space_notMem_decimal (he ▸ List.mem_of_mem_take hb)
  rw [toPaddedArray, List.filter_append, List.filter_eq_self.mpr hd, List.filter_replicate_of_neg (by simp), List.append_nil]

theorem toPaddedArray_decimal_inj (h : toPaddedArray 20 (decimal n) = toPaddedArray 20 (decimal k))
    (hl : (decimal n).length < 20) : n = k := by
  have ht : (decimal n).take 20 = (decimal k).take 20 := by
    rw [← toPaddedArray_decimal, h, toPaddedArray_decimal]
  have hk : (decimal k).length < 20 := by
    have he := congrArg List.length ht
    rw [List.length_take, List.length_take] at he
    omega
  rw [List.take_of_length_le hl.le, List.take_of_length_le hk.le] at ht
  exact decimal_inj ht

theorem handlePackets_sequenceNumber : (a.handlePackets packets).sequenceNumber = a.sequenceNumber := by
  induction packets using List.reverseRecOn
  case nil                           => rfl
  case append_singleton packets p hi => rw [handlePackets_concat, handleMessage_session.right, hi]

-- The message that is requested is the one that follows the first `n`.
def Resumes (a : BistMarketAccessor) (n : ℕ) : Prop :=
  ∃ frame, a.login.written = a.written ++ [frame] ∧ (frame.drop 29).take 20 = toPaddedArray 20 (decimal (1 + n))

theorem login_written : ∃ frame, a.login.written = a.written ++ [frame] ∧
    (frame.drop 29).take 20 = toPaddedArray 20 (decimalString <| a.sequenceNumber + 1) := by
  refine ⟨_, rfl, ?_⟩
  rw [Memory.bytes_add (n := 29) (k := 20), List.drop_left' Memory.bytes_length, Nat.zero_add,
    Memory.bytes_store toPaddedArray_length, List.take_of_length_le toPaddedArray_length.le]

theorem resumes_iff (h : a.sequenceNumber = 0) : a.Resumes n ↔ n = 0 := by
  have ⟨frame, hw, hs⟩ := a.login_written
  rw [h] at hs
  constructor
  case mp =>
    intro ⟨frame', hw', hs'⟩
    cases (List.append_inj' (hw.symm.trans hw') rfl).right
    have hn := toPaddedArray_decimal_inj (n := 1) (k := 1 + n) (hs.symm.trans hs') (by decide)
    exact Nat.add_left_cancel hn.symm
  case mpr =>
    rintro rfl
    exact ⟨frame, hw, hs⟩

-- The number is never counted up, so that each login asks for the first message.
theorem resumes_iff_none :
    ((ofPartition partition exchangeInfo last).handlePackets packets).Resumes
      ((packets.map Inbound.type).count PacketType.sequencedData.code) ↔
    PacketType.sequencedData.code ∉ packets.map Inbound.type := by
  rw [resumes_iff handlePackets_sequenceNumber, List.count_eq_zero]

theorem replayed_after_data :
    ¬∀ partition exchangeInfo last packets,
      ((ofPartition partition exchangeInfo last).handlePackets packets).Resumes
        ((packets.map Inbound.type).count PacketType.sequencedData.code) := by
  intro h
  have hr := h samplePartition sampleExchangeInfo 0 [sampleInbound .sequencedData]
  rw [resumes_iff handlePackets_sequenceNumber] at hr
  exact absurd hr (by decide)

end SequenceNumber

end BistMarketAccessor
