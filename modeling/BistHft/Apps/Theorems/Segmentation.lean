import BistHft.Apps.ExchangeEmulator
import BistHft.Lib.Framing

-- Which packets of a client the emulator gets to see, for any way in which they are cut into reads.

open TcpServer Framing

namespace ExchangeEmulator

variable {server : TcpServer} {clientFd length n k : ℕ} {m m' buffer : Memory} {p c : List UInt8}
variable {reads packets : List (List UInt8)} {calls : List (List (List UInt8))}

section Handler

-- The reaction to a read, from which nothing but the bytes of the read matters.
def reaction (clientFd : ℕ) (read : List UInt8) : Reaction :=
  handleSoupBinTcpMessage clientFd (.ofList read) read.length

def Disconnects (clientFd : ℕ) (read : List UInt8) : Prop :=
  reaction clientFd read = .disconnectClient

instance : DecidablePred (Disconnects clientFd) :=
  fun _ => inferInstanceAs (Decidable (_ = _))

-- The packet that is looked at in a read.
def packet? (clientFd : ℕ) (read : List UInt8) : Option (List UInt8) :=
  match reaction clientFd read with
  | .tooShort | .incomplete => none
  | .invalidLoginRequest | .sendToClient _ | .disconnectClient | .nothing =>
    some (read.take (2 + (be16toh ((Memory.ofList read).load16 0)).toNat))

theorem handleSoupBinTcpMessage_congr (h : m.AgreeOn m' 0 length) :
    handleSoupBinTcpMessage clientFd m length = handleSoupBinTcpMessage clientFd m' length := by
  have hb {o k} (hl : o + k ≤ length) : m.bytes o k = m'.bytes o k :=
    Memory.bytes_congr fun i _ hu => h i (Nat.zero_le i) (by omega)
  rw [handleSoupBinTcpMessage, handleSoupBinTcpMessage]
  split
  case isTrue => rfl
  case isFalse hl =>
    have h2 : m 2 = m' 2 := h 2 (by decide) (by omega)
    rw [Memory.load16_congr (hb (o := 0) (by omega)), h2]
    split_ifs
    case neg hl => rw [hb (by omega), hb (by omega), hb (by omega)]
    all_goals rfl

theorem reaction_of_holds (h : m.Holds c) : handleSoupBinTcpMessage clientFd m c.length = reaction clientFd c :=
  handleSoupBinTcpMessage_congr <| Memory.bytes_eq_iff.mp (h.trans Memory.holds_ofList.symm)

theorem packet?_eq : packet? clientFd c =
    if c.length < 3 ∨ c.length < 2 + (be16toh ((Memory.ofList c).load16 0)).toNat then
      none
    else
      some (c.take (2 + (be16toh ((Memory.ofList c).load16 0)).toNat)) := by
  rw [packet?, reaction, handleSoupBinTcpMessage]
  dsimp only
  cases Nat.lt_or_ge c.length 3
  case inl h3 => rw [if_pos h3, if_pos (.inl h3)]
  case inr h3 =>
    rw [if_neg (Nat.not_lt_of_ge h3)]
    cases Nat.lt_or_ge c.length (2 + (be16toh ((Memory.ofList c).load16 0)).toNat)
    case inl hl => rw [if_pos hl, if_pos (.inr hl)]
    case inr hl =>
      have hn : ¬(c.length < 3 ∨ c.length < 2 + (be16toh ((Memory.ofList c).load16 0)).toNat) :=
        not_or.mpr ⟨Nat.not_lt_of_ge h3, Nat.not_lt_of_ge hl⟩
      rw [if_neg (Nat.not_lt_of_ge hl), if_neg hn]
      split_ifs <;> rfl

def CredentialsAt (m : Memory) : Prop :=
  trimString (m.bytes 3 6) = text "TEST" ∧ trimString (m.bytes 9 10) = text "TEST_PWD"

theorem disconnectClient_iff : handleSoupBinTcpMessage clientFd m n = .disconnectClient ↔
    3 ≤ n ∧ 2 + (be16toh (m.load16 0)).toNat ≤ n ∧
      (m 2 = PacketType.loginRequest.code ∧ 49 ≤ n ∧ ¬CredentialsAt m ∨ m 2 = PacketType.logoutRequest.code) := by
  rw [handleSoupBinTcpMessage]
  dsimp only
  split
  case isTrue h3 => exact iff_of_false (by simp) fun h => Nat.not_lt_of_ge h.left h3
  case isFalse h3 =>
    rw [and_iff_right (Nat.le_of_not_lt h3)]
    split
    case isTrue hl => exact iff_of_false (by simp) fun h => Nat.not_lt_of_ge h.left hl
    case isFalse hl =>
      rw [and_iff_right (Nat.le_of_not_lt hl)]
      split
      case isTrue ht =>
        have hn : m 2 ≠ PacketType.logoutRequest.code := by rw [ht]; decide
        rw [or_iff_left hn, and_iff_right ht]
        split
        case isTrue h49 => exact iff_of_false (by simp) fun h => Nat.not_lt_of_ge h.left h49
        case isFalse h49 =>
          rw [and_iff_right (Nat.le_of_not_lt h49)]
          split
          case isTrue hc =>
            split
            case isTrue  => exact iff_of_false (by simp) (not_not.mpr hc)
            case isFalse => exact iff_of_false (by simp) (not_not.mpr hc)
          case isFalse hc => exact iff_of_true rfl hc
      case isFalse ht =>
        rw [or_iff_right fun h => ht h.left]
        split
        case isTrue hn  => exact iff_of_true rfl hn
        case isFalse hn => exact iff_of_false (by simp) hn

end Handler

section Packets

-- The length in front of the packet is that of what follows it.
def IsPacket (p : List UInt8) : Prop :=
  ∃ payload, p = pack16 (.ofNat payload.length) ++ payload ∧ payload.length < 2 ^ 16

theorem IsPacket.length_eq (h : IsPacket p) (hc : p <+: c) :
    2 + (be16toh ((Memory.ofList c).load16 0)).toNat = p.length := by
  obtain ⟨payload, rfl, hl⟩ := h
  obtain ⟨x, rfl⟩ := hc
  rw [List.append_assoc]
  have hm : (Memory.ofList (pack16 (.ofNat payload.length) ++ (payload ++ x))).Holds _ := Memory.holds_ofList
  have hb := hm.take
  rw [Memory.Holds, pack16_length] at hb
  rw [load16_pack hb, UInt16.toNat_ofNat_of_lt' hl, List.length_append, pack16_length]

theorem Disconnects.of_prefix (h : Disconnects clientFd p) (hc : p <+: c) : 3 ≤ p.length ∧ Disconnects clientFd c := by
  obtain ⟨x, rfl⟩ := hc
  have ⟨h3, hl, ht⟩ := disconnectClient_iff.mp h
  refine ⟨h3, disconnectClient_iff.mpr ?_⟩
  have hm : (Memory.ofList p).AgreeOn (.ofList (p ++ x)) 0 p.length :=
    Memory.bytes_eq_iff.mp <| Memory.holds_ofList.trans Memory.holds_ofList.take.symm
  have hb {o k} (hu : o + k ≤ p.length) : (Memory.ofList p).bytes o k = (Memory.ofList (p ++ x)).bytes o k :=
    Memory.bytes_congr fun i _ hi => hm i (Nat.zero_le i) (by omega)
  have h2 : Memory.ofList p 2 = Memory.ofList (p ++ x) 2 := hm 2 (by decide) (by omega)
  rw [← Memory.load16_congr (hb (o := 0) (by omega)), ← h2, List.length_append]
  refine ⟨by omega, by omega, ht.imp_left fun ⟨hr, h49, hc⟩ => ⟨hr, by omega, ?_⟩⟩
  rwa [CredentialsAt, ← hb (by omega), ← hb (by omega)]

theorem receives (h : ∀ p ∈ packets, IsPacket p) :
    Receives (Disconnects clientFd) (3 ≤ List.length ·) (packet? clientFd) packets where
  isPrefix {c p} hp := by
    rw [packet?_eq, Option.ite_none_left_eq_some, Option.some.injEq] at hp
    exact hp.right ▸ List.take_prefix ..
  first?_eq p hp h3 c hc := by
    have hl := (h p hp).length_eq hc
    have hle := hc.length_le
    rw [packet?_eq, hl, if_neg (by omega), ← List.prefix_iff_eq_take.mp hc]
  is_whole p hp hw := by
    rw [packet?_eq, Option.ite_none_left_eq_some] at hw
    omega
  ends hd := ⟨(hd.of_prefix List.prefix_rfl).left, fun hc => (hd.of_prefix hc).right⟩

end Packets

section Reads

-- The calls of `handleClientData` for a client. Each of them reads until nothing is left to be read.
def serve (server : TcpServer) (clientFd : ℕ) (calls : List (List (List UInt8))) : TcpServer :=
  calls.foldl (fun server reads =>
    handleClientData messageHandler server clientFd (reads.map .bytes ++ [.wouldBlock])) server

-- The packets that are looked at meanwhile, with their offsets in the stream.
def dispatched (server : TcpServer) (clientFd : ℕ) (calls : List (List (List UInt8))) : List (ℕ × List UInt8) :=
  let handled := (serve server clientFd calls).handled.drop server.handled.length
  looks (packet? clientFd) (positions 0 (handled.map Prod.snd))

theorem messageHandler_handled : (messageHandler server clientFd m n).handled = server.handled := by
  rw [messageHandler]
  cases handleSoupBinTcpMessage clientFd m n
  case sendToClient =>
    dsimp only
    rw [sendToClient]
    split <;> rfl
  all_goals rfl

theorem messageHandler_clients : (messageHandler server clientFd m n).clients =
    if handleSoupBinTcpMessage clientFd m n = .disconnectClient then
      server.clients.erase clientFd
    else
      server.clients := by
  rw [messageHandler]
  cases handleSoupBinTcpMessage clientFd m n
  case disconnectClient => rfl
  case sendToClient bytes =>
    have hn : Reaction.sendToClient bytes ≠ .disconnectClient := by simp
    rw [if_neg hn]
    dsimp only
    rw [sendToClient]
    split <;> rfl
  all_goals rfl

-- What a read makes of the server.
def afterRead (server : TcpServer) (clientFd : ℕ) (buffer : Memory) (c : List UInt8) : TcpServer :=
  messageHandler (server.recordHandled clientFd c) clientFd (buffer.store 0 c) c.length

theorem afterRead_handled : (afterRead server clientFd buffer c).handled = server.handled ++ [(clientFd, c)] :=
  messageHandler_handled

theorem mem_afterRead_clients_iff (h : clientFd ∈ server.clients) :
    clientFd ∈ (afterRead server clientFd buffer c).clients ↔ ¬Disconnects clientFd c := by
  have hr : handleSoupBinTcpMessage clientFd (buffer.store 0 c) c.length = reaction clientFd c :=
    reaction_of_holds (Memory.bytes_store rfl)
  rw [afterRead, messageHandler_clients, hr, Disconnects]
  split
  case isTrue hd  => exact iff_of_false (Finset.notMem_erase clientFd _) (not_not.mpr hd)
  case isFalse hd => exact iff_of_true h hd

theorem readAll_of_notMem (buffer : Memory) (results : List ReadResult) (h : clientFd ∉ server.clients) :
    (readAll messageHandler clientFd server buffer results).handled = server.handled ∧
      (readAll messageHandler clientFd server buffer results).clients = server.clients := by
  cases results
  case nil => exact ⟨rfl, rfl⟩
  case cons result results =>
    have hr : readAll messageHandler clientFd server buffer (result :: results) = { server with erased := true } :=
      if_neg h
    exact ⟨hr ▸ rfl, hr ▸ rfl⟩

theorem readAll_bytes {results : List ReadResult} (h : clientFd ∈ server.clients) (hc : c ≠ []) :
    readAll messageHandler clientFd server buffer (.bytes c :: results) =
      readAll messageHandler clientFd (afterRead server clientFd buffer c) (buffer.store 0 c) results := by
  rw [readAll, if_pos h]
  dsimp only
  rw [if_neg (by simpa using hc), Memory.bytes_store rfl]
  rfl

-- A call hands over what it reads, as far as to a read that makes the handler disconnect the client.
theorem readAll_handled (buffer : Memory) (hs : clientFd ∈ server.clients) (hn : ∀ c ∈ reads, c ≠ []) :
    (readAll messageHandler clientFd server buffer (reads.map .bytes ++ [.wouldBlock])).handled =
        server.handled ++ (upTo (Disconnects clientFd) reads).map (clientFd, ·) ∧
      (clientFd ∈ (readAll messageHandler clientFd server buffer (reads.map .bytes ++ [.wouldBlock])).clients ↔
        ∀ c ∈ reads, ¬Disconnects clientFd c) := by
  induction reads generalizing server buffer
  case nil =>
    have hr : readAll messageHandler clientFd server buffer ([].map .bytes ++ [.wouldBlock]) = server := if_pos hs
    rw [hr]
    exact ⟨(List.append_nil _).symm, iff_of_true hs (List.forall_mem_nil _)⟩
  case cons c reads hi =>
    obtain ⟨hc, hcs⟩ := List.forall_mem_cons.mp hn
    have hm : clientFd ∈ (afterRead server clientFd buffer c).clients ↔ ¬Disconnects clientFd c :=
      mem_afterRead_clients_iff hs
    rw [List.map_cons, List.cons_append, readAll_bytes hs hc, upTo, List.forall_mem_cons]
    cases Decidable.em (Disconnects clientFd c)
    case inl hd =>
      have hn := mt hm.mp (not_not.mpr hd)
      obtain ⟨hh, hc⟩ := readAll_of_notMem (buffer.store 0 c) (reads.map .bytes ++ [.wouldBlock]) hn
      rw [hh, hc, afterRead_handled, if_pos hd]
      exact ⟨rfl, iff_of_false hn fun h => h.left hd⟩
    case inr hd =>
      obtain ⟨hh, hc⟩ := hi (buffer.store 0 c) (hm.mpr hd) hcs
      rw [hh, hc, afterRead_handled, if_neg hd, and_iff_right hd]
      exact ⟨List.append_assoc .., Iff.rfl⟩

theorem serve_of_notMem (h : clientFd ∉ server.clients) : serve server clientFd calls = server := by
  induction calls
  case nil => rfl
  case cons reads calls hi =>
    have hc : handleClientData messageHandler server clientFd (reads.map .bytes ++ [.wouldBlock]) = server := if_neg h
    rw [serve, List.foldl_cons, hc]
    exact hi

theorem serve_handled (hs : clientFd ∈ server.clients) (hn : ∀ c ∈ calls.flatten, c ≠ []) :
    (serve server clientFd calls).handled =
      server.handled ++ (upTo (Disconnects clientFd) calls.flatten).map (clientFd, ·) := by
  induction calls generalizing server
  case nil => exact (List.append_nil _).symm
  case cons reads calls hi =>
    rw [List.flatten_cons, List.forall_mem_append] at hn
    have hc : handleClientData messageHandler server clientFd (reads.map .bytes ++ [.wouldBlock]) =
        readAll messageHandler clientFd server .zeros (reads.map .bytes ++ [.wouldBlock]) := if_pos hs
    have ⟨hh, hm⟩ := readAll_handled .zeros hs hn.left
    rw [serve, List.foldl_cons, List.flatten_cons, hc]
    cases Classical.em (∀ c ∈ reads, ¬Disconnects clientFd c)
    case inl ha =>
      rw [upTo_append_of_forall ha, List.map_append, ← List.append_assoc]
      refine (hi (hm.mpr ha) hn.right).trans ?_
      rw [hh, upTo_eq_self ha]
    case inr he =>
      have hu : ∃ c ∈ reads, Disconnects clientFd c := by simpa using he
      rw [upTo_append_of_exists hu, ← hh]
      exact congrArg handled <| serve_of_notMem (mt hm.mp he)

-- Several packets in a read, or a packet in several reads, and there are packets that are never seen.
theorem dispatched_iff (hs : clientFd ∈ server.clients) (hp : ∀ p ∈ packets, IsPacket p)
    (hr : ∀ c ∈ calls.flatten, 1 ≤ c.length ∧ c.length ≤ TcpServer.bufferSize)
    (hf : calls.flatten.flatten = packets.flatten) :
    dispatched server clientFd calls = positions 0 (upTo (Disconnects clientFd) packets) ↔
      OnePerRead (Disconnects clientFd) (3 ≤ List.length ·) packets calls.flatten := by
  have hn c (hc : c ∈ calls.flatten) : c ≠ [] := List.ne_nil_of_length_pos (hr c hc).left
  have hd : dispatched server clientFd calls =
      looks (packet? clientFd) (positions 0 (upTo (Disconnects clientFd) calls.flatten)) := by
    rw [dispatched, serve_handled hs hn, List.drop_left, List.map_map]
    congr 2
    exact List.map_id _
  rw [hd]
  exact looks_eq_iff (receives hp) hn hf

section Samples

def sampleServer : TcpServer where
  clients := {5}

def heartbeatPacket : List UInt8 := [0, 1, 0x52]

def logoutPacket : List UInt8 := [0, 1, 0x4f]

theorem heartbeatPacket_isPacket : IsPacket heartbeatPacket :=
  ⟨[0x52], rfl, by decide⟩

theorem logoutPacket_isPacket : IsPacket logoutPacket :=
  ⟨[0x4f], rfl, by decide⟩

theorem dispatched_iff_sample :
    dispatched sampleServer 5 [[heartbeatPacket], [logoutPacket]] =
        positions 0 (upTo (Disconnects 5) [heartbeatPacket, logoutPacket]) ↔
      OnePerRead (Disconnects 5) (3 ≤ List.length ·) [heartbeatPacket, logoutPacket] [heartbeatPacket, logoutPacket] :=
  dispatched_iff (by decide)
    (List.forall_mem_cons.mpr ⟨heartbeatPacket_isPacket, List.forall_mem_singleton.mpr logoutPacket_isPacket⟩)
    (by decide) (by decide)

theorem coalesced_packets_lost :
    ¬∀ server clientFd packets calls, clientFd ∈ server.clients → (∀ p ∈ packets, IsPacket p) →
      (∀ c ∈ calls.flatten, 1 ≤ c.length ∧ c.length ≤ TcpServer.bufferSize) → calls.flatten.flatten = packets.flatten →
      dispatched server clientFd calls = positions 0 (upTo (Disconnects clientFd) packets) := by
  intro h
  have hp : ∀ p ∈ [heartbeatPacket, heartbeatPacket], IsPacket p :=
    List.forall_mem_cons.mpr ⟨heartbeatPacket_isPacket, List.forall_mem_singleton.mpr heartbeatPacket_isPacket⟩
  have hd := h sampleServer 5 [heartbeatPacket, heartbeatPacket] [[heartbeatPacket ++ heartbeatPacket]]
    (by decide) hp (by decide) (by decide)
  exact absurd hd (by decide +kernel)

end Samples

end Reads

end ExchangeEmulator
