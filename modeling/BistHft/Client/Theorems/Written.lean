import BistHft.Apps.ExchangeEmulator
import BistHft.Client.Theorems.Responses
import BistHft.Network.Theorems.Framing

-- What the client writes, over any sequence of the calls that make it write something.

open TcpClient ExchangeEmulator Framing

namespace BistMarketAccessor

inductive Use
  | login
  | logout
  | sendEnterOrder (orderbookId : UInt32) (side : UInt8) (qty : UInt32) (price : Int32)
  | sendReplaceOrder (originalOrderToken : OrderToken) (price : Int32)
  | sendCancelOrder (originalOrderToken : OrderToken)
  | handleMessage (data : Memory) (length : UInt16)

def perform (a : BistMarketAccessor) : Use → BistMarketAccessor
  | .login                                          => a.login
  | .logout                                         => a.logout
  | .sendEnterOrder orderbookId side qty price      => a.sendEnterOrder orderbookId side qty price
  | .sendReplaceOrder originalOrderToken price      => a.sendReplaceOrder originalOrderToken price
  | .sendCancelOrder originalOrderToken             => a.sendCancelOrder originalOrderToken
  | .handleMessage data length                      => TcpClient.handleMessage a data length

def performAll (a : BistMarketAccessor) (uses : List Use) : BistMarketAccessor :=
  uses.foldl perform a

variable {a a' a'' : BistMarketAccessor} {m : Memory} {n : ℕ} {f : List UInt8} {frames : List (List UInt8)}
variable {use : Use} {uses : List Use} {partition : OrderEntryPartitionConfig} {exchangeInfo : ExchangeInfo} {last : Int32}

@[simp]
theorem performAll_concat : a.performAll (uses ++ [use]) = (a.performAll uses).perform use := by
  simp [performAll]

-- The stream of all that has been written can be taken apart again, by a peer that receives it with
-- the same loop, and each packet passes the checks of the emulator for its length.
structure WellFramed (frames : List (List UInt8)) : Prop where
  isFrame  : ∀ f ∈ frames, IsFrame f
  split    : ∀ reads, Run.Admits (receive (recording fun s _ _ => s)) ({}, (), []) (fun _ => ReadFits) reads →
    reads.flatten = frames.flatten →
    ∃ client, Run.exec (receive (recording fun s _ _ => s)) ({}, (), []) reads = .ok (client, (), frames)
  accepted : ∀ f ∈ frames, ∀ clientFd data, data.Holds f →
    handleSoupBinTcpMessage clientFd data f.length ∉ [.tooShort, .incomplete]

section Frames

theorem isFrame_bytes (h : m.bytes 0 2 = pack16 (.ofNat n)) (hn : 2 + n ≤ bufferSize) : IsFrame (m.bytes 0 (2 + n)) :=
  ⟨m.bytes 2 n, by rw [Memory.bytes_add, h, Memory.bytes_length, Nat.zero_add], by simpa using hn⟩

theorem accepted_of_isFrame (h : IsFrame f) (h3 : 3 ≤ f.length) {clientFd : ℕ} (hm : m.Holds f) :
    handleSoupBinTcpMessage clientFd m f.length ∉ [.tooShort, .incomplete] := by
  have ⟨l, ht, hl⟩ := h.isMessage.header
  have hb := hm.bytes_eq (o := 0) (n := 2) (by omega)
  rw [List.drop_zero, ht] at hb
  have hp : be16toh (m.load16 0) = l := load16_pack hb
  rw [handleSoupBinTcpMessage, if_neg (by omega), hp, if_neg (by omega)]
  dsimp only
  split_ifs <;> simp

theorem split_of_isFrame (hf : ∀ f ∈ frames, IsFrame f) {reads : List (List UInt8)}
    (hr : Run.Admits (receive (recording fun s _ _ => s)) ({}, (), []) (fun _ => ReadFits) reads)
    (hs : reads.flatten = frames.flatten) :
    ∃ client, Run.exec (receive (recording fun s _ _ => s)) ({}, (), []) reads = .ok (client, (), frames) := by
  have ⟨⟨client, s, log⟩, he, hlog, _⟩ := (reads_invariant (fun f h => (hf f h).isMessage) ()).exec
    (admits_stream hr (hs ▸ List.prefix_rfl))
  rw [hs, completed_all] at hlog
  exact ⟨client, hlog ▸ he⟩

theorem wellFramed (h : ∀ f ∈ frames, IsFrame f ∧ 3 ≤ f.length) : WellFramed frames where
  isFrame f hf         := (h f hf).left
  split _ hr hs        := split_of_isFrame (fun f hf => (h f hf).left) hr hs
  accepted f hf _ _ hd := accepted_of_isFrame (h f hf).left (h f hf).right hd

end Frames

section Calls

-- The headers in the three buffers announce the sizes of the buffers.
structure Headed (a : BistMarketAccessor) : Prop where
  enterOrder   : a.enterOrderByteArray.bytes 0 2 = pack16 115
  replaceOrder : a.replaceOrderByteArray.bytes 0 2 = pack16 123
  cancelOrder  : a.cancelOrderByteArray.bytes 0 2 = pack16 16

-- What is written on the way from one state to another are frames, if the headers are right.
structure Extends (a a' : BistMarketAccessor) : Prop where
  headed  : a.Headed → a'.Headed
  written : ∃ frames, a'.written = a.written ++ frames ∧ (a.Headed → ∀ f ∈ frames, IsFrame f ∧ 3 ≤ f.length)

namespace Extends

theorem silent (he : a'.enterOrderByteArray = a.enterOrderByteArray)
    (hr : a'.replaceOrderByteArray = a.replaceOrderByteArray) (hc : a'.cancelOrderByteArray = a.cancelOrderByteArray)
    (hw : a'.written = a.written) : Extends a a' where
  headed h := ⟨he ▸ h.enterOrder, hr ▸ h.replaceOrder, hc ▸ h.cancelOrder⟩
  written  := ⟨[], by simp [hw], fun _ => List.forall_mem_nil _⟩

theorem trans (h : Extends a a') (h' : Extends a' a'') : Extends a a'' where
  headed ha := h'.headed (h.headed ha)
  written   := by
    have ⟨frames, hw, hf⟩ := h.written
    have ⟨frames', hw', hf'⟩ := h'.written
    exact ⟨frames ++ frames', by rw [hw', hw, List.append_assoc],
      fun ha => List.forall_mem_append.mpr ⟨hf ha, hf' (h.headed ha)⟩⟩

theorem of (h : Extends a' a'') (he : a'.enterOrderByteArray = a.enterOrderByteArray)
    (hr : a'.replaceOrderByteArray = a.replaceOrderByteArray) (hc : a'.cancelOrderByteArray = a.cancelOrderByteArray)
    (hw : a'.written = a.written) : Extends a a'' :=
  (silent he hr hc hw).trans h

theorem frame (hh : a.Headed → a'.Headed) (hw : a'.written = a.written ++ [m.bytes 0 (2 + n)])
    (hm : a.Headed → m.bytes 0 2 = pack16 (.ofNat n)) (hn : 1 ≤ n) (hb : 2 + n ≤ bufferSize) : Extends a a' where
  headed  := hh
  written := by
    refine ⟨_, hw, fun ha => List.forall_mem_singleton.mpr ⟨isFrame_bytes (hm ha) hb, ?_⟩⟩
    rw [Memory.bytes_length]
    omega

end Extends

-- A store behind the header leaves it as it is.

theorem header_store {o : ℕ} {bs : List UInt8} (h : 2 ≤ o) : (m.store o bs).bytes 0 2 = m.bytes 0 2 :=
  Memory.bytes_store_of_disjoint (.inl (by omega))

theorem header_store32 {o : ℕ} {x : UInt32} (h : 2 ≤ o) : (m.store32 o x).bytes 0 2 = m.bytes 0 2 :=
  header_store h

theorem header_store64 {o : ℕ} {x : UInt64} (h : 2 ≤ o) : (m.store64 o x).bytes 0 2 = m.bytes 0 2 :=
  header_store h

theorem login_extends : Extends a a.login := by
  refine .frame (n := 47) (fun h => { h with }) rfl (fun _ => ?_) (by decide) (by decide)
  simp (disch := decide) only [header_store]
  exact bytes_store16

theorem sendEnterOrder_extends {orderbookId : UInt32} {side : UInt8} {qty : UInt32} {price : Int32} :
    Extends a (a.sendEnterOrder orderbookId side qty price) := by
  have hm (h : a.Headed) : (a.sendEnterOrder orderbookId side qty price).enterOrderByteArray.bytes 0 2 = pack16 115 := by
    simp (disch := decide) only [sendEnterOrder, write, header_store, header_store32, header_store64]
    exact h.enterOrder
  exact .frame (n := 115) (fun h => { h with enterOrder := hm h }) rfl hm (by decide) (by decide)

theorem sendReplaceOrder_extends {token : OrderToken} {price : Int32} : Extends a (a.sendReplaceOrder token price) := by
  have hm (h : a.Headed) : (a.sendReplaceOrder token price).replaceOrderByteArray.bytes 0 2 = pack16 123 := by
    simp (disch := decide) only [sendReplaceOrder, write, header_store, header_store32]
    exact h.replaceOrder
  exact .frame (n := 123) (fun h => { h with replaceOrder := hm h }) rfl hm (by decide) (by decide)

theorem sendCancelOrder_extends {token : OrderToken} : Extends a (a.sendCancelOrder token) := by
  have hm (h : a.Headed) : (a.sendCancelOrder token).cancelOrderByteArray.bytes 0 2 = pack16 16 := by
    simp (disch := decide) only [sendCancelOrder, write, header_store]
    exact h.cancelOrder
  exact .frame (n := 16) (fun h => { h with cancelOrder := hm h }) rfl hm (by decide) (by decide)

theorem onLoginAccepted_extends {m : LoginAccepted} : Extends a (a.onLoginAccepted m) := by
  rw [onLoginAccepted]
  dsimp only
  split
  case isTrue  => exact sendEnterOrder_extends.of rfl rfl rfl rfl
  case isFalse => exact .silent rfl rfl rfl rfl

theorem handleSequencedData_extends {data : Memory} {length : UInt16} :
    Extends a (handleSequencedData a data length) := by
  rw [handleSequencedData]
  dsimp only
  split_ifs
  · exact .silent rfl rfl rfl rfl
  · exact sendReplaceOrder_extends.of rfl rfl rfl rfl
  · exact .silent rfl rfl rfl rfl
  · exact sendCancelOrder_extends
  · exact .silent rfl rfl rfl rfl
  · exact .silent rfl rfl rfl rfl

theorem heartbeat_extends :
    Extends a (a.write <| (Memory.zeros.store 2 [PacketType.clientHeartbeat.code] |>.store16 0 (be16toh 1)).bytes 0 3) :=
  .frame (n := 1) (fun h => { h with }) rfl (fun _ => bytes_store16) (by decide) (by decide)

theorem handleMessage_extends {data : Memory} {length : UInt16} : Extends a (handleMessage a data length) := by
  rw [handleMessage]
  dsimp only
  split_ifs
  · exact handleSequencedData_extends
  · exact heartbeat_extends
  · exact onLoginAccepted_extends
  · exact .silent rfl rfl rfl rfl

theorem logout_written : a.logout.written = a.written ++ [[0, 3, PacketType.logoutRequest.code]] :=
  rfl

theorem perform_extends (h : use ≠ .logout) : Extends a (a.perform use) := by
  cases use
  case logout           => contradiction
  case login            => exact login_extends
  case sendEnterOrder   => exact sendEnterOrder_extends
  case sendReplaceOrder => exact sendReplaceOrder_extends
  case sendCancelOrder  => exact sendCancelOrder_extends
  case handleMessage    => exact handleMessage_extends

end Calls

section Runs

theorem headed_ofPartition : (ofPartition partition exchangeInfo last).Headed := by
  have hr : prepareReplaceOrderBuffer.bytes 0 2 = pack16 123 := by decide +kernel
  have hc : prepareCancelOrderBuffer.bytes 0 2 = pack16 16 := by decide +kernel
  refine ⟨?_, hr, hc⟩
  rw [ofPartition, prepareEnterOrderBuffer, header_store (by decide)]
  decide +kernel

-- The length of a logout request counts the length bytes, too.
theorem logout_not_isFrame : ¬IsFrame [0, 3, PacketType.logoutRequest.code] := by
  intro h
  have ⟨l, ht, hl⟩ := h.isMessage.header
  have hl : l = 1 := UInt16.toNat_inj.mp (Nat.add_left_cancel hl).symm
  subst hl
  contradiction

theorem performAll_written (h : a.Headed) (ha : a.written = []) :
    (a.performAll uses).Headed ∧
      (.logout ∉ uses → ∀ f ∈ (a.performAll uses).written, IsFrame f ∧ 3 ≤ f.length) ∧
      (.logout ∈ uses → [0, 3, PacketType.logoutRequest.code] ∈ (a.performAll uses).written) := by
  induction uses using List.reverseRecOn
  case nil => exact ⟨h, fun _ => by simp [performAll, ha], fun h => absurd h List.not_mem_nil⟩
  case append_singleton uses use hi =>
    obtain ⟨hh, hf, hl⟩ := hi
    rw [performAll_concat, List.mem_append, List.mem_singleton, not_or]
    cases Classical.em (use = .logout)
    case inl he =>
      subst he
      rw [perform, logout_written]
      exact ⟨{ hh with }, fun h => absurd rfl h.right, fun _ => List.mem_append_right _ (List.mem_singleton_self _)⟩
    case inr he =>
      have ⟨hx, frames, hw, hfs⟩ := perform_extends (a := a.performAll uses) he
      rw [hw]
      refine ⟨hx hh, fun h => List.forall_mem_append.mpr ⟨hf h.left, hfs hh⟩, fun h => ?_⟩
      exact List.mem_append_left _ <| hl <| h.resolve_right (Ne.symm he)

-- One logout is enough to lose the frames of the stream.
theorem written_framed_iff :
    WellFramed ((ofPartition partition exchangeInfo last).performAll uses).written ↔ .logout ∉ uses := by
  obtain ⟨_, hf, hl⟩ := performAll_written headed_ofPartition (a := ofPartition partition exchangeInfo last) rfl
  exact ⟨fun h hm => logout_not_isFrame (h.isFrame _ (hl hm)), fun h => wellFramed (hf h)⟩

theorem logout_not_framed :
    ¬∀ partition exchangeInfo last uses,
      WellFramed ((ofPartition partition exchangeInfo last).performAll uses).written := by
  intro h
  exact logout_not_isFrame <| (h samplePartition sampleExchangeInfo 0 [.logout]).isFrame _ (List.mem_singleton_self _)

end Runs

end BistMarketAccessor
