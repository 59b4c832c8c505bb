import BistHft.Apps.Theorems.Conformance
import BistHft.Client.Theorems.Orders

-- The login, in runs in which the server reads each packet of the client on its own.

open TcpClient TcpServer ServerLoop BistMarketAccessor Framing

namespace ExchangeEmulator

variable {clientFd n : ℕ} {m : Memory} {f x username password sessionName sequenceNumber : List UInt8}

section Padding

theorem toPaddedArray_of_length (h : x.length = n) : toPaddedArray n x = x := by
  rw [toPaddedArray, List.take_of_length_le h.le, h, Nat.sub_self, List.replicate_zero, List.append_nil]

theorem trimString_append (x : List UInt8) : ∃ k, x = trimString x ++ .replicate k ' '.toUInt8 := by
  let spaces := x.reverse.takeWhile (· = ' '.toUInt8)
  have hs : spaces = .replicate spaces.length ' '.toUInt8 :=
    List.eq_replicate_iff.mpr ⟨rfl, fun b hb => by simpa using List.mem_takeWhile_imp hb⟩
  refine ⟨spaces.length, ?_⟩
  have h : x.reverse = spaces ++ x.reverse.dropWhile (· = ' '.toUInt8) := List.takeWhile_append_dropWhile.symm
  have hr := congrArg List.reverse h
  rwa [List.reverse_reverse, List.reverse_append, hs, List.reverse_replicate] at hr

-- What is cut off is put back.
theorem toPaddedArray_trimString (h : x.length = n) : toPaddedArray n (trimString x) = x := by
  obtain ⟨k, hk⟩ := trimString_append x
  have hl := congrArg List.length hk
  rw [List.length_append, List.length_replicate] at hl
  have hn : n - (trimString x).length = k := by omega
  rw [toPaddedArray, hn, List.take_of_length_le (by omega), ← hk]

theorem trimString_ne_nil {b : UInt8} (hb : b ∈ x) (h : b ≠ ' '.toUInt8) : trimString x ≠ [] := by
  intro ht
  obtain ⟨k, hk⟩ := trimString_append x
  rw [ht, List.nil_append] at hk
  rw [hk] at hb
  exact h (List.eq_of_mem_replicate hb)

theorem loginAcceptedBytes_congr {s s' : List UInt8} (h : toPaddedArray 10 s = toPaddedArray 10 s') :
    loginAcceptedBytes s = loginAcceptedBytes s' := by
  rw [loginAcceptedBytes_eq, loginAcceptedBytes_eq, h]

end Padding

section Requests

def loginRequestBytes (username password sessionName sequenceNumber : List UInt8) : List UInt8 :=
  [0, 47, PacketType.loginRequest.code] ++ (toPaddedArray 6 username ++ (toPaddedArray 10 password ++
    (toPaddedArray 10 sessionName ++ toPaddedArray 20 sequenceNumber)))

-- The name that the emulator gives to a session without a name.
def freshName (clientFd : ℕ) : List UInt8 :=
  text "SES_" ++ (Nat.toDigits 10 clientFd).map Char.toUInt8

-- What is left of the credentials on the way is what the emulator wants.
def Authorized (username password : List UInt8) : Prop :=
  trimString (toPaddedArray 6 username) = text "TEST" ∧ trimString (toPaddedArray 10 password) = text "TEST_PWD"

instance : Decidable (Authorized username password) :=
  inferInstanceAs (Decidable (_ ∧ _))

def IsLogin (f : List UInt8) : Prop :=
  Memory.ofList f 2 = PacketType.loginRequest.code

instance : DecidablePred IsLogin :=
  fun _ => inferInstanceAs (Decidable (_ = _))

theorem loginRequestBytes_length : (loginRequestBytes username password sessionName sequenceNumber).length = 49 := by
  simp only [loginRequestBytes, List.length_append, toPaddedArray_length, List.length_cons, List.length_nil]

-- The three texts of a login request, where the emulator looks for them
theorem loginRequestBytes_texts {m : Memory} (hm : m.Holds (loginRequestBytes username password sessionName sequenceNumber)) :
    m.bytes 3 6 = toPaddedArray 6 username ∧ m.bytes 9 10 = toPaddedArray 10 password ∧
      m.bytes 19 10 = toPaddedArray 10 sessionName := by
  have hl : (loginRequestBytes username password sessionName sequenceNumber).length = 49 := loginRequestBytes_length
  refine ⟨?username, ?password, ?sessionName⟩
  case username =>
    rw [hm.bytes_eq (by omega)]
    exact List.take_left' toPaddedArray_length
  case password =>
    rw [hm.bytes_eq (by omega), ← List.drop_drop (i := 6) (j := 3)]
    exact (congrArg (List.take 10) (List.drop_left' toPaddedArray_length)).trans (List.take_left' toPaddedArray_length)
  case sessionName =>
    have ha : (toPaddedArray 6 username ++ toPaddedArray 10 password).length = 16 := by
      rw [List.length_append, toPaddedArray_length, toPaddedArray_length]
    have hf : (loginRequestBytes username password sessionName sequenceNumber).drop 3 =
        (toPaddedArray 6 username ++ toPaddedArray 10 password) ++
          (toPaddedArray 10 sessionName ++ toPaddedArray 20 sequenceNumber) := by simp [loginRequestBytes]
    rw [hm.bytes_eq (by omega), ← List.drop_drop (i := 16) (j := 3), hf, List.drop_left' ha,
      List.take_left' toPaddedArray_length]

theorem reaction_loginRequestBytes :
    reaction clientFd (loginRequestBytes username password sessionName sequenceNumber) =
      if Authorized username password then
        .sendToClient <| loginAcceptedBytes <|
          if (trimString (toPaddedArray 10 sessionName)).isEmpty then freshName clientFd else trimString (toPaddedArray 10 sessionName)
      else
        .disconnectClient := by
  let f := loginRequestBytes username password sessionName sequenceNumber
  have hl : f.length = 49 := loginRequestBytes_length
  have hm : (Memory.ofList f).Holds f := Memory.holds_ofList
  have h2 : Memory.ofList f 2 = PacketType.loginRequest.code := hm.take.apply (i := 2) (by decide)
  have h0 : be16toh ((Memory.ofList f).load16 0) = 47 := load16_pack <| (hm.bytes_eq (by omega)).trans rfl
  have ⟨hu, hp, hs⟩ := loginRequestBytes_texts hm
  have hn : ¬49 < 2 + (47 : UInt16).toNat := by decide
  change handleSoupBinTcpMessage clientFd (.ofList f) f.length = _
  rw [handleSoupBinTcpMessage, hl, h0, h2, hu, hp, hs, if_neg (by decide)]
  dsimp only
  rw [if_neg hn, if_pos rfl, if_neg (by decide)]
  cases Decidable.em (Authorized username password)
  case inl ha =>
    rw [if_pos ha]
    rw [Authorized] at ha
    rw [if_pos ha]
    split <;> rfl
  case inr ha =>
    rw [if_neg ha]
    rw [Authorized] at ha
    rw [if_neg ha]

-- The session has either no name or the one that the emulator has given to it.
def Named (clientFd : ℕ) (sessionName : List UInt8) : Prop :=
  sessionName = [] ∨ sessionName = toPaddedArray 10 (freshName clientFd)

-- A login that resumes the session is answered in the same way as the one that began it.
theorem reaction_named (h : Named clientFd sessionName) (ha : Authorized username password) :
    reaction clientFd (loginRequestBytes username password sessionName sequenceNumber) =
      .sendToClient (loginAcceptedBytes (freshName clientFd)) := by
  rw [reaction_loginRequestBytes, if_pos ha]
  congr 1
  obtain rfl | rfl := h
  case inl => rfl
  case inr =>
    have hl : (toPaddedArray 10 (freshName clientFd)).length = 10 := toPaddedArray_length
    have hne : trimString (toPaddedArray 10 (freshName clientFd)) ≠ [] :=
      trimString_ne_nil (b := 'S'.toUInt8) (List.mem_cons_self ..) (by decide)
    rw [toPaddedArray_of_length hl, if_neg (by simpa using hne)]
    exact loginAcceptedBytes_congr (toPaddedArray_trimString hl)

-- Anything that is neither a login nor a logout is let pass.
theorem actions_of_type (h : m 2 ≠ PacketType.loginRequest.code) (h' : m 2 ≠ PacketType.logoutRequest.code) :
    (handleSoupBinTcpMessage clientFd m n).actions = [] := by
  rw [handleSoupBinTcpMessage]
  dsimp only
  rw [if_neg h, if_neg h']
  split_ifs <;> rfl

end Requests

end ExchangeEmulator

namespace BistMarketAccessor

open ExchangeEmulator

variable {a a' : BistMarketAccessor} {partition : OrderEntryPartitionConfig} {exchangeInfo : ExchangeInfo} {last : Int32}
variable {clientFd n : ℕ} {m : Memory} {f : List UInt8} {frames : List (List UInt8)} {use : Use} {uses : List Use}

theorem login_eq : a.login = a.write (loginRequestBytes a.partition.username a.partition.password a.sessionName
    (decimalString <| a.sequenceNumber + 1)) := by
  have hs {k : ℕ} {x : List UInt8} : (toPaddedArray k x).length = k := toPaddedArray_length
  rw [login, Memory.bytes_add (n := 29) (k := 20), Nat.zero_add, Memory.bytes_store hs, Memory.bytes_store_of_disjoint (.inl (by decide)),
    Memory.bytes_add (n := 19) (k := 10), Nat.zero_add, Memory.bytes_store hs, Memory.bytes_store_of_disjoint (.inl (by decide)),
    Memory.bytes_add (n := 9) (k := 10), Nat.zero_add, Memory.bytes_store hs, Memory.bytes_store_of_disjoint (.inl (by decide)),
    Memory.bytes_add (n := 3) (k := 6), Nat.zero_add, Memory.bytes_store hs, Memory.bytes_store_of_disjoint (.inl (by decide)),
    loginRequestBytes]
  simp only [List.append_assoc]
  rfl

-- What the emulator makes of a packet of the client, if the session of the client is named by nobody else.
def Expected (clientFd : ℕ) (partition : OrderEntryPartitionConfig) (f : List UInt8) : Prop :=
  f ≠ [] ∧ if IsLogin f then
    reaction clientFd f = if Authorized partition.username partition.password then
      .sendToClient (loginAcceptedBytes (freshName clientFd)) else .disconnectClient
  else
    (reaction clientFd f).actions = []

-- A packet that is no login, and to which the emulator does nothing.
def Idle (clientFd : ℕ) (partition : OrderEntryPartitionConfig) (f : List UInt8) : Prop :=
  Expected clientFd partition f ∧ ¬IsLogin f

def Use.isLogin : Use → Bool
  | .login => true
  | .logout | .sendEnterOrder .. | .sendReplaceOrder .. | .sendCancelOrder _ | .handleMessage _ _ => false

-- What has been written when the emulator is the only one who has answered.
structure LogsIn (clientFd : ℕ) (partition : OrderEntryPartitionConfig) (exchangeInfo : ExchangeInfo) (uses : List Use)
    (a : BistMarketAccessor) : Prop where
  prepared    : a.Prepared exchangeInfo
  sessionName : a.sessionName = if uses.all Use.isCall then [] else toPaddedArray 10 (freshName clientFd)
  written     : ∀ f ∈ a.written, Expected clientFd partition f
  logins      : a.written.countP (IsLogin ·) = uses.countP Use.isLogin
  partition   : a.partition = partition

section Frames

theorem loginRequestBytes_isLogin {username password sessionName sequenceNumber : List UInt8} :
    IsLogin (loginRequestBytes username password sessionName sequenceNumber) := by
  have hm : (Memory.ofList (loginRequestBytes username password sessionName sequenceNumber)).Holds _ := Memory.holds_ofList
  exact hm.take.apply (i := 2) (by decide)

theorem expected_login (h : Named clientFd a.sessionName) (hp : a.partition = partition) (sequenceNumber : List UInt8) :
    Expected clientFd partition (loginRequestBytes a.partition.username a.partition.password a.sessionName sequenceNumber) := by
  subst hp
  refine ⟨List.cons_ne_nil _ _, ?_⟩
  rw [if_pos loginRequestBytes_isLogin]
  split
  case isTrue ha  => exact reaction_named h ha
  case isFalse ha => rw [reaction_loginRequestBytes, if_neg ha]

theorem expected_of_type (hn : 3 ≤ n) (h : m 2 ≠ PacketType.loginRequest.code) (h' : m 2 ≠ PacketType.logoutRequest.code) :
    Idle clientFd partition (m.bytes 0 n) := by
  have hm : (Memory.ofList (m.bytes 0 n)).Holds (m.bytes 0 n) := Memory.holds_ofList
  have h2 : Memory.ofList (m.bytes 0 n) 2 = m 2 := hm.apply_bytes (by omega)
  have hl : ¬IsLogin (m.bytes 0 n) := by rwa [IsLogin, h2]
  refine ⟨⟨?_, ?_⟩, hl⟩
  · exact List.ne_nil_of_length_pos (by rw [Memory.bytes_length]; omega)
  · rw [if_neg hl]
    exact actions_of_type (h2 ▸ h) (h2 ▸ h')

-- The length that a logout announces is never reached by it.
theorem expected_logout (clientFd : ℕ) (partition : OrderEntryPartitionConfig) :
    Idle clientFd partition [0, 3, PacketType.logoutRequest.code] :=
  ⟨⟨List.cons_ne_nil _ _, rfl⟩, by decide⟩

theorem prepareEnterOrderBuffer_type : prepareEnterOrderBuffer exchangeInfo 2 = PacketType.unsequencedData.code := by
  rw [prepareEnterOrderBuffer_apply (by decide) (.inl (by decide))]
  decide +kernel

theorem prepareReplaceOrderBuffer_type : prepareReplaceOrderBuffer 2 = PacketType.unsequencedData.code := by
  decide +kernel

theorem prepareCancelOrderBuffer_type : prepareCancelOrderBuffer 2 = PacketType.unsequencedData.code := by
  decide +kernel

theorem Idle.alone (h : Idle clientFd partition f) :
    (∀ g ∈ [f], Expected clientFd partition g) ∧ [f].countP (IsLogin ·) = 0 :=
  ⟨List.forall_mem_singleton.mpr h.left, by rw [List.countP_singleton, if_neg (by simpa using h.right)]⟩

-- An order is one more packet that the emulator lets pass.
theorem expected_order (hn : 3 ≤ n) (h : m 2 = PacketType.unsequencedData.code) :
    Idle clientFd partition (m.bytes 0 n) :=
  expected_of_type hn (h ▸ by decide) (h ▸ by decide)

theorem Prepared.expected_enterOrder (h : a.Prepared exchangeInfo) (clientFd : ℕ) (partition : OrderEntryPartitionConfig) :
    Idle clientFd partition (a.enterOrderByteArray.bytes 0 117) :=
  expected_order (by decide) <| (h.enterOrder 2 (by decide) (.inl (by decide))).trans prepareEnterOrderBuffer_type

theorem Prepared.expected_replaceOrder (h : a.Prepared exchangeInfo) (clientFd : ℕ) (partition : OrderEntryPartitionConfig) :
    Idle clientFd partition (a.replaceOrderByteArray.bytes 0 125) :=
  expected_order (by decide) <| (h.replaceOrder 2 (by decide) (.inl (by decide))).trans prepareReplaceOrderBuffer_type

theorem Prepared.expected_cancelOrder (h : a.Prepared exchangeInfo) (clientFd : ℕ) (partition : OrderEntryPartitionConfig) :
    Idle clientFd partition (a.cancelOrderByteArray.bytes 0 18) :=
  expected_order (by decide) <| (h.cancelOrder 2 (by decide)).trans prepareCancelOrderBuffer_type

end Frames

section Uses

theorem logsIn_ofPartition : LogsIn clientFd partition exchangeInfo [] (ofPartition partition exchangeInfo last) where
  prepared    := prepared_ofPartition
  sessionName := rfl
  written     := List.forall_mem_nil _
  logins      := rfl
  partition   := rfl

theorem LogsIn.named (h : a.LogsIn clientFd partition exchangeInfo uses) : Named clientFd a.sessionName := by
  rw [h.sessionName]
  split
  case isTrue  => exact .inl rfl
  case isFalse => exact .inr rfl

theorem LogsIn.snoc (h : a.LogsIn clientFd partition exchangeInfo uses) (hp : a'.Prepared exchangeInfo)
    (ha : a'.partition = a.partition) (hw : a'.written = a.written ++ frames) (hf : ∀ f ∈ frames, Expected clientFd partition f)
    (hc : frames.countP (IsLogin ·) = if use.isLogin then 1 else 0)
    (hs : a'.sessionName = if use.isCall then a.sessionName else toPaddedArray 10 (freshName clientFd)) :
    a'.LogsIn clientFd partition exchangeInfo (uses ++ [use]) where
  prepared    := hp
  sessionName := by
    rw [hs, h.sessionName, List.all_append, List.all_cons, List.all_nil, Bool.and_true]
    cases use.isCall <;> cases uses.all Use.isCall <;> rfl
  written     := hw ▸ List.forall_mem_append.mpr ⟨h.written, hf⟩
  logins      := by rw [hw, List.countP_append, h.logins, hc, List.countP_append, List.countP_singleton]
  partition   := ha.trans h.partition

theorem LogsIn.call (h : a.LogsIn clientFd partition exchangeInfo uses) (hc : use.isCall) :
    (a.perform use).LogsIn clientFd partition exchangeInfo (uses ++ [use]) := by
  cases use
  case handleMessage => contradiction
  case login =>
    have he := expected_login h.named h.partition (decimalString <| a.sequenceNumber + 1)
    refine h.snoc { h.prepared with } rfl (congrArg BistMarketAccessor.written login_eq) (List.forall_mem_singleton.mpr he) ?_ rfl
    rw [List.countP_singleton, if_pos (decide_eq_true loginRequestBytes_isLogin)]
    rfl
  case logout =>
    have ⟨hf, hl⟩ := (expected_logout clientFd partition).alone
    exact h.snoc { h.prepared with } rfl logout_written hf hl rfl
  case sendEnterOrder orderbookId side qty price =>
    have hp : ((Request.enter orderbookId side qty price).send a).Prepared exchangeInfo := h.prepared.send
    have ⟨hf, hl⟩ := (hp.expected_enterOrder clientFd partition).alone
    exact h.snoc hp rfl rfl hf hl rfl
  case sendReplaceOrder token price =>
    have hp : ((Request.replace token price).send a).Prepared exchangeInfo := h.prepared.send
    have ⟨hf, hl⟩ := (hp.expected_replaceOrder clientFd partition).alone
    exact h.snoc hp rfl rfl hf hl rfl
  case sendCancelOrder token =>
    have hp : ((Request.cancel token).send a).Prepared exchangeInfo := h.prepared.send
    have ⟨hf, hl⟩ := (hp.expected_cancelOrder clientFd partition).alone
    exact h.snoc hp rfl rfl hf hl rfl

-- The first order of an equity account is sent on its own.
theorem LogsIn.delivered (h : a.LogsIn clientFd partition exchangeInfo uses) :
    (a.perform (delivery (loginAcceptedBytes (freshName clientFd)))).LogsIn clientFd partition exchangeInfo
      (uses ++ [delivery (loginAcceptedBytes (freshName clientFd))]) := by
  have hd : a.perform (delivery (loginAcceptedBytes (freshName clientFd))) =
      a.onLoginAccepted ⟨toPaddedArray 10 (freshName clientFd)⟩ := deliver_loginAcceptedBytes
  rw [hd, onLoginAccepted]
  dsimp only
  split
  case isFalse => exact h.snoc { h.prepared with } rfl (List.append_nil _).symm (List.forall_mem_nil _) rfl rfl
  case isTrue =>
    let b : BistMarketAccessor := { a with state := .continuous, sessionName := toPaddedArray 10 (freshName clientFd) }
    have hb : b.Prepared exchangeInfo := { h.prepared with }
    have hp : ((Request.enter 78436 'S'.toUInt8 5000 770000).send b).Prepared exchangeInfo := hb.send
    obtain ⟨hf, hl⟩ := (hp.expected_enterOrder clientFd partition).alone
    exact h.snoc hp rfl rfl hf hl rfl

theorem logsIn_performAll
    (h : ∀ use ∈ uses, use.isCall = false → use = delivery (loginAcceptedBytes (freshName clientFd))) :
    ((ofPartition partition exchangeInfo last).performAll uses).LogsIn clientFd partition exchangeInfo uses := by
  induction uses using List.reverseRecOn
  case nil => exact logsIn_ofPartition
  case append_singleton uses use hi =>
    have ⟨hl, hu⟩ := List.forall_mem_append.mp h
    rw [performAll_concat]
    cases hc : use.isCall
    case true  => exact (hi hl).call hc
    case false =>
      obtain rfl := hu use (List.mem_singleton_self use) hc
      exact (hi hl).delivered

end Uses

section Answers

theorem Expected.answer_eq (h : Expected clientFd partition f) :
    answer clientFd f = if IsLogin f ∧ Authorized partition.username partition.password then
      some (loginAcceptedBytes (freshName clientFd)) else none := by
  have ⟨_, h⟩ := h
  rw [answer, reply]
  cases Decidable.em (IsLogin f)
  case inl hl =>
    rw [if_pos hl] at h
    rw [h]
    cases Decidable.em (Authorized partition.username partition.password)
    case inl ha => rw [if_pos ha, if_pos ⟨hl, ha⟩]; rfl
    case inr ha => rw [if_neg ha, if_neg fun h => ha h.right]; rfl
  case inr hl =>
    rw [if_neg hl] at h
    rw [if_neg fun h => hl h.left]
    cases hc : reaction clientFd f
    case sendToClient => rw [hc] at h; contradiction
    all_goals rfl

theorem Expected.not_disconnects (h : Expected clientFd partition f)
    (ha : Authorized partition.username partition.password) : ¬Disconnects clientFd f := by
  intro hd
  have ⟨_, h⟩ := h
  rw [Disconnects] at hd
  rw [hd, if_pos ha] at h
  split at h <;> contradiction

theorem filterMap_answer (h : ∀ f ∈ frames, Expected clientFd partition f) (ha : Authorized partition.username partition.password) :
    frames.filterMap (answer clientFd) = .replicate (frames.countP (IsLogin ·)) (loginAcceptedBytes (freshName clientFd)) := by
  induction frames
  case nil => rfl
  case cons f frames hi =>
    have ⟨hf, hfs⟩ := List.forall_mem_cons.mp h
    rw [List.filterMap_cons, hf.answer_eq, List.countP_cons, hi hfs]
    cases Decidable.em (IsLogin f)
    case inl hl => rw [if_pos ⟨hl, ha⟩, if_pos (decide_eq_true hl)]; rfl
    case inr hl => rw [if_neg fun h => hl h.left, if_neg (by simpa using hl)]; rfl

end Answers

end BistMarketAccessor

namespace ServerLoop.View

open ExchangeEmulator

variable {view : View} {clientFd : ℕ} {f : List UInt8} {packets : List (List UInt8)}

theorem foldl_actions (hr : view.registered) (hd : ¬Disconnects clientFd f) :
    (reaction clientFd f).actions.foldl act view = { view with sent := view.sent ++ (answer clientFd f).toList } := by
  rw [answer, reply]
  rw [Disconnects] at hd
  cases hc : reaction clientFd f
  case disconnectClient   => exact absurd hc hd
  case sendToClient bytes => exact if_pos hr
  all_goals exact congrArg (View.mk _ _ · _) (List.append_nil _).symm

-- A client that gives no reason to be disconnected is served to the end of what it has sent.
theorem readAll_packets (hr : view.registered) (hp : ∀ p ∈ packets, p ≠ [] ∧ ¬Disconnects clientFd p) :
    view.readAll (loopReaction clientFd) (packets.map .bytes ++ [.wouldBlock]) =
      ({ view with reads := view.reads ++ packets, sent := view.sent ++ packets.filterMap (answer clientFd) }, false) := by
  induction packets generalizing view
  case nil =>
    rw [List.map_nil, List.nil_append, readAll, if_pos hr, List.append_nil, List.filterMap_nil, List.append_nil]
  case cons p packets hi =>
    obtain ⟨⟨hne, hd⟩, hps⟩ := List.forall_mem_cons.mp hp
    have hl : loopReaction clientFd (view.read p).reads = (reaction clientFd p).actions := by
      rw [loopReaction, read, List.getLast?_concat]
    have hv : (view.read p).registered := hr
    let served : View := { view.read p with sent := view.sent ++ (answer clientFd p).toList }
    have hs : served.registered := hr
    rw [List.map_cons, List.cons_append, readAll, if_pos hr, if_neg (by simpa using hne), hl, foldl_actions hv hd]
    refine (hi hs hps).trans ?_
    cases ha : answer clientFd p <;> simp [served, read, ha]

theorem reads_packets {reaction : Reaction} {packets : List (List UInt8)} :
    (readAll reaction view (packets.map .bytes ++ [.wouldBlock])).1.reads <+: view.reads ++ packets := by
  have ⟨reads, he, hpre⟩ := reads_readAll view reaction (packets.map .bytes ++ [.wouldBlock])
  have hb : (packets.map ReadResult.bytes ++ [ReadResult.wouldBlock]).filterMap Connection.bytes? = packets := by
    rw [List.filterMap_append, List.filterMap_map]
    exact (List.append_nil _).trans (List.filterMap_some ..)
  rw [he]
  exact (List.prefix_append_right_inj _).mpr (hb ▸ hpre)

end ServerLoop.View

namespace Connection

open ExchangeEmulator

variable {clientFd : ℕ} {c c' : Connection} {moves : List Move} {move : Move} {uses : List Use} {o : Occurrence}
variable {partition : OrderEntryPartitionConfig} {exchangeInfo : ExchangeInfo} {last : Int32} {f : List UInt8}
variable {fs : List (List UInt8)}

-- The client stays connected, and the server reads its packets one by one.
def ReadsPackets (clientFd : ℕ) (c : Connection) : Occurrence → Prop
  | .connected _        => True
  | .readable _ results => ∃ packets, results = packets.map .bytes ++ [.wouldBlock] ∧
      (c.loop.view clientFd).reads ++ packets <+: c.accessor.written
  | .hangUp _           => False

def Aligned (clientFd : ℕ) (c : Connection) : Move → Prop
  | .call _ | .clientReads _ => True
  | .occurs o                => o.clientFd = clientFd → c.ReadsPackets clientFd o

-- Where the two ends are while every packet is read on its own.
structure Session (clientFd : ℕ) (partition : OrderEntryPartitionConfig) (c : Connection) : Prop where
  sent      : ∀ f ∈ (c.loop.view clientFd).sent, f = loginAcceptedBytes (freshName clientFd)
  reads     : (c.loop.view clientFd).reads <+: c.accessor.written
  connected : Authorized partition.username partition.password →
    ((c.loop.view clientFd).registered ↔ (c.loop.view clientFd).told ≠ [])

theorem Sound.logsIn (h : c.Sound clientFd (ofPartition partition exchangeInfo last) moves uses)
    (hs : ∀ f ∈ (c.loop.view clientFd).sent, f = loginAcceptedBytes (freshName clientFd)) :
    c.accessor.LogsIn clientFd partition exchangeInfo uses := by
  rw [h.accessor]
  apply logsIn_performAll
  intro use hu hc
  obtain ⟨f, hf, rfl⟩ := h.delivered hu hc
  rw [hs f hf]

-- Only the calls of the client and what it reads change its end.
theorem Session.of_loop (h : c.Session clientFd partition) (hl : c'.loop = c.loop) (hw : c.accessor.written <+: c'.accessor.written) :
    c'.Session clientFd partition where
  sent      := hl ▸ h.sent
  reads     := hl ▸ h.reads.trans hw
  connected := hl ▸ h.connected

theorem Session.view_occur (h : c.Session clientFd partition) (hw : ∀ f ∈ c.accessor.written, Expected clientFd partition f)
    (he : o.clientFd = clientFd → c.Carries clientFd o) (ho : o.clientFd = clientFd → c.ReadsPackets clientFd o) :
    ((occur loopHandler c.loop o).view clientFd).reads <+: c.accessor.written ∧
      (Authorized partition.username partition.password →
        (((occur loopHandler c.loop o).view clientFd).registered ↔ ((occur loopHandler c.loop o).view clientFd).told ≠ [])) := by
  rw [(occur_view loopHandler_serves c.loop o).left, Function.update_apply]
  split
  case isFalse => exact ⟨h.reads, h.connected⟩
  case isTrue hc =>
    subst hc
    replace ho := ho rfl
    replace he := he rfl
    cases o
    case hangUp    => contradiction
    case connected => exact ⟨h.reads, fun _ => iff_of_true rfl (by simp [View.occur, View.connect])⟩
    case readable fd results =>
      obtain ⟨packets, rfl, hp⟩ := ho
      rw [View.occur]
      split
      case isFalse => exact ⟨h.reads, h.connected⟩
      case isTrue hr =>
        constructor
        case left => exact View.reads_packets.trans hp
        case right =>
          intro ha
          have hps : ∀ p ∈ packets, p ≠ [] ∧ ¬Disconnects fd p := by
            intro p hm
            have he := hw p (hp.subset (List.mem_append_right _ hm))
            exact ⟨he.left, he.not_disconnects ha⟩
          have hr : (c.loop.view fd).registered := hr
          dsimp only [Occurrence.clientFd]
          rw [View.readAll_packets hr hps]
          exact h.connected ha

theorem Session.occurs (h : c.Session clientFd partition) (hw : ∀ f ∈ c.accessor.written, Expected clientFd partition f)
    (hs : ((occur loopHandler c.loop o).view clientFd).sent =
      ((occur loopHandler c.loop o).view clientFd).reads.filterMap (answer clientFd))
    (he : o.clientFd = clientFd → c.Carries clientFd o) (ho : o.clientFd = clientFd → c.ReadsPackets clientFd o) :
    Session clientFd partition { c with loop := occur loopHandler c.loop o } := by
  have ⟨hr, hc⟩ := h.view_occur hw he ho
  refine ⟨?_, hr, hc⟩
  intro f hf
  rw [hs] at hf
  have ⟨bytes, hm, ha⟩ := List.mem_filterMap.mp hf
  rw [(hw bytes (hr.subset hm)).answer_eq, Option.ite_none_right_eq_some] at ha
  exact (Option.some.inj ha.right).symm

theorem session_invariant (clientFd : ℕ) (partition : OrderEntryPartitionConfig) (exchangeInfo : ExchangeInfo) (last : Int32) :
    Run.Invariant step { accessor := ofPartition partition exchangeInfo last }
      (fun _ c move => c.Enabled clientFd move ∧ c.Aligned clientFd move)
      (fun moves c => c.Session clientFd partition ∧
        ∃ uses, c.Sound clientFd (ofPartition partition exchangeInfo last) moves uses) where
  init := by
    refine ⟨⟨List.forall_mem_nil _, List.nil_prefix, fun _ => ?_⟩, (sound_invariant clientFd _).init⟩
    simp [ServerLoop.view, entries]
  next := by
    rintro moves c move ⟨hs, uses, h⟩ ⟨he, ha⟩
    have hl := h.logsIn hs.sent
    cases move
    case call use => exact ⟨_, rfl, hs.of_loop rfl written_perform, _, h.call he⟩
    case clientReads bytes =>
      obtain ⟨_, c', hc, hacc, hloop, h'⟩ := h.clientReads he.left he.right
      exact ⟨c', hc, hs.of_loop hloop (hacc ▸ written_performAll), _, h'⟩
    case occurs o =>
      have h' := h.occurs he.right
      exact ⟨_, rfl, hs.occurs hl.written h'.sent he.right ha, _, h'⟩

section Results

def logins (moves : List Move) : ℕ :=
  (moves.filterMap Move.use?).countP Use.isLogin

theorem Sound.logins_eq (h : c.Sound clientFd (ofPartition partition exchangeInfo last) moves uses)
    (hl : c.accessor.LogsIn clientFd partition exchangeInfo uses) : c.accessor.written.countP (IsLogin ·) = logins moves := by
  rw [hl.logins, logins, ← h.calls, List.countP_filter]
  congr 1
  funext use
  cases use <;> rfl

theorem Sound.all_isCall_iff (h : c.Sound clientFd (ofPartition partition exchangeInfo last) moves uses) :
    uses.all Use.isCall ↔ c.accessor.state ≠ .continuous := by
  have hd use (hu : use ∈ uses) (hc : use.isCall = false) : ∃ sessionName, use = delivery (loginAcceptedBytes sessionName) := by
    obtain ⟨f, hf, rfl⟩ := h.delivered hu hc
    obtain ⟨sessionName, rfl⟩ := h.mem_sent hf
    exact ⟨sessionName, rfl⟩
  rw [h.accessor, ne_eq, performAll_state BistMarketAccessor.State.noConfusion hd, List.all_eq_true]
  simp

-- The emulator accepts what it should and nothing else. It never disconnects a client that has the right
-- credentials, also if it logs out, and it answers each login in the same way.
theorem logs_in
    (h : Run.Admits step { accessor := ofPartition partition exchangeInfo last }
      (fun _ c move => c.Enabled clientFd move ∧ c.Aligned clientFd move) moves) :
    ∃ c, Run.exec step { accessor := ofPartition partition exchangeInfo last } moves = .ok c ∧
      (c.accessor.state = .continuous → Authorized partition.username partition.password) ∧
      (Authorized partition.username partition.password →
        (clientFd ∈ c.loop.clients ↔ (c.loop.view clientFd).told ≠ []) ∧
        (∀ bytes ∈ (c.loop.view clientFd).reads, ¬Disconnects clientFd bytes) ∧
        (c.loop.view clientFd).sent =
          .replicate ((c.loop.view clientFd).reads.countP (IsLogin ·)) (loginAcceptedBytes (freshName clientFd)) ∧
        c.accessor.sessionName = (if c.accessor.state = .continuous then toPaddedArray 10 (freshName clientFd) else []) ∧
        ((c.loop.view clientFd).reads = c.accessor.written → c.received = c.downstream clientFd →
          (c.loop.view clientFd).sent.length = logins moves ∧ (c.accessor.state = .continuous ↔ 0 < logins moves))) := by
  obtain ⟨c, hc, hs, uses, hu⟩ := (session_invariant clientFd partition exchangeInfo last).exec h
  have hl := hu.logsIn hs.sent
  have he bytes (hb : bytes ∈ (c.loop.view clientFd).reads) : Expected clientFd partition bytes := hl.written bytes (hs.reads.subset hb)
  have ha : (ofPartition partition exchangeInfo last).state ≠ .continuous := BistMarketAccessor.State.noConfusion
  refine ⟨c, hc, ?_, fun hau => ⟨view_registered.symm.trans (hs.connected hau), ?_, ?_, ?_, ?_⟩⟩
  · intro hcont
    have hr := hu.received.length_le
    have h33 := (hu.continuous_iff ha).mp hcont
    have hne : (c.loop.view clientFd).sent ≠ [] := by
      intro he
      rw [downstream, he] at hr
      exact absurd (h33.trans hr) (by decide)
    obtain ⟨f, hf⟩ := List.exists_mem_of_ne_nil _ hne
    rw [hu.sent] at hf
    obtain ⟨bytes, hb, hans⟩ := List.mem_filterMap.mp hf
    rw [(he bytes hb).answer_eq, Option.ite_none_right_eq_some] at hans
    exact hans.left.right
  · exact fun bytes hb => (he bytes hb).not_disconnects hau
  · rw [hu.sent, filterMap_answer he hau]
  · rw [hl.sessionName]
    cases Decidable.em (c.accessor.state = .continuous)
    case inl hcont => rw [if_pos hcont, if_neg (mt hu.all_isCall_iff.mp (not_not.mpr hcont))]
    case inr hcont => rw [if_neg hcont, if_pos (hu.all_isCall_iff.mpr hcont)]
  · intro hr hd
    have hlen : (c.loop.view clientFd).sent.length = logins moves := by
      rw [hu.sent, filterMap_answer he hau, List.length_replicate, hr, hu.logins_eq hl]
    refine ⟨hlen, ?_⟩
    have hfl : c.received.length = 33 * logins moves := by
      rw [hd, downstream, hu.sent, filterMap_answer he hau, hr, hu.logins_eq hl, List.length_flatten, List.map_replicate,
        List.sum_replicate, loginAcceptedBytes_length, Nat.nsmul_eq_mul, Nat.mul_comm]
    rw [hu.continuous_iff ha]
    omega

end Results

section Samples

theorem testMoves_aligned : Run.Admits step { accessor := testAccessor }
    (fun _ c move => c.Enabled 5 move ∧ c.Aligned 5 move) testMoves := by
  refine testMoves_enabled.and ?_
  refine ((((Run.Admits.nil.snoc ?_).snoc ?_).snoc ?_).snoc ?_).snoc ?_
  all_goals
    intro c hc
    cases hc
  · trivial
  · exact fun _ => trivial
  · have hp : [testLogin] <+: testAccessor.login.written := by decide +kernel
    exact fun _ => ⟨[testLogin], rfl, hp⟩
  · trivial
  · trivial

theorem logs_in_test :
    ∃ c, Run.exec step { accessor := testAccessor } testMoves = .ok c ∧
      (c.accessor.state = .continuous → Authorized testPartition.username testPartition.password) ∧
      (Authorized testPartition.username testPartition.password →
        (5 ∈ c.loop.clients ↔ (c.loop.view 5).told ≠ []) ∧
        (∀ bytes ∈ (c.loop.view 5).reads, ¬Disconnects 5 bytes) ∧
        (c.loop.view 5).sent = .replicate ((c.loop.view 5).reads.countP (IsLogin ·)) (loginAcceptedBytes (freshName 5)) ∧
        c.accessor.sessionName = (if c.accessor.state = .continuous then toPaddedArray 10 (freshName 5) else []) ∧
        ((c.loop.view 5).reads = c.accessor.written → c.received = c.downstream 5 →
          (c.loop.view 5).sent.length = logins testMoves ∧ (c.accessor.state = .continuous ↔ 0 < logins testMoves))) :=
  logs_in testMoves_aligned

end Samples

end Connection
