import BistHft.Apps.Connection
import BistHft.Client.Theorems.Session

-- What the two ends of a connection make of each other, whatever happens in between.

open TcpClient TcpServer ServerLoop BistMarketAccessor Framing

namespace ExchangeEmulator

variable {clientFd : ℕ} {read f : List UInt8} {sessionName : List UInt8} {a : BistMarketAccessor}

-- The answer to a read, without its receiver.
def answer (clientFd : ℕ) (read : List UInt8) : Option (List UInt8) :=
  (reply (clientFd, read)).map Prod.snd

section Accepted

theorem loginAcceptedBytes_eq : loginAcceptedBytes sessionName =
    [0, 31, PacketType.loginAccepted.code] ++ toPaddedArray 10 sessionName ++ toPaddedArray 20 (text "1") := by
  have hn : (toPaddedArray 10 sessionName).length = 10 := toPaddedArray_length
  have hs : (toPaddedArray 20 (text "1")).length = 20 := toPaddedArray_length
  rw [loginAcceptedBytes, Memory.bytes_add (n := 13) (k := 20), Nat.zero_add, Memory.bytes_store hs,
    Memory.bytes_store_of_disjoint (.inl (by decide)), Memory.bytes_add (n := 3) (k := 10), Nat.zero_add,
    Memory.bytes_store hn, Memory.bytes_store_of_disjoint (.inl (by decide))]
  rfl

theorem loginAcceptedBytes_length : (loginAcceptedBytes sessionName).length = 33 :=
  Memory.bytes_length

theorem loginAcceptedBytes_isFrame : IsFrame (loginAcceptedBytes sessionName) := by
  rw [loginAcceptedBytes_eq, List.append_assoc]
  refine ⟨PacketType.loginAccepted.code :: (toPaddedArray 10 sessionName ++ toPaddedArray 20 (text "1")), ?_, ?_⟩
  · rw [List.length_cons, List.length_append, toPaddedArray_length, toPaddedArray_length]
    rfl
  · rw [List.length_append, List.length_cons, List.length_append, toPaddedArray_length, toPaddedArray_length]
    decide

theorem loginAcceptedBytes_branch {m : Memory} (hm : m.Holds (loginAcceptedBytes sessionName)) :
    Branch.of m = .loginAccepted := by
  rw [loginAcceptedBytes_eq, List.append_assoc] at hm
  have h2 : m 2 = PacketType.loginAccepted.code := hm.take.apply (i := 2) (by decide)
  rw [Branch.of]
  dsimp only
  rw [h2]
  rfl

theorem loginAcceptedBytes_selfContained : SelfContained (loginAcceptedBytes sessionName) := by
  have hb : Branch.of (.ofList (loginAcceptedBytes sessionName)) = .loginAccepted :=
    loginAcceptedBytes_branch Memory.holds_ofList
  constructor
  case packetType    => exact loginAcceptedBytes_length ▸ by decide
  case payloadType   => exact fun _ => loginAcceptedBytes_length ▸ by decide
  case orderAccepted => exact fun h => absurd (hb.symm.trans h) (by decide)
  case orderExecuted => exact fun h => absurd (hb.symm.trans h) (by decide)
  case orderReplaced => exact fun h => absurd (hb.symm.trans h) (by decide)
  case orderRejected => exact fun h => absurd (hb.symm.trans h) (by decide)

-- The client takes the name of the session as it is sent, with its padding.
theorem deliver_loginAcceptedBytes :
    deliver a (loginAcceptedBytes sessionName) = a.onLoginAccepted ⟨toPaddedArray 10 sessionName⟩ := by
  have hm : (Memory.ofList (loginAcceptedBytes sessionName)).Holds (loginAcceptedBytes sessionName) := Memory.holds_ofList
  rw [deliver, handleMessage_login loginAcceptedBytes_isFrame (loginAcceptedBytes_branch hm)]
  congr 1
  rw [Memory.loginAccepted, Memory.bytes_copied (by rw [loginAcceptedBytes_length]; decide),
    hm.bytes_eq (by rw [loginAcceptedBytes_length]; decide), loginAcceptedBytes_eq, List.append_assoc,
    List.drop_left' (by rfl), List.take_left' toPaddedArray_length]

end Accepted

-- What is answered is a login with the right credentials.
theorem answer_eq_some (h : answer clientFd read = some f) : 49 ≤ read.length ∧ CredentialsAt (.ofList read) ∧
    ∃ sessionName, f = loginAcceptedBytes sessionName := by
  rw [answer, reply] at h
  cases hr : reaction clientFd read
  case sendToClient bytes =>
    rw [hr] at h
    obtain rfl : bytes = f := Option.some.inj h
    rw [reaction, handleSoupBinTcpMessage] at hr
    dsimp only at hr
    split_ifs at hr
    case pos h49 hc _ => exact ⟨Nat.le_of_not_lt h49, hc, _, (Reaction.sendToClient.inj hr).symm⟩
    case neg h49 hc _ => exact ⟨Nat.le_of_not_lt h49, hc, _, (Reaction.sendToClient.inj hr).symm⟩
  all_goals
    rw [hr] at h
    contradiction

theorem reply_eq : reply (clientFd, read) = (answer clientFd read).map (clientFd, ·) := by
  rw [answer, reply]
  cases reaction clientFd read <;> rfl

theorem entries_replies {handled : List (ℕ × List UInt8)} :
    entries clientFd (handled.filterMap reply) = (entries clientFd handled).filterMap (answer clientFd) := by
  induction handled
  case nil => rfl
  case cons e handled hi =>
    obtain ⟨fd, read⟩ := e
    have hc {β : Type} {b : β} {log : List (ℕ × β)} :
        entries clientFd ((fd, b) :: log) = if fd = clientFd then b :: entries clientFd log else entries clientFd log := by
      rw [entries, List.filter_cons]
      split <;> simp_all [entries]
    rw [List.filterMap_cons, reply_eq, hc]
    cases ha : answer fd read
    case none =>
      dsimp only [Option.map_none]
      split
      case isTrue he  => rw [hi, List.filterMap_cons_none (he ▸ ha)]
      case isFalse he => exact hi
    case some f =>
      dsimp only [Option.map_some]
      rw [hc]
      split
      case isTrue he  => rw [hi, List.filterMap_cons_some (he ▸ ha)]
      case isFalse he => exact hi

end ExchangeEmulator

namespace ServerLoop.View

variable {view : View} {action : Action} {actions : List Action} {react : Reaction} {results : List ReadResult}

@[simp]
theorem reads_remove : view.remove.reads = view.reads := by
  rw [remove]
  split <;> rfl

@[simp]
theorem reads_act : (view.act action).reads = view.reads := by
  cases action
  case disconnectClient => exact reads_remove
  case sendToClient =>
    rw [act, send]
    split <;> rfl

@[simp]
theorem reads_foldl : (actions.foldl act view).reads = view.reads := by
  induction actions generalizing view
  case nil     => rfl
  case cons hi => rw [List.foldl_cons, hi, reads_act]

-- What is read is a part of what could be read, in the same order.
theorem reads_readAll (view : View) (react : Reaction) (results : List ReadResult) : ∃ reads,
    (view.readAll react results).1.reads = view.reads ++ reads ∧
    reads <+: results.filterMap Connection.bytes? := by
  induction results generalizing view
  case nil => exact ⟨[], (List.append_nil _).symm, List.nil_prefix⟩
  case cons result results hi =>
    have hn {v : View} (h : v.reads = view.reads) : ∃ reads, v.reads = view.reads ++ reads ∧
        reads <+: (result :: results).filterMap Connection.bytes? :=
      ⟨[], by rw [h, List.append_nil], List.nil_prefix⟩
    rw [readAll.eq_def]
    dsimp only
    split
    case isFalse => exact hn rfl
    case isTrue =>
      cases result
      case wouldBlock => exact hn rfl
      case error      => exact hn reads_remove
      case bytes bytes =>
        dsimp only
        split
        case isTrue  => exact hn reads_remove
        case isFalse =>
          obtain ⟨reads, hr, hp⟩ := hi ((react (view.read bytes).reads).foldl act (view.read bytes))
          refine ⟨bytes :: reads, ?_, List.cons_prefix_cons.mpr ⟨rfl, hp⟩⟩
          rw [hr, reads_foldl, read, List.append_assoc, List.singleton_append]

end ServerLoop.View

namespace BistMarketAccessor

variable {a : BistMarketAccessor} {use : Use} {uses uses' : List Use} {frames : List (List UInt8)}

theorem performAll_append : a.performAll (uses ++ uses') = (a.performAll uses).performAll uses' :=
  List.foldl_append ..

theorem written_perform : a.written <+: (a.perform use).written := by
  cases Classical.em (use = .logout)
  case inl h => exact h ▸ List.prefix_append ..
  case inr h =>
    have ⟨_, hw, _⟩ := (perform_extends (a := a) h).written
    exact hw ▸ List.prefix_append ..

theorem written_performAll : a.written <+: (a.performAll uses).written := by
  induction uses using List.reverseRecOn
  case nil                    => exact List.prefix_rfl
  case append_singleton use hi => exact hi.trans (performAll_concat ▸ written_perform)

-- A packet on its own, as it is handled.
def delivery (f : List UInt8) : Use :=
  .handleMessage (.ofList f) (.ofNat f.length)

theorem foldl_deliver : frames.foldl deliver a = a.performAll (frames.map delivery) := by
  rw [performAll, List.foldl_map]
  rfl

end BistMarketAccessor

namespace Connection

open ExchangeEmulator

variable {clientFd : ℕ} {c : Connection} {a : BistMarketAccessor} {moves : List Move} {use : Use} {uses : List Use}
variable {bytes : List UInt8} {o : Occurrence} {f : List UInt8} {loop : ServerLoop}

def Move.use? : Move → Option Use
  | .call use                  => some use
  | .clientReads _ | .occurs _ => none

-- The packets that the client has read to their end.
def arrived (clientFd : ℕ) (c : Connection) : List (List UInt8) :=
  completed (c.loop.view clientFd).sent c.received.length

-- Each end is in the state that the calls of its application and the packets of the other end lead to.
structure Conforms (clientFd : ℕ) (a : BistMarketAccessor) (moves : List Move) (uses : List Use) (c : Connection) : Prop where
  accessor : c.accessor = a.performAll uses
  calls    : uses.filter Use.isCall = moves.filterMap Move.use?
  packets  : uses.filter (!Use.isCall ·) = (c.arrived clientFd).map delivery
  sent     : (c.loop.view clientFd).sent = (c.loop.view clientFd).reads.filterMap (answer clientFd)
  reads    : (c.loop.view clientFd).reads.flatten <+: c.upstream

-- What is needed besides on the way: no byte gets lost in the buffer of the client.
structure Sound (clientFd : ℕ) (a : BistMarketAccessor) (moves : List Move) (uses : List Use) (c : Connection) : Prop extends
    Conforms clientFd a moves uses c where
  answers  : Answers c.loop.toTcpServer
  received : c.received <+: c.downstream clientFd
  buffered : Buffered (c.loop.view clientFd).sent c.received.length c.client

theorem sent_eq (h : Answers loop.toTcpServer) :
    (loop.view clientFd).sent = (loop.view clientFd).reads.filterMap (answer clientFd) := by
  have h : loop.written = loop.handled.filterMap reply := h
  change entries clientFd loop.written = _
  rw [h, entries_replies]
  rfl

theorem Conforms.mem_sent (h : c.Conforms clientFd a moves uses) (hf : f ∈ (c.loop.view clientFd).sent) :
    ∃ sessionName, f = loginAcceptedBytes sessionName := by
  rw [h.sent] at hf
  have ⟨_, _, ha⟩ := List.mem_filterMap.mp hf
  exact (answer_eq_some ha).right.right

theorem Sound.call (h : c.Sound clientFd a moves uses) (hu : use.isCall) :
    Sound clientFd a (moves ++ [.call use]) (uses ++ [use]) { c with accessor := c.accessor.perform use } where
  accessor := by rw [performAll_concat, h.accessor]
  calls    := by rw [List.filter_append, List.filterMap_append, h.calls, List.filter_cons_of_pos hu]; rfl
  packets  := by
    rw [List.filter_append, h.packets, List.filter_cons_of_neg (by simp [hu])]
    exact List.append_nil _
  sent     := h.sent
  reads    := h.reads.trans (written_perform.flatten)
  answers  := h.answers
  received := h.received
  buffered := h.buffered

theorem step_clientReads {client : TcpClient} {accessor : BistMarketAccessor}
    (h : receive handleMessage (c.client, c.accessor) bytes = .ok (client, accessor)) :
    step c (.clientReads bytes) = .ok { c with client, accessor, received := c.received ++ bytes } := by
  have h : (c.client.readFromSocket bytes).processBuffer handleMessage c.accessor = (client, accessor) := Except.ok.inj h
  rw [step, h]

theorem filter_delivery {fs : List (List UInt8)} :
    (fs.map delivery).filter Use.isCall = [] ∧ (fs.map delivery).filter (!Use.isCall ·) = fs.map delivery := by
  rw [List.filter_eq_nil_iff, List.filter_eq_self, List.forall_mem_map, List.forall_mem_map]
  exact ⟨fun _ _ => Bool.noConfusion, fun _ _ => rfl⟩

theorem Sound.clientReads (h : c.Sound clientFd a moves uses) (hr : ReadFits (c.client, c.accessor) bytes)
    (hp : c.received ++ bytes <+: c.downstream clientFd) :
    ∃ (fs : List (List UInt8)) (c' : Connection), step c (.clientReads bytes) = .ok c' ∧ c'.accessor = c.accessor.performAll (fs.map delivery) ∧
      c'.loop = c.loop ∧ Sound clientFd a (moves ++ [.clientReads bytes]) (uses ++ fs.map delivery) c' := by
  have hf f (hm : f ∈ (c.loop.view clientFd).sent) : IsFrame f ∧ SelfContained f := by
    obtain ⟨_, rfl⟩ := h.mem_sent hm
    exact ⟨loginAcceptedBytes_isFrame, loginAcceptedBytes_selfContained⟩
  have hn : c.received.length ≤ (c.loop.view clientFd).sent.flatten.length := h.received.length_le
  have hd : bytes <+: (c.loop.view clientFd).sent.flatten.drop c.received.length := by
    have hd := hp.drop c.received.length
    rwa [List.drop_left] at hd
  have ⟨client, he, hb⟩ := receive_delivered (fun f hm => (hf f hm).left.isMessage)
    (fun f hm => (hf f hm).right.delivers (hf f hm).left) h.buffered hr hn hd
  rw [foldl_deliver] at he
  let fs := completed (remaining (c.loop.view clientFd).sent c.received.length)
    ((pending (c.loop.view clientFd).sent c.received.length).length + bytes.length)
  refine ⟨fs, _, step_clientReads he, rfl, rfl, ?_⟩
  constructor
  case toConforms =>
    constructor
    case accessor => rw [performAll_append, ← h.accessor]
    case calls    => rw [List.filter_append, filter_delivery.left, List.append_nil, h.calls, List.filterMap_append]; simp [Move.use?]
    case packets  =>
      rw [List.filter_append, filter_delivery.right, h.packets, arrived, arrived, List.length_append,
        (completed_add hn).left, List.map_append]
    case sent  => exact h.sent
    case reads => exact h.reads.trans written_performAll.flatten
  case answers  => exact h.answers
  case received => exact hp
  case buffered => rwa [List.length_append]

-- Whatever happens at the server, it goes on with what it has read and with what it has answered.
theorem reads_occur (hr : (c.loop.view clientFd).reads.flatten <+: c.upstream)
    (ho : o.clientFd = clientFd → c.Carries clientFd o) :
    ∃ reads, ((occur loopHandler c.loop o).view clientFd).reads = (c.loop.view clientFd).reads ++ reads ∧
      ((c.loop.view clientFd).reads ++ reads).flatten <+: c.upstream := by
  have hv := (occur_view loopHandler_serves c.loop o).left
  have hn {v : View} (h : v.reads = (c.loop.view clientFd).reads) : ∃ reads,
      v.reads = (c.loop.view clientFd).reads ++ reads ∧ ((c.loop.view clientFd).reads ++ reads).flatten <+: c.upstream :=
    ⟨[], by rw [h, List.append_nil], by rwa [List.append_nil]⟩
  rw [hv, Function.update_apply]
  split
  case isFalse => exact hn rfl
  case isTrue h =>
    subst h
    replace ho := ho rfl
    cases o
    case connected => exact hn rfl
    case hangUp    => exact hn View.reads_remove
    case readable fd results =>
      rw [View.occur]
      split
      case isFalse => exact hn rfl
      case isTrue =>
        obtain ⟨reads, hr, hp⟩ := View.reads_readAll (c.loop.view fd) (loopReaction fd) results
        exact ⟨reads, hr, ((List.prefix_append_right_inj _).mpr hp).flatten.trans ho⟩

theorem Sound.occurs (h : c.Sound clientFd a moves uses) (ho : o.clientFd = clientFd → c.Carries clientFd o) :
    Sound clientFd a (moves ++ [.occurs o]) uses { c with loop := occur loopHandler c.loop o } := by
  have ⟨reads, hr, hp⟩ := reads_occur h.reads ho
  have ha : Answers (occur loopHandler c.loop o).toTcpServer := h.answers.occur
  have hs : ((occur loopHandler c.loop o).view clientFd).sent =
      (c.loop.view clientFd).sent ++ reads.filterMap (answer clientFd) := by
    rw [sent_eq ha, hr, List.filterMap_append, ← h.sent]
  have hg : ∀ g ∈ reads.filterMap (answer clientFd), 0 < g.length := by
    intro g hg
    have ⟨_, _, ha⟩ := List.mem_filterMap.mp hg
    obtain ⟨_, _, _, rfl⟩ := answer_eq_some ha
    exact loginAcceptedBytes_length ▸ by decide
  have hn : c.received.length ≤ (c.loop.view clientFd).sent.flatten.length := h.received.length_le
  constructor
  case toConforms =>
    constructor
    case accessor => exact h.accessor
    case calls    => rw [h.calls, List.filterMap_append]; simp [Move.use?]
    case packets  => rw [h.packets, arrived, arrived, hs, completed_append_of_le hn hg]
    case sent     => exact sent_eq ha
    case reads    => exact hr ▸ hp
  case answers  => exact ha
  case received =>
    rw [downstream, hs, List.flatten_append]
    exact h.received.trans (List.prefix_append ..)
  case buffered =>
    rw [hs]
    exact ⟨(pending_append_of_le hn hg).symm ▸ h.buffered.dataSize, (pending_append_of_le hn hg).symm ▸ h.buffered.holds⟩

theorem sound_invariant (clientFd : ℕ) (a : BistMarketAccessor) :
    Run.Invariant step { accessor := a } (fun _ => Enabled clientFd) (fun moves c => ∃ uses, c.Sound clientFd a moves uses) where
  init := ⟨[], ⟨rfl, rfl, rfl, rfl, List.nil_prefix⟩, rfl, List.nil_prefix, ⟨rfl, rfl⟩⟩
  next := by
    intro moves c move ⟨uses, h⟩ he
    cases move
    case call use => exact ⟨_, rfl, _, h.call he⟩
    case occurs o => exact ⟨_, rfl, _, h.occurs he.right⟩
    case clientReads bytes =>
      have ⟨_, c', hs, _, _, h'⟩ := h.clientReads he.left he.right
      exact ⟨c', hs, _, h'⟩

-- However the bytes are delayed and cut into reads, and whatever the other clients do, each end makes of the
-- connection what the calls and the whole packets make of it, in the order in which they come.
theorem conforms (h : Run.Admits step { accessor := a } (fun _ => Enabled clientFd) moves) :
    ∃ c uses, Run.exec step { accessor := a } moves = .ok c ∧ c.Conforms clientFd a moves uses := by
  have ⟨c, hc, uses, hs⟩ := (sound_invariant clientFd a).exec h
  exact ⟨c, uses, hc, hs.toConforms⟩

section Authentication

theorem perform_state (h : use.isCall) : (a.perform use).state = a.state := by
  cases use
  case handleMessage => contradiction
  all_goals rfl

theorem delivery_state {sessionName : List UInt8} :
    (a.perform (delivery (loginAcceptedBytes sessionName))).state = .continuous := by
  have h : a.perform (delivery (loginAcceptedBytes sessionName)) = deliver a (loginAcceptedBytes sessionName) := rfl
  rw [h, deliver_loginAcceptedBytes, onLoginAccepted_session.left]

theorem performAll_state (ha : a.state ≠ .continuous)
    (h : ∀ use ∈ uses, use.isCall = false → ∃ sessionName, use = delivery (loginAcceptedBytes sessionName)) :
    (a.performAll uses).state = .continuous ↔ ∃ use ∈ uses, use.isCall = false := by
  induction uses using List.reverseRecOn
  case nil => exact iff_of_false ha (by simp)
  case append_singleton uses use hi =>
    have ⟨h, hu⟩ := List.forall_mem_append.mp h
    rw [performAll_concat]
    cases hc : use.isCall
    case true  => simpa [perform_state hc, hc] using hi h
    case false =>
      obtain ⟨_, rfl⟩ := hu use (List.mem_singleton_self use) hc
      exact iff_of_true delivery_state ⟨_, by simp, hc⟩

theorem completed_ne_nil_iff {fs : List (List UInt8)} {n k : ℕ} (h : ∀ f ∈ fs, f.length = k) (hk : 0 < k)
    (hn : n ≤ fs.flatten.length) : completed fs n ≠ [] ↔ k ≤ n := by
  cases fs
  case nil =>
    have h0 : n = 0 := Nat.le_zero.mp hn
    exact iff_of_false (not_not.mpr rfl) (by omega)
  case cons f fs =>
    have hf := h f List.mem_cons_self
    cases Nat.lt_or_ge n f.length
    case inl hl => rw [completed_of_lt hl]; exact iff_of_false (not_not.mpr rfl) (by omega)
    case inr hl => rw [completed_of_le hl]; exact iff_of_true (List.cons_ne_nil _ _) (by omega)

theorem Conforms.delivered (h : c.Conforms clientFd a moves uses) (hu : use ∈ uses) (hc : use.isCall = false) :
    ∃ f ∈ (c.loop.view clientFd).sent, use = delivery f := by
  have hm : use ∈ uses.filter (!Use.isCall ·) := List.mem_filter.mpr ⟨hu, by rw [hc]; rfl⟩
  rw [h.packets] at hm
  have ⟨f, hf, he⟩ := List.mem_map.mp hm
  have hs := completed_append_remaining (c.loop.view clientFd).sent c.received.length
  exact ⟨f, hs ▸ List.mem_append_left _ hf, he.symm⟩

theorem Sound.continuous_iff (h : c.Sound clientFd a moves uses) (ha : a.state ≠ .continuous) :
    c.accessor.state = .continuous ↔ 33 ≤ c.received.length := by
  have hd use (hu : use ∈ uses) (hc : use.isCall = false) : ∃ sessionName, use = delivery (loginAcceptedBytes sessionName) := by
    obtain ⟨f, hf, rfl⟩ := h.delivered hu hc
    obtain ⟨sessionName, rfl⟩ := h.mem_sent hf
    exact ⟨sessionName, rfl⟩
  have hl : ∀ f ∈ (c.loop.view clientFd).sent, f.length = 33 := by
    intro f hf
    obtain ⟨_, rfl⟩ := h.mem_sent hf
    exact loginAcceptedBytes_length
  have hn : uses.filter (!Use.isCall ·) ≠ [] ↔ ∃ use ∈ uses, use.isCall = false := by
    simp [List.filter_eq_nil_iff]
  rw [h.accessor, performAll_state ha hd, ← hn, h.packets, ne_eq, List.map_eq_nil_iff]
  exact completed_ne_nil_iff hl (by decide) h.received.length_le

-- The client takes its session to be continuous from the first whole reply on, and there is no reply
-- without the credentials of the exchange in something that has been read from this client.
theorem continuous_authenticated (ha : a.state ≠ .continuous)
    (h : Run.Admits step { accessor := a } (fun _ => Enabled clientFd) moves) :
    ∃ c, Run.exec step { accessor := a } moves = .ok c ∧
      (c.accessor.state = .continuous ↔ 33 ≤ c.received.length) ∧
      (c.accessor.state = .continuous → ∃ bytes ∈ (c.loop.view clientFd).reads, 49 ≤ bytes.length ∧ CredentialsAt (.ofList bytes)) := by
  have ⟨c, hc, uses, hs⟩ := (sound_invariant clientFd a).exec h
  refine ⟨c, hc, hs.continuous_iff ha, fun hcont => ?_⟩
  have hl := (hs.continuous_iff ha).mp hcont
  have hd := hs.received.length_le
  have hne : (c.loop.view clientFd).sent ≠ [] := by
    intro he
    rw [downstream, he] at hd
    exact absurd (hl.trans hd) (by decide)
  have ⟨f, hf⟩ := List.exists_mem_of_ne_nil _ hne
  rw [hs.sent] at hf
  have ⟨bytes, hm, hr⟩ := List.mem_filterMap.mp hf
  have ⟨h49, hcr, _⟩ := answer_eq_some hr
  exact ⟨bytes, hm, h49, hcr⟩

end Authentication

section Samples

-- The client of `trading_client.cpp`
def testPartition : OrderEntryPartitionConfig where
  instrumentType := .equity
  username       := text "TEST"
  password       := text "TEST_PWD"

def testAccessor : BistMarketAccessor :=
  ofPartition testPartition sampleExchangeInfo 1

def testLogin : List UInt8 :=
  testAccessor.login.written.flatten

def testReply : List UInt8 :=
  (answer 5 testLogin).getD []

-- The login is answered, and the answer arrives in two pieces.
def testMoves : List Move := [
  .call .login,
  .occurs (.connected 5),
  .occurs (.readable 5 [.bytes testLogin, .wouldBlock]),
  .clientReads (testReply.take 20),
  .clientReads (testReply.drop 20)
]

theorem testMoves_enabled : Run.Admits step { accessor := testAccessor } (fun _ => Enabled 5) testMoves := by
  refine ((((Run.Admits.nil.snoc ?_).snoc ?_).snoc ?_).snoc ?_).snoc ?_
  all_goals
    intro c hc
    cases hc
  · rfl
  · exact ⟨rfl, fun _ => rfl⟩
  · have hp : [testLogin] <+: testAccessor.login.written := by decide +kernel
    exact ⟨rfl, fun _ => hp.flatten⟩
  · exact ⟨⟨by decide +kernel, by decide +kernel⟩, by decide +kernel⟩
  · exact ⟨⟨by decide +kernel, by decide +kernel⟩, by decide +kernel⟩

theorem conforms_test :
    ∃ c uses, Run.exec step { accessor := testAccessor } testMoves = .ok c ∧ c.Conforms 5 testAccessor testMoves uses :=
  conforms testMoves_enabled

theorem continuous_authenticated_test :
    ∃ c, Run.exec step { accessor := testAccessor } testMoves = .ok c ∧
      (c.accessor.state = .continuous ↔ 33 ≤ c.received.length) ∧
      (c.accessor.state = .continuous → ∃ bytes ∈ (c.loop.view 5).reads, 49 ≤ bytes.length ∧ CredentialsAt (.ofList bytes)) :=
  continuous_authenticated BistMarketAccessor.State.noConfusion testMoves_enabled

end Samples

end Connection
