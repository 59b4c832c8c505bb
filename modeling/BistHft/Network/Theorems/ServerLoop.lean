import BistHft.Basic
import BistHft.Network.ServerLoop
import BistHft.Network.Theorems.Connections
import BistHft.Lib.Trace

-- The server as seen by each of its clients. A client is a small automaton of its own, and the loop is
-- nothing but all of them side by side.

namespace ServerLoop

open TcpServer

-- What the waits of the loop lead to, one client at a time.
inductive Occurrence
  | connected (clientFd : ℕ)
  | readable (clientFd : ℕ) (results : List ReadResult)
  | hangUp (clientFd : ℕ)
  deriving DecidableEq

def Occurrence.clientFd : Occurrence → ℕ
  | connected clientFd | readable clientFd _ | hangUp clientFd => clientFd

variable {loop : ServerLoop} {clientFd fd : ℕ} {bytes : List UInt8} {result : ReadResult} {results : List ReadResult}
variable {messageHandler : MessageHandler} {buffer : Memory}

def occur (messageHandler : MessageHandler) (loop : ServerLoop) : Occurrence → ServerLoop
  | .connected clientFd        => loop.addClient clientFd
  | .readable clientFd results => loop.handleClientData messageHandler clientFd results
  | .hangUp clientFd           => loop.removeClient clientFd

section Occurrences

def connections : List AcceptResult → List Occurrence
  | .accepted clientFd :: results => .connected clientFd :: connections results
  | .blocking _ :: results        => connections results
  | .wouldBlock :: _ | .error :: _ | [] => []

def Event.occurrences : Event → List Occurrence
  | listening results         => connections results
  | readable clientFd results => [.readable clientFd results]
  | hangUp clientFd           => [.hangUp clientFd]

def occurrences : List Wait → List Occurrence
  | []                      => []
  | .interrupted :: waits   => occurrences waits
  | .failed :: _            => []
  | .events events :: waits => events.flatMap Event.occurrences ++ occurrences waits

theorem handleNewConnection_eq (messageHandler : MessageHandler) {results : List AcceptResult} :
    loop.handleNewConnection results = (connections results).foldl (occur messageHandler) loop := by
  induction results generalizing loop
  case nil => rfl
  case cons result results hi =>
    cases result
    case accepted           => exact hi
    case blocking           => exact hi
    case wouldBlock | error => rfl

theorem handleEvents_eq {events : List Event} :
    events.foldl (handleEvent messageHandler) loop =
      (events.flatMap Event.occurrences).foldl (occur messageHandler) loop := by
  induction events generalizing loop
  case nil => rfl
  case cons event events hi =>
    rw [List.foldl_cons, List.flatMap_cons, List.foldl_append, hi]
    cases event
    case listening         => rw [handleEvent, handleNewConnection_eq messageHandler]; rfl
    case readable | hangUp => rfl

theorem serverLoop_eq {waits : List Wait} :
    serverLoop messageHandler loop waits = (occurrences waits).foldl (occur messageHandler) loop := by
  induction waits generalizing loop
  case nil => rfl
  case cons wait waits hi =>
    cases wait
    case interrupted   => exact hi
    case failed        => rfl
    case events events => rw [serverLoop, occurrences, List.foldl_append, hi, handleEvents_eq]

end Occurrences

-- One client on its own: whether it is registered, what has been read from it and sent to it, and what
-- the connection handler has been told about it.
structure View where
  registered : Bool := false
  reads      : List (List UInt8) := []
  sent       : List (List UInt8) := []
  told       : List Bool := []
  deriving DecidableEq

namespace View

def connect (view : View) : View :=
  { view with registered := true, told := view.told ++ [true] }

def remove (view : View) : View :=
  if view.registered then { view with registered := false, told := view.told ++ [false] } else view

def send (view : View) (bytes : List UInt8) : View :=
  if view.registered then { view with sent := view.sent ++ [bytes] } else view

def act (view : View) : Action → View
  | .sendToClient bytes => view.send bytes
  | .disconnectClient   => view.remove

def read (view : View) (bytes : List UInt8) : View :=
  { view with reads := view.reads ++ [bytes] }

-- What a client makes the handler do depends on all that has been read from it so far.
abbrev Reaction := List (List UInt8) → List Action

-- The second result is whether the connection has been read after it was removed.

def readAll (reaction : Reaction) : View → List ReadResult → View × Bool
  | view, []                => (view, false)
  | view, result :: results =>
    if view.registered then
      match result with
      | .wouldBlock  => (view, false)
      | .error       => (view.remove, false)
      | .bytes bytes =>
        if bytes.isEmpty then
          (view.remove, false)
        else
          readAll reaction ((reaction (view.read bytes).reads).foldl act (view.read bytes)) results
    else
      (view, true)

def occur (reaction : Reaction) (view : View) : Occurrence → View × Bool
  | .connected _        => (view.connect, false)
  | .readable _ results => if view.registered then view.readAll reaction results else (view, false)
  | .hangUp _           => (view.remove, false)

end View

structure Client extends View where
  erased : Bool := false
  deriving DecidableEq

def Client.occur (reaction : ℕ → View.Reaction) (client : Client) (o : Occurrence) : Client where
  toView := (client.toView.occur (reaction o.clientFd) o).1
  erased := client.erased || (client.toView.occur (reaction o.clientFd) o).2

-- What a log says about a client.
def entries {β : Type*} (clientFd : ℕ) (log : List (ℕ × β)) : List β :=
  (log.filter (·.1 = clientFd)).map Prod.snd

def view (loop : ServerLoop) (clientFd : ℕ) : View where
  registered := clientFd ∈ loop.clients
  reads      := entries clientFd loop.handled
  sent       := entries clientFd loop.written
  told       := entries clientFd loop.notified

def act (clientFd : ℕ) (loop : ServerLoop) : Action → ServerLoop
  | .sendToClient bytes => loop.sendToClient clientFd bytes
  | .disconnectClient   => loop.disconnectClient clientFd

-- The handler acts on the client that it is called for, and on nothing else.
def Serves (messageHandler : MessageHandler) (reaction : ℕ → View.Reaction) : Prop :=
  ∀ loop clientFd data length, (loop.view clientFd).reads.getLast? = some (data.bytes 0 length) →
    messageHandler loop clientFd data length = (reaction clientFd (loop.view clientFd).reads).foldl (act clientFd) loop

section Server

-- Apart from what the connection handler is told, the loop is the server without it.

variable {actions : List Action} {action : Action} {serverHandler : TcpServer.MessageHandler}

def Extends (messageHandler : MessageHandler) (serverHandler : TcpServer.MessageHandler) : Prop :=
  ∀ loop clientFd data length,
    (messageHandler loop clientFd data length).toTcpServer = serverHandler loop.toTcpServer clientFd data length

theorem toTcpServer_removeClient : (loop.removeClient clientFd).toTcpServer = loop.toTcpServer.removeClient clientFd := by
  rw [removeClient]
  split
  case isTrue    => rfl
  case isFalse h => rw [TcpServer.removeClient, Finset.erase_eq_of_notMem h]

theorem toTcpServer_act : (act clientFd loop action).toTcpServer = TcpServer.act clientFd loop.toTcpServer action := by
  cases action
  case sendToClient     => rfl
  case disconnectClient => exact toTcpServer_removeClient

theorem toTcpServer_foldl :
    (actions.foldl (act clientFd) loop).toTcpServer = actions.foldl (TcpServer.act clientFd) loop.toTcpServer := by
  induction actions generalizing loop
  case nil     => rfl
  case cons hi => rw [List.foldl_cons, hi, toTcpServer_act, List.foldl_cons]

theorem toTcpServer_readAll (h : Extends messageHandler serverHandler) :
    (ServerLoop.readAll messageHandler clientFd loop buffer results).toTcpServer =
      TcpServer.readAll serverHandler clientFd loop.toTcpServer buffer results := by
  induction results generalizing loop buffer
  case nil => rfl
  case cons result results hi =>
    rw [ServerLoop.readAll.eq_def, TcpServer.readAll.eq_def]
    dsimp only
    split
    case isFalse => rfl
    case isTrue  =>
      cases result
      case wouldBlock => rfl
      case error      => exact toTcpServer_removeClient
      case bytes bytes =>
        dsimp only
        split
        case isTrue  => exact toTcpServer_removeClient
        case isFalse => rw [hi, h]; rfl

theorem toTcpServer_handleClientData (h : Extends messageHandler serverHandler) :
    (loop.handleClientData messageHandler clientFd results).toTcpServer =
      loop.toTcpServer.handleClientData serverHandler clientFd results := by
  rw [ServerLoop.handleClientData, TcpServer.handleClientData]
  split
  case isTrue  => exact toTcpServer_readAll h
  case isFalse => rfl

end Server

section Views

variable {actions : List Action} {action : Action} {reaction : ℕ → View.Reaction} {view : View} {o : Occurrence}

theorem entries_append {β : Type*} {log : List (ℕ × β)} {b : β} :
    entries fd (log ++ [(clientFd, b)]) = if fd = clientFd then entries fd log ++ [b] else entries fd log := by
  rw [entries, List.filter_append, List.map_append, ← entries]
  split
  case isTrue h  => subst h; simp
  case isFalse h => simp [Ne.symm h]

-- Each operation changes the view of the client that it is for.

theorem view_eq_update (hs : loop.view clientFd = view) {loop' : ServerLoop}
    (ho : ∀ fd, fd ≠ clientFd → loop.view fd = loop'.view fd) : loop.view = Function.update loop'.view clientFd view := by
  funext fd
  rw [Function.update_apply]
  split
  case isTrue h  => exact h ▸ hs
  case isFalse h => exact ho fd h

theorem view_addClient :
    (loop.addClient clientFd).view = Function.update loop.view clientFd (loop.view clientFd).connect := by
  apply view_eq_update
  case hs => simp [ServerLoop.view, addClient, View.connect, entries_append]
  case ho =>
    intro fd h
    simp [ServerLoop.view, addClient, entries_append, h]

theorem view_removeClient :
    (loop.removeClient clientFd).view = Function.update loop.view clientFd (loop.view clientFd).remove := by
  rw [removeClient, View.remove]
  cases Decidable.em (clientFd ∈ loop.clients)
  case inr h =>
    have hr : ¬(loop.view clientFd).registered := by simpa [ServerLoop.view] using h
    rw [if_neg h, if_neg hr, Function.update_eq_self]
  case inl h =>
    have hr : (loop.view clientFd).registered := by simpa [ServerLoop.view] using h
    rw [if_pos h, if_pos hr]
    apply view_eq_update
    case hs => simp [ServerLoop.view, TcpServer.removeClient, entries_append]
    case ho =>
      intro fd h
      simp [ServerLoop.view, TcpServer.removeClient, entries_append, h]

theorem view_sendToClient :
    (loop.sendToClient clientFd bytes).view = Function.update loop.view clientFd ((loop.view clientFd).send bytes) := by
  rw [sendToClient, TcpServer.sendToClient, View.send]
  cases Decidable.em (clientFd ∈ loop.clients)
  case inr h =>
    have hr : ¬(loop.view clientFd).registered := by simpa [ServerLoop.view] using h
    rw [if_neg h, if_neg hr, Function.update_eq_self]
  case inl h =>
    have hr : (loop.view clientFd).registered := by simpa [ServerLoop.view] using h
    rw [if_pos h, if_pos hr]
    apply view_eq_update
    case hs => simp [ServerLoop.view, entries_append]
    case ho =>
      intro fd h
      simp [ServerLoop.view, entries_append, h]

theorem view_recordHandled :
    (loop.recordHandled clientFd bytes).view = Function.update loop.view clientFd ((loop.view clientFd).read bytes) := by
  have hv fd : (loop.recordHandled clientFd bytes).view fd =
      { loop.view fd with reads := entries fd (loop.handled ++ [(clientFd, bytes)]) } := rfl
  apply view_eq_update
  case hs => rw [hv, entries_append, if_pos rfl]; rfl
  case ho =>
    intro fd h
    rw [hv, entries_append, if_neg h]
    rfl

theorem filter_eq_singleton {l : List ℕ} (hn : l.Nodup) : l.filter (· = fd) = if fd ∈ l then [fd] else [] := by
  induction l
  case nil => rfl
  case cons a l hi =>
    have ⟨ha, hn⟩ := List.nodup_cons.mp hn
    rw [List.filter_cons, hi hn]
    cases Decidable.em (a = fd)
    case inl h => subst h; simp [ha]
    case inr h => simp [h, Ne.symm h]

-- Every client that is registered gets a message that is broadcast.
theorem view_broadcastToAll : (loop.broadcastToAll bytes).view fd = (loop.view fd).send bytes := by
  have he : entries fd ((loop.clients.sort (· ≤ ·)).map (·, bytes)) = if fd ∈ loop.clients then [bytes] else [] := by
    rw [entries, List.filter_map, List.map_map]
    have hf : (loop.clients.sort (· ≤ ·)).filter ((fun e : ℕ × List UInt8 => decide (e.1 = fd)) ∘ (·, bytes)) = _ :=
      filter_eq_singleton (Finset.sort_nodup ..)
    rw [hf]
    simp only [Finset.mem_sort]
    split <;> rfl
  have hw : entries fd (loop.written ++ (loop.clients.sort (· ≤ ·)).map (·, bytes)) =
      entries fd loop.written ++ if fd ∈ loop.clients then [bytes] else [] := by
    rw [entries, List.filter_append, List.map_append, ← entries, ← entries, he]
  rw [View.send]
  cases Decidable.em (fd ∈ loop.clients)
  case inl h =>
    have hr : (loop.view fd).registered := by simpa [ServerLoop.view] using h
    rw [if_pos hr]
    rw [if_pos h] at hw
    exact congrArg (View.mk _ _ · _) hw
  case inr h =>
    have hr : ¬(loop.view fd).registered := by simpa [ServerLoop.view] using h
    rw [if_neg hr]
    rw [if_neg h, List.append_nil] at hw
    exact congrArg (View.mk _ _ · _) hw

-- A server that is stopped forgets its clients, which the connection handler is not told.
theorem view_stop : loop.stop.view fd = { loop.view fd with registered := false } := by
  simp [ServerLoop.view, stop]

theorem view_act :
    (act clientFd loop action).view = Function.update loop.view clientFd ((loop.view clientFd).act action) := by
  cases action
  case sendToClient     => exact view_sendToClient
  case disconnectClient => exact view_removeClient

theorem view_foldl : (actions.foldl (act clientFd) loop).view =
    Function.update loop.view clientFd (actions.foldl View.act (loop.view clientFd)) := by
  induction actions generalizing loop
  case nil     => exact (Function.update_eq_self ..).symm
  case cons hi => rw [List.foldl_cons, hi, view_act, Function.update_idem, Function.update_self, List.foldl_cons]

theorem erased_removeClient : (loop.removeClient clientFd).erased = loop.erased := by
  rw [toTcpServer_removeClient]
  rfl

theorem erased_foldl : (actions.foldl (act clientFd) loop).erased = loop.erased := by
  rw [toTcpServer_foldl]
  exact TcpServer.erased_foldl

section Reads

theorem readAll_of_notMem (h : clientFd ∉ loop.clients) :
    ServerLoop.readAll messageHandler clientFd loop buffer (result :: results) = { loop with erased := true } :=
  if_neg h

theorem readAll_wouldBlock (h : clientFd ∈ loop.clients) :
    ServerLoop.readAll messageHandler clientFd loop buffer (.wouldBlock :: results) = loop :=
  if_pos h

theorem readAll_error (h : clientFd ∈ loop.clients) :
    ServerLoop.readAll messageHandler clientFd loop buffer (.error :: results) = loop.removeClient clientFd :=
  if_pos h

theorem readAll_closed (h : clientFd ∈ loop.clients) :
    ServerLoop.readAll messageHandler clientFd loop buffer (.bytes [] :: results) = loop.removeClient clientFd :=
  if_pos h

theorem readAll_bytes (h : clientFd ∈ loop.clients) (hb : bytes ≠ []) :
    ServerLoop.readAll messageHandler clientFd loop buffer (.bytes bytes :: results) =
      ServerLoop.readAll messageHandler clientFd
        (messageHandler (loop.recordHandled clientFd bytes) clientFd (buffer.store 0 bytes) bytes.length)
        (buffer.store 0 bytes) results := by
  have he : ¬bytes.isEmpty := by simpa using hb
  rw [ServerLoop.readAll.eq_def]
  dsimp only
  rw [if_pos h, if_neg he, Memory.bytes_store rfl]

end Reads

theorem view_registered : (loop.view clientFd).registered ↔ clientFd ∈ loop.clients :=
  decide_eq_true_iff

theorem readAll_refines (hs : Serves messageHandler reaction) :
    (readAll messageHandler clientFd loop buffer results).view =
        Function.update loop.view clientFd ((loop.view clientFd).readAll (reaction clientFd) results).1 ∧
      (readAll messageHandler clientFd loop buffer results).erased =
        (loop.erased || ((loop.view clientFd).readAll (reaction clientFd) results).2) := by
  induction results generalizing loop buffer
  case nil => exact ⟨(Function.update_eq_self ..).symm, (Bool.or_false _).symm⟩
  case cons result results hi =>
    rw [View.readAll.eq_def]
    cases Decidable.em (clientFd ∈ loop.clients)
    case inr hm =>
      rw [readAll_of_notMem hm]
      dsimp only
      rw [if_neg (mt view_registered.mp hm)]
      exact ⟨(Function.update_eq_self ..).symm, (Bool.or_true _).symm⟩
    case inl hm =>
      dsimp only
      rw [if_pos (view_registered.mpr hm)]
      cases result
      case wouldBlock =>
        rw [readAll_wouldBlock hm]
        exact ⟨(Function.update_eq_self ..).symm, (Bool.or_false _).symm⟩
      case error =>
        rw [readAll_error hm]
        exact ⟨view_removeClient, erased_removeClient.trans (Bool.or_false _).symm⟩
      case bytes bytes =>
        dsimp only
        split
        case isTrue he =>
          obtain rfl := List.isEmpty_iff.mp he
          rw [readAll_closed hm]
          exact ⟨view_removeClient, erased_removeClient.trans (Bool.or_false _).symm⟩
        case isFalse he =>
          have hr : ((loop.recordHandled clientFd bytes).view clientFd) = (loop.view clientFd).read bytes := by
            rw [view_recordHandled, Function.update_self]
          have hl : ((loop.recordHandled clientFd bytes).view clientFd).reads.getLast? =
              some ((buffer.store 0 bytes).bytes 0 bytes.length) := by
            rw [hr, Memory.bytes_store rfl]
            exact List.getLast?_concat
          rw [readAll_bytes hm (by simpa using he), hs _ _ _ _ hl, hi.left, hi.right, view_foldl, erased_foldl, hr,
            view_recordHandled, Function.update_idem, Function.update_self, Function.update_idem]
          exact ⟨rfl, rfl⟩

theorem occur_view (hs : Serves messageHandler reaction) (loop : ServerLoop) (o : Occurrence) :
    (occur messageHandler loop o).view = Function.update loop.view o.clientFd
        ((loop.view o.clientFd).occur (reaction o.clientFd) o).1 ∧
      (occur messageHandler loop o).erased =
        (loop.erased || ((loop.view o.clientFd).occur (reaction o.clientFd) o).2) := by
  cases o
  case connected => exact ⟨view_addClient, (Bool.or_false _).symm⟩
  case hangUp    => exact ⟨view_removeClient, erased_removeClient.trans (Bool.or_false _).symm⟩
  case readable clientFd results =>
    rw [occur, handleClientData, Occurrence.clientFd, View.occur]
    cases Decidable.em (clientFd ∈ loop.clients)
    case inl hm =>
      rw [if_pos hm, if_pos (view_registered.mpr hm)]
      exact readAll_refines hs
    case inr hm =>
      rw [if_neg hm, if_neg (mt view_registered.mp hm)]
      exact ⟨(Function.update_eq_self ..).symm, (Bool.or_false _).symm⟩

end Views

section Refinement

variable {reaction : ℕ → View.Reaction} {clients : ℕ → Client} {o : Occurrence} {os : List Occurrence}

-- The loop holds these clients, and has gone wrong if it has for one of them.
structure Refines (loop : ServerLoop) (clients : ℕ → Client) : Prop where
  view   : ∀ fd, loop.view fd = (clients fd).toView
  erased : loop.erased ↔ ∃ fd, (clients fd).erased

theorem refines_empty : Refines {} fun _ => {} where
  view _ := rfl
  erased := by simp

theorem Refines.occur (h : loop.Refines clients) (hs : Serves messageHandler reaction) :
    (ServerLoop.occur messageHandler loop o).Refines
      (Function.update clients o.clientFd ((clients o.clientFd).occur reaction o)) := by
  have ⟨hv, he⟩ := occur_view hs loop o
  rw [h.view] at hv he
  constructor
  case view =>
    intro fd
    rw [hv, Function.update_apply, Function.update_apply]
    split
    case isTrue  => rfl
    case isFalse => exact h.view fd
  case erased =>
    rw [he, Bool.or_eq_true, h.erased]
    constructor
    case mp =>
      rintro (⟨fd, hf⟩ | hf)
      case inr => exact ⟨o.clientFd, by rw [Function.update_self, Client.occur, hf, Bool.or_true]⟩
      case inl =>
        refine ⟨fd, ?_⟩
        rw [Function.update_apply]
        split
        case isTrue h  => rw [Client.occur, ← h, hf, Bool.true_or]
        case isFalse h => exact hf
    case mpr =>
      rintro ⟨fd, hf⟩
      rw [Function.update_apply] at hf
      split at hf
      case isFalse => exact .inl ⟨fd, hf⟩
      case isTrue =>
        rw [Client.occur, Bool.or_eq_true] at hf
        exact hf.imp_left fun hf => ⟨o.clientFd, hf⟩

theorem Refines.foldl (h : loop.Refines clients) (hs : Serves messageHandler reaction) (os : List Occurrence) :
    (os.foldl (ServerLoop.occur messageHandler) loop).Refines
      (os.foldl (fun clients o => Function.update clients o.clientFd ((clients o.clientFd).occur reaction o)) clients) := by
  induction os generalizing loop clients
  case nil     => exact h
  case cons hi => exact hi (h.occur hs)

-- A client after all that concerns it.
def clientOf (reaction : ℕ → View.Reaction) (os : List Occurrence) (clientFd : ℕ) : Client :=
  (os.filter (·.clientFd = clientFd)).foldl (Client.occur reaction) {}

theorem refines_clientOf (hs : Serves messageHandler reaction) (os : List Occurrence) :
    (os.foldl (ServerLoop.occur messageHandler) {}).Refines (clientOf reaction os) := by
  have h := refines_empty.foldl hs os
  have hc : (os.foldl (fun clients o => Function.update clients o.clientFd ((clients o.clientFd).occur reaction o))
      fun _ => {}) = clientOf reaction os := by
    funext fd
    exact Run.foldl_update (f := Client.occur reaction)
  exact hc ▸ h

theorem clientOf_filter : clientOf reaction (os.filter (·.clientFd = clientFd)) fd =
    if fd = clientFd then clientOf reaction os clientFd else {} := by
  rw [clientOf, List.filter_filter]
  split
  case isTrue h =>
    subst h
    rw [clientOf]
    simp only [Bool.and_self]
  case isFalse h =>
    have hn : os.filter (fun o => decide (o.clientFd = fd) && decide (o.clientFd = clientFd)) = [] := by
      apply List.filter_eq_nil_iff.mpr
      intro o _ ho
      rw [Bool.and_eq_true, decide_eq_true_eq, decide_eq_true_eq] at ho
      exact h (ho.left.symm.trans ho.right)
    rw [hn]
    rfl

-- What a client sees of the server does not depend on the other clients, and neither does whether the
-- server goes wrong over it.
theorem clients_isolated (hs : Serves messageHandler reaction) (waits : List Wait) :
    (∀ clientFd, (serverLoop messageHandler {} waits).view clientFd =
      (((occurrences waits).filter (·.clientFd = clientFd)).foldl (ServerLoop.occur messageHandler) {}).view clientFd) ∧
    ((serverLoop messageHandler {} waits).erased ↔ ∃ clientFd,
      (((occurrences waits).filter (·.clientFd = clientFd)).foldl (ServerLoop.occur messageHandler) {}).erased) := by
  have h := refines_clientOf hs (occurrences waits)
  have ho clientFd := refines_clientOf hs ((occurrences waits).filter (·.clientFd = clientFd))
  rw [serverLoop_eq]
  constructor
  case left =>
    intro clientFd
    rw [h.view, (ho clientFd).view, clientOf_filter, if_pos rfl]
  case right =>
    rw [h.erased]
    refine exists_congr fun clientFd => ?_
    rw [(ho clientFd).erased]
    constructor
    case mp  => exact fun he => ⟨clientFd, by rwa [clientOf_filter, if_pos rfl]⟩
    case mpr =>
      intro ⟨fd, he⟩
      rw [clientOf_filter] at he
      split at he
      case isTrue  => exact he
      case isFalse => contradiction

end Refinement

section Notifications

variable {reaction : ℕ → View.Reaction} {react : View.Reaction} {view view' view'' : View} {o : Occurrence} {os : List Occurrence}
variable {told : List Bool} {b : Bool} {action : Action} {actions : List Action}

-- The connection handler is told first that a client is connected, and then by turns that it is gone
-- and that it is back.
def Alternates (told : List Bool) : Prop :=
  told.head? ≠ some false ∧ told.IsChain (· ≠ ·)

theorem alternates_concat : Alternates (told ++ [b]) ↔ Alternates told ∧ told.getLast?.getD false ≠ b := by
  rw [Alternates, Alternates, List.isChain_append]
  cases told using List.reverseRecOn
  case nil => cases b <;> simp
  case append_singleton told c _ =>
    have hh : (told ++ [c] ++ [b]).head? = (told ++ [c]).head? := by cases told <;> rfl
    rw [hh, and_assoc]
    simp

namespace View

-- Who is registered is what the connection handler was told last.
def Consistent (view : View) : Prop :=
  view.registered = view.told.getLast?.getD false

-- Nothing that happens on the way leaves the order of the calls.
structure Quiet (view view' : View) : Prop where
  consistent : view.Consistent → view'.Consistent
  alternates : view.Consistent → (Alternates view'.told ↔ Alternates view.told)

theorem Quiet.refl : Quiet view view :=
  ⟨id, fun _ => .rfl⟩

theorem Quiet.trans (h : Quiet view view') (h' : Quiet view' view'') : Quiet view view'' :=
  ⟨h'.consistent ∘ h.consistent, fun hc => (h'.alternates (h.consistent hc)).trans (h.alternates hc)⟩

theorem Quiet.of_told (hr : view'.registered = view.registered) (ht : view'.told = view.told) : Quiet view view' where
  consistent h := by rwa [Consistent, hr, ht]
  alternates _ := by rw [ht]

theorem connect_consistent : view.connect.Consistent := by
  simp [Consistent, connect]

theorem connect_alternates (h : view.Consistent) :
    Alternates view.connect.told ↔ Alternates view.told ∧ view.registered = false := by
  rw [connect, alternates_concat, ← h, ne_eq, Bool.not_eq_true]

theorem remove_quiet : Quiet view view.remove := by
  rw [remove]
  split
  case isFalse => exact .refl
  case isTrue hr =>
    constructor
    case consistent => exact fun _ => by simp [Consistent]
    case alternates =>
      intro hc
      rw [alternates_concat, ← hc, hr]
      exact and_iff_left Bool.noConfusion

theorem act_quiet : Quiet view (view.act action) := by
  cases action
  case disconnectClient => exact remove_quiet
  case sendToClient =>
    rw [act, send]
    split
    case isTrue  => exact .of_told rfl rfl
    case isFalse => exact .refl

theorem foldl_quiet : Quiet view (actions.foldl act view) := by
  induction actions generalizing view
  case nil     => exact .refl
  case cons hi => exact act_quiet.trans hi

theorem readAll_quiet : Quiet view (view.readAll react results).1 := by
  induction results generalizing view
  case nil => exact .refl
  case cons result results hi =>
    rw [readAll.eq_def]
    dsimp only
    split
    case isFalse => exact .refl
    case isTrue =>
      cases result
      case wouldBlock => exact .refl
      case error      => exact remove_quiet
      case bytes bytes =>
        dsimp only
        split
        case isTrue  => exact remove_quiet
        case isFalse =>
          have hr : Quiet view (view.read bytes) := .of_told rfl rfl
          exact hr.trans (foldl_quiet.trans hi)

def Fresh (view : View) : Occurrence → Prop
  | .connected _               => view.registered = false
  | .readable _ _ | .hangUp _ => True

theorem occur_consistent (h : view.Consistent) (react : View.Reaction) (o : Occurrence) : (view.occur react o).1.Consistent ∧
    (Alternates (view.occur react o).1.told ↔ Alternates view.told ∧ view.Fresh o) := by
  have hq {view'} (hq : Quiet view view') : view'.Consistent ∧ (Alternates view'.told ↔ Alternates view.told ∧ True) :=
    ⟨hq.consistent h, (hq.alternates h).trans (and_iff_left trivial).symm⟩
  cases o
  case connected => exact ⟨connect_consistent, connect_alternates h⟩
  case hangUp    => exact hq remove_quiet
  case readable =>
    rw [occur]
    split
    case isTrue  => exact hq readAll_quiet
    case isFalse => exact hq .refl

end View

def step (messageHandler : MessageHandler) (loop : ServerLoop) (o : Occurrence) : Except Fault ServerLoop :=
  .ok <| occur messageHandler loop o

theorem exec_step : Run.exec (step messageHandler) loop os = .ok (os.foldl (occur messageHandler) loop) := by
  induction os generalizing loop
  case nil     => rfl
  case cons hi => exact hi

-- The kernel gives a new connection a number that is not in use.
def FreshAt (loop : ServerLoop) (o : Occurrence) : Prop :=
  (loop.view o.clientFd).Fresh o

theorem consistent_alternates (hs : Serves messageHandler reaction) (os : List Occurrence) :
    (∀ fd, ((os.foldl (occur messageHandler) {}).view fd).Consistent) ∧
      ((∀ fd, Alternates ((os.foldl (occur messageHandler) {}).view fd).told) ↔
        Run.Admits (step messageHandler) {} (fun _ => FreshAt) os) := by
  induction os using List.reverseRecOn
  case nil =>
    refine ⟨fun _ => rfl, iff_of_true (fun _ => ?_) .nil⟩
    exact ⟨by simp [ServerLoop.view, entries], .nil⟩
  case append_singleton os o hi =>
    obtain ⟨hc, ha⟩ := hi
    rw [Run.admits_snoc_iff exec_step, ← ha, List.foldl_concat]
    have ⟨hv, _⟩ := occur_view hs (os.foldl (occur messageHandler) {}) o
    rw [hv]
    have ⟨ho, hf⟩ := View.occur_consistent (hc o.clientFd) (reaction o.clientFd) o
    constructor
    case left =>
      intro fd
      rw [Function.update_apply]
      split
      case isTrue  => exact ho
      case isFalse => exact hc fd
    case right =>
      constructor
      case mp =>
        intro h
        have hself := h o.clientFd
        rw [Function.update_self, hf] at hself
        refine ⟨fun fd => ?_, hself.right⟩
        have hfd := h fd
        rw [Function.update_apply] at hfd
        split at hfd
        case isTrue he  => exact he ▸ hself.left
        case isFalse    => exact hfd
      case mpr =>
        intro ⟨h, hfresh⟩ fd
        rw [Function.update_apply]
        split
        case isTrue  => exact hf.mpr ⟨h _, hfresh⟩
        case isFalse => exact h fd

-- What the connection handler was told last is right, and it is not told twice in a row as long as the
-- kernel does not give the number of a client to another one.
theorem notified_alternates (hs : Serves messageHandler reaction) (waits : List Wait) :
    (∀ clientFd, clientFd ∈ (serverLoop messageHandler {} waits).clients ↔
      (entries clientFd (serverLoop messageHandler {} waits).notified).getLast? = some true) ∧
    ((∀ clientFd, Alternates (entries clientFd (serverLoop messageHandler {} waits).notified)) ↔
      Run.Admits (step messageHandler) {} (fun _ => FreshAt) (occurrences waits)) := by
  obtain ⟨hc, ha⟩ := consistent_alternates hs (occurrences waits)
  rw [serverLoop_eq]
  refine ⟨fun clientFd => ?_, ha⟩
  have hc : _ = (entries clientFd ((occurrences waits).foldl (occur messageHandler) {}).notified).getLast?.getD false :=
    hc clientFd
  rw [← view_registered, hc]
  cases (entries clientFd ((occurrences waits).foldl (occur messageHandler) {}).notified).getLast? <;> simp

end Notifications

section Samples

-- A server that sends back what it receives.
def echo : MessageHandler := fun loop clientFd data length =>
  loop.sendToClient clientFd (data.bytes 0 length)

theorem echo_serves : Serves echo fun _ reads => (reads.getLast?.map .sendToClient).toList := by
  intro loop clientFd data length hl
  dsimp only
  rw [hl]
  rfl

def sampleWaits : List Wait :=
  [.events [.listening [.accepted 5, .blocking 6, .accepted 7, .wouldBlock]], .interrupted,
    .events [.readable 7 [.bytes [1, 2], .bytes [3], .wouldBlock], .readable 5 [.bytes []], .hangUp 5]]

theorem clients_isolated_echo :
    (∀ clientFd, (serverLoop echo {} sampleWaits).view clientFd =
      (((occurrences sampleWaits).filter (·.clientFd = clientFd)).foldl (ServerLoop.occur echo) {}).view clientFd) ∧
    ((serverLoop echo {} sampleWaits).erased ↔ ∃ clientFd,
      (((occurrences sampleWaits).filter (·.clientFd = clientFd)).foldl (ServerLoop.occur echo) {}).erased) :=
  clients_isolated echo_serves sampleWaits

theorem notified_alternates_echo :
    (∀ clientFd, clientFd ∈ (serverLoop echo {} sampleWaits).clients ↔
      (entries clientFd (serverLoop echo {} sampleWaits).notified).getLast? = some true) ∧
    ((∀ clientFd, Alternates (entries clientFd (serverLoop echo {} sampleWaits).notified)) ↔
      Run.Admits (step echo) {} (fun _ => FreshAt) (occurrences sampleWaits)) :=
  notified_alternates echo_serves sampleWaits

example : (serverLoop echo {} sampleWaits).view 7 = { registered := true, reads := [[1, 2], [3]], sent := [[1, 2], [3]], told := [true] } := by
  decide +kernel

end Samples

end ServerLoop
