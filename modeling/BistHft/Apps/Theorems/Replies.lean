import BistHft.Apps.ExchangeServer
import BistHft.Apps.Theorems.Logout
import BistHft.Network.Theorems.ServerLoop

-- What the emulator sends over a whole run of its server, and when a run goes wrong.

open TcpServer ServerLoop

namespace ExchangeEmulator

variable {loop : ServerLoop} {server : TcpServer} {clientFd length : ℕ} {data buffer : Memory} {read : List UInt8}
variable {results : List ReadResult} {o : Occurrence} {os : List Occurrence} {waits : List Wait}

-- The handler is that of the server without the connection handler.
theorem loopHandler_extends : ServerLoop.Extends loopHandler messageHandler := by
  intro loop clientFd data length
  rw [loopHandler, messageHandler]
  cases handleSoupBinTcpMessage clientFd data length
  case disconnectClient => exact ServerLoop.toTcpServer_removeClient
  all_goals rfl

def loopReaction (clientFd : ℕ) (reads : List (List UInt8)) : List Action :=
  match reads.getLast? with
  | some read => (reaction clientFd read).actions
  | none      => []

theorem loopHandler_serves : Serves loopHandler loopReaction := by
  intro loop clientFd data length hl
  have hd : data.Holds (data.bytes 0 length) := congrArg (data.bytes 0) Memory.bytes_length
  have hr : handleSoupBinTcpMessage clientFd data (data.bytes 0 length).length = _ := reaction_of_holds hd
  rw [Memory.bytes_length] at hr
  rw [loopReaction, hl, loopHandler, hr]
  dsimp only
  cases reaction clientFd (data.bytes 0 length) <;> rfl

-- The answer to a read, if there is one.
def reply : ℕ × List UInt8 → Option (ℕ × List UInt8)
  | (clientFd, read) =>
    match reaction clientFd read with
    | .sendToClient bytes => some (clientFd, bytes)
    | .tooShort | .incomplete | .invalidLoginRequest | .disconnectClient | .nothing => none

section Reads

theorem messageHandler_erased : (messageHandler server clientFd data length).erased = server.erased := by
  rw [messageHandler]
  cases handleSoupBinTcpMessage clientFd data length
  case sendToClient =>
    dsimp only
    rw [TcpServer.sendToClient]
    split <;> rfl
  all_goals rfl

theorem afterRead_written (h : clientFd ∈ server.clients) :
    (afterRead server clientFd buffer read).written = server.written ++ (reply (clientFd, read)).toList := by
  have hr : handleSoupBinTcpMessage clientFd (buffer.store 0 read) read.length = reaction clientFd read :=
    reaction_of_holds (Memory.bytes_store rfl)
  rw [afterRead, messageHandler, hr, reply]
  cases reaction clientFd read
  case sendToClient bytes =>
    dsimp only
    rw [TcpServer.sendToClient]
    have hm : clientFd ∈ (server.recordHandled clientFd read).clients := h
    rw [if_pos hm]
    rfl
  all_goals exact (List.append_nil _).symm

end Reads

section Runs

-- Nothing is written but answers.
def Answers (server : TcpServer) : Prop :=
  server.written = server.handled.filterMap reply

theorem Answers.readAll (h : Answers server) : Answers (TcpServer.readAll messageHandler clientFd server buffer results) := by
  induction results generalizing server buffer
  case nil => exact h
  case cons result results hi =>
    cases Decidable.em (clientFd ∈ server.clients)
    case inr hm =>
      rw [readAll_cons_of_notMem hm]
      exact h
    case inl hm =>
      cases result
      case wouldBlock | error =>
        rw [TcpServer.readAll, if_pos hm]
        exact h
      case bytes read =>
        cases Decidable.em (read = [])
        case inl hr =>
          rw [TcpServer.readAll, if_pos hm, hr]
          exact h
        case inr hr =>
          rw [readAll_bytes hm hr]
          apply hi
          rw [Answers, afterRead_written hm, afterRead_handled, h, List.filterMap_append]
          cases hp : reply (clientFd, read) <;> simp [hp]

-- What is kept by the server on its own is kept by the loop.
theorem occur_keeps {I : TcpServer → Prop} (hi : I loop.toTcpServer)
    (hc : ∀ clientFd, I (loop.addClient clientFd).toTcpServer) (hd : ∀ clientFd, I (loop.toTcpServer.removeClient clientFd))
    (hr : ∀ clientFd results, o = .readable clientFd results → clientFd ∈ loop.clients →
      I (TcpServer.readAll messageHandler clientFd loop.toTcpServer .zeros results)) :
    I (ServerLoop.occur loopHandler loop o).toTcpServer := by
  cases o
  case connected => exact hc _
  case hangUp    => exact ServerLoop.toTcpServer_removeClient ▸ hd _
  case readable clientFd results =>
    rw [ServerLoop.occur, ServerLoop.toTcpServer_handleClientData loopHandler_extends, TcpServer.handleClientData]
    split
    case isTrue hm => exact hr clientFd results rfl hm
    case isFalse   => exact hi

theorem foldl_occur {I : TcpServer → Prop} (hi : I loop.toTcpServer)
    (hs : ∀ loop : ServerLoop, ∀ o ∈ os, I loop.toTcpServer → I (ServerLoop.occur loopHandler loop o).toTcpServer) :
    I (os.foldl (ServerLoop.occur loopHandler) loop).toTcpServer := by
  induction os generalizing loop
  case nil => exact hi
  case cons o os hr =>
    exact hr (hs loop o List.mem_cons_self hi) fun loop o' hm => hs loop o' (List.mem_cons_of_mem o hm)

theorem Answers.occur (h : Answers loop.toTcpServer) : Answers (ServerLoop.occur loopHandler loop o).toTcpServer :=
  occur_keeps h (fun _ => h) (fun _ => h) fun _ _ _ _ => h.readAll

-- Everything that the emulator writes answers something that it has read, in the order in which it was
-- read, and is sent to where it was read from.
theorem written_eq_replies (waits : List Wait) : (serverLoop loopHandler {} waits).written =
    (serverLoop loopHandler {} waits).handled.filterMap reply := by
  rw [serverLoop_eq]
  exact foldl_occur (I := Answers) rfl fun _ _ _ h => h.occur

end Runs

section Survival

-- The loop of `handleClientData` goes on until a read returns nothing more.
inductive Complete : List ReadResult → Prop
  | wouldBlock {rest} : Complete (.wouldBlock :: rest)
  | error {rest} : Complete (.error :: rest)
  | closed {rest} : Complete (.bytes [] :: rest)
  | bytes {bytes rest} (h : bytes ≠ []) (hc : Complete rest) : Complete (.bytes bytes :: rest)

theorem Complete.ne_nil (h : Complete results) : results ≠ [] := by
  cases h <;> exact List.cons_ne_nil _ _

-- The server has gone wrong over the reads after which it has disconnected a client.
def Survives (server : TcpServer) : Prop :=
  server.erased ↔ ∃ e ∈ server.handled, Disconnects e.1 e.2

theorem Survives.readAll (h : Survives server) (hm : clientFd ∈ server.clients) (hc : Complete results) :
    Survives (TcpServer.readAll messageHandler clientFd server buffer results) := by
  induction hc generalizing server buffer
  case wouldBlock | error | closed =>
    rw [TcpServer.readAll, if_pos hm]
    exact h
  case bytes read results hr hc hi =>
    rw [readAll_bytes hm hr]
    have hm' : clientFd ∈ (afterRead server clientFd buffer read).clients ↔ ¬Disconnects clientFd read :=
      mem_afterRead_clients_iff hm
    cases Decidable.em (Disconnects clientFd read)
    case inl hd =>
      obtain ⟨_, _, rfl⟩ := List.exists_cons_of_ne_nil hc.ne_nil
      rw [readAll_cons_of_notMem (mt hm'.mp (not_not.mpr hd)), Survives]
      refine iff_of_true rfl ⟨(clientFd, read), ?_, hd⟩
      exact afterRead_handled ▸ List.mem_append_right _ (List.mem_singleton_self _)
    case inr hd =>
      apply hi _ (hm'.mpr hd)
      have h : server.erased ↔ ∃ e ∈ server.handled, Disconnects e.1 e.2 := h
      have he : (afterRead server clientFd buffer read).erased = server.erased := messageHandler_erased
      rw [Survives, he, afterRead_handled, h]
      simp [hd]

theorem Survives.occur (h : Survives loop.toTcpServer)
    (hc : ∀ clientFd results, o = .readable clientFd results → Complete results) :
    Survives (ServerLoop.occur loopHandler loop o).toTcpServer :=
  occur_keeps h (fun _ => h) (fun _ => h) fun clientFd results ho hm => h.readAll hm (hc clientFd results ho)

-- The emulator cannot disconnect a client and live: the client is read once more after it is gone.
theorem survives_iff (hc : ∀ clientFd results, .readable clientFd results ∈ occurrences waits → Complete results) :
    (serverLoop loopHandler {} waits).erased = false ↔
      ∀ e ∈ (serverLoop loopHandler {} waits).handled, ¬Disconnects e.1 e.2 := by
  have h : Survives (serverLoop loopHandler {} waits).toTcpServer := by
    rw [serverLoop_eq]
    refine foldl_occur (I := Survives) (by simp [Survives]) fun _ o ho h => h.occur ?_
    rintro clientFd results rfl
    exact hc clientFd results ho
  rw [← Bool.not_eq_true, not_congr h]
  simp

def logoutWaits : List Wait :=
  [.events [.listening [.accepted 5]], .events [.readable 5 [.bytes logoutPacket, .wouldBlock]]]

theorem survives_iff_logout : (serverLoop loopHandler {} logoutWaits).erased = false ↔
    ∀ e ∈ (serverLoop loopHandler {} logoutWaits).handled, ¬Disconnects e.1 e.2 := by
  apply survives_iff
  intro clientFd results h
  obtain ⟨rfl, rfl⟩ : clientFd = 5 ∧ results = [.bytes logoutPacket, .wouldBlock] := by
    simpa [logoutWaits, occurrences, Event.occurrences, connections] using h
  exact .bytes (by decide) .wouldBlock

end Survival

end ExchangeEmulator
