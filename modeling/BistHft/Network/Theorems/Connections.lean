import BistHft.Network.TcpServer

-- Which reads of `handleClientData` are made while the server still has the connection.

namespace TcpServer

-- What a message handler does for the client that it is serving.
inductive Action
  | sendToClient (bytes : List UInt8)
  | disconnectClient

def act (clientFd : ℕ) (server : TcpServer) : Action → TcpServer
  | .sendToClient bytes => server.sendToClient clientFd bytes
  | .disconnectClient   => server.disconnectClient clientFd

-- It does nothing else. What it does may depend on everything that it has been called with so far.
abbrev Behavior := List (ℕ × List UInt8) → List Action

def Serves (messageHandler : MessageHandler) (behavior : Behavior) : Prop :=
  ∀ server clientFd data length, server.handled.getLast? = some (clientFd, data.bytes 0 length) →
    messageHandler server clientFd data length = (behavior server.handled).foldl (act clientFd) server

-- The handler does not disconnect the client as long as something is read after it.
def KeepsClient (behavior : Behavior) (handled : List (ℕ × List UInt8)) (clientFd : ℕ) (results : List ReadResult) : Prop :=
  ∀ reads rest, results = reads.map .bytes ++ rest → reads ≠ [] → (∀ bytes ∈ reads, bytes ≠ []) → rest ≠ [] →
    ∀ action ∈ behavior (handled ++ reads.map (clientFd, ·)), action ≠ .disconnectClient

variable {server : TcpServer} {clientFd : ℕ} {action : Action} {actions : List Action} {buffer : Memory}
variable {messageHandler : MessageHandler} {behavior : Behavior} {handled : List (ℕ × List UInt8)}
variable {bytes : List UInt8} {result : ReadResult} {results : List ReadResult}

section Actions

theorem act_sendToClient : ∃ written, act clientFd server (.sendToClient bytes) = { server with written } := by
  rw [act, sendToClient]
  split
  case isTrue  => exact ⟨_, rfl⟩
  case isFalse => exact ⟨server.written, rfl⟩

theorem handled_act : (act clientFd server action).handled = server.handled := by
  cases action
  case disconnectClient => rfl
  case sendToClient =>
    obtain ⟨_, he⟩ := act_sendToClient
    rw [he]

theorem erased_act : (act clientFd server action).erased = server.erased := by
  cases action
  case disconnectClient => rfl
  case sendToClient =>
    obtain ⟨_, he⟩ := act_sendToClient
    rw [he]

theorem mem_clients_act :
    clientFd ∈ (act clientFd server action).clients ↔ clientFd ∈ server.clients ∧ action ≠ .disconnectClient := by
  cases action
  case disconnectClient => exact iff_of_false (Finset.notMem_erase clientFd _) fun h => h.right rfl
  case sendToClient =>
    obtain ⟨_, he⟩ := act_sendToClient
    rw [he]
    exact (and_iff_left Action.noConfusion).symm

theorem handled_foldl : (actions.foldl (act clientFd) server).handled = server.handled := by
  induction actions generalizing server
  case nil     => rfl
  case cons hi => rw [List.foldl_cons, hi, handled_act]

theorem erased_foldl : (actions.foldl (act clientFd) server).erased = server.erased := by
  induction actions generalizing server
  case nil     => rfl
  case cons hi => rw [List.foldl_cons, hi, erased_act]

theorem mem_clients_foldl : clientFd ∈ (actions.foldl (act clientFd) server).clients ↔
    clientFd ∈ server.clients ∧ ∀ action ∈ actions, action ≠ .disconnectClient := by
  induction actions generalizing server
  case nil     => simp
  case cons hi => rw [List.foldl_cons, hi, mem_clients_act, List.forall_mem_cons, and_assoc]

end Actions

section Keeps

theorem keepsClient_nil : KeepsClient behavior handled clientFd [] := by
  intro reads rest he _ _ hr
  exact absurd (List.append_eq_nil_iff.mp he.symm).right hr

-- Anything but bytes ends the loop.
theorem keepsClient_of_ne (h : ∀ bytes, result = .bytes bytes → bytes = []) :
    KeepsClient behavior handled clientFd (result :: results) := by
  intro reads rest he hn hb _
  obtain ⟨bytes, reads, rfl⟩ := List.exists_cons_of_ne_nil hn
  obtain ⟨he, _⟩ := List.cons.inj he
  exact absurd (h bytes he) (hb bytes List.mem_cons_self)

theorem keepsClient_bytes_iff (h : bytes ≠ []) :
    KeepsClient behavior handled clientFd (.bytes bytes :: results) ↔
      (results ≠ [] → ∀ action ∈ behavior (handled ++ [(clientFd, bytes)]), action ≠ .disconnectClient) ∧
        KeepsClient behavior (handled ++ [(clientFd, bytes)]) clientFd results := by
  constructor
  case mp =>
    intro hk
    constructor
    case left  => exact hk [bytes] results rfl (List.cons_ne_nil _ _) (List.forall_mem_singleton.mpr h)
    case right =>
      rintro reads rest rfl _ hb hr
      have hb' : ∀ b ∈ bytes :: reads, b ≠ [] := List.forall_mem_cons.mpr ⟨h, hb⟩
      rw [List.append_assoc]
      exact hk (bytes :: reads) rest rfl (List.cons_ne_nil _ _) hb' hr
  case mpr =>
    rintro ⟨h₁, h₂⟩ reads rest he hn hb hr
    obtain ⟨bytes', reads, rfl⟩ := List.exists_cons_of_ne_nil hn
    obtain ⟨he, rfl⟩ := List.cons.inj he
    cases he
    cases reads
    case nil => exact h₁ hr
    case cons bytes' reads =>
      have hb := (List.forall_mem_cons.mp hb).right
      have hk := h₂ (bytes' :: reads) rest rfl (List.cons_ne_nil _ _) hb hr
      rwa [List.append_assoc] at hk

end Keeps

-- Without the client the next read goes through the erased iterator.
theorem readAll_cons_of_notMem (h : clientFd ∉ server.clients) :
    readAll messageHandler clientFd server buffer (result :: results) = { server with erased := true } :=
  if_neg h

theorem readAll_erased_of_notMem (h : clientFd ∉ server.clients) (he : server.erased = false) :
    (readAll messageHandler clientFd server buffer results).erased = false ↔ results = [] := by
  cases results
  case nil => exact iff_of_true he rfl
  case cons result results =>
    rw [readAll_cons_of_notMem h]
    exact iff_of_false Bool.noConfusion (List.cons_ne_nil _ _)

theorem readAll_erased_iff (hs : Serves messageHandler behavior) (hm : clientFd ∈ server.clients)
    (he : server.erased = false) :
    (readAll messageHandler clientFd server buffer results).erased = false ↔
      KeepsClient behavior server.handled clientFd results := by
  induction results generalizing server buffer
  case nil => exact iff_of_true he keepsClient_nil
  case cons result results hi =>
    cases result
    case wouldBlock =>
      rw [readAll, if_pos hm]
      exact iff_of_true he (keepsClient_of_ne fun _ hb => by cases hb)
    case error =>
      rw [readAll, if_pos hm]
      exact iff_of_true he (keepsClient_of_ne fun _ hb => by cases hb)
    case bytes bytes =>
      rw [readAll, if_pos hm]
      cases Decidable.em (bytes = [])
      case inl hb =>
        subst hb
        exact iff_of_true he (keepsClient_of_ne fun _ hb => by cases hb; rfl)
      case inr hb =>
        let server' := server.recordHandled clientFd bytes
        have hl : server'.handled.getLast? = some (clientFd, (buffer.store 0 bytes).bytes 0 bytes.length) := by
          rw [Memory.bytes_store rfl]
          exact List.getLast?_concat
        have hc : clientFd ∈ ((behavior server'.handled).foldl (act clientFd) server').clients ↔
            ∀ action ∈ behavior server'.handled, action ≠ .disconnectClient :=
          mem_clients_foldl.trans (and_iff_right hm)
        dsimp only
        rw [if_neg (by simpa using hb), Memory.bytes_store rfl, keepsClient_bytes_iff hb,
          hs server' clientFd _ _ hl]
        cases Classical.em (clientFd ∈ ((behavior server'.handled).foldl (act clientFd) server').clients)
        case inl hm' =>
          rw [hi hm' (erased_foldl.trans he), handled_foldl]
          exact (and_iff_right fun _ => hc.mp hm').symm
        case inr hm' =>
          rw [readAll_erased_of_notMem hm' (erased_foldl.trans he)]
          constructor
          case mp  => rintro rfl; exact ⟨fun h => absurd rfl h, keepsClient_nil⟩
          case mpr => exact fun h => not_not.mp fun hr => hm' <| hc.mpr <| h.left hr

-- The loop always reads once more after the handler.
theorem registered_iff (hs : Serves messageHandler behavior) (he : server.erased = false) :
    (handleClientData messageHandler server clientFd results).erased = false ↔
      (clientFd ∈ server.clients → KeepsClient behavior server.handled clientFd results) := by
  rw [handleClientData]
  split
  case isTrue hm  => rw [readAll_erased_iff hs hm he, imp_iff_right hm]
  case isFalse hm => exact iff_of_true he fun h => absurd h hm

end TcpServer
