import BistHft.Apps.Theorems.Segmentation
import BistHft.Network.Theorems.Connections

-- The emulator disconnects a client while the server is still reading from it.

open TcpServer

namespace ExchangeEmulator

def Reaction.actions : Reaction → List Action
  | .sendToClient bytes                                    => [.sendToClient bytes]
  | .disconnectClient                                      => [.disconnectClient]
  | .tooShort | .incomplete | .invalidLoginRequest | .nothing => []

-- Only the last read matters.
def behavior : Behavior := fun handled =>
  match handled.getLast? with
  | some (clientFd, read) => (reaction clientFd read).actions
  | none                  => []

theorem messageHandler_serves : Serves messageHandler behavior := by
  intro server clientFd data length hl
  have hh : data.Holds (data.bytes 0 length) := by rw [Memory.Holds, Memory.bytes_length]
  have hr : handleSoupBinTcpMessage clientFd data (data.bytes 0 length).length = _ := reaction_of_holds hh
  rw [Memory.bytes_length] at hr
  rw [messageHandler, hr, behavior, hl]
  dsimp only
  cases reaction clientFd (data.bytes 0 length) <;> rfl

theorem registered_iff_heartbeat :
    (handleClientData messageHandler sampleServer 5 [.bytes heartbeatPacket, .wouldBlock]).erased = false ↔
      (5 ∈ sampleServer.clients →
        KeepsClient behavior sampleServer.handled 5 [.bytes heartbeatPacket, .wouldBlock]) :=
  registered_iff messageHandler_serves rfl

-- A logout, and the read that finds that there is nothing more.
theorem logout_reads_erased : Serves messageHandler behavior ∧ sampleServer.erased = false ∧
    (handleClientData messageHandler sampleServer 5 [.bytes logoutPacket, .wouldBlock]).erased = true :=
  ⟨messageHandler_serves, rfl, by decide +kernel⟩

end ExchangeEmulator
