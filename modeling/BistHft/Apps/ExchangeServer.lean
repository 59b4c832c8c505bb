import BistHft.Apps.ExchangeEmulator
import BistHft.Network.ServerLoop

-- The emulator on the loop of its server. The connection handler that `main` sets only prints what it is told.

namespace ExchangeEmulator

def loopHandler : ServerLoop.MessageHandler := fun loop clientFd data length =>
  match handleSoupBinTcpMessage clientFd data length with
  | .sendToClient bytes => loop.sendToClient clientFd bytes
  | .disconnectClient   => loop.disconnectClient clientFd
  | .tooShort | .incomplete | .invalidLoginRequest | .nothing => loop

end ExchangeEmulator
