import BistHft.Client.OrderEntryClient
import BistHft.Network.TcpServer

-- The exchange that the client is tried out against.

namespace ExchangeEmulator

-- What is done with a packet. The first three reject it.
inductive Reaction
  | tooShort
  | incomplete
  | invalidLoginRequest
  | sendToClient (bytes : List UInt8)
  | disconnectClient
  | nothing
  deriving DecidableEq

def text (s : String) : List UInt8 :=
  s.toList.map Char.toUInt8

def trimString (arr : List UInt8) : List UInt8 :=
  (arr.reverse.dropWhile (· = ' '.toUInt8)).reverse

def loginAcceptedBytes (sessionName : List UInt8) : List UInt8 :=
  let loginAccepted := Memory.zeros
    |>.store16 0 (htobe16 31)
    |>.store 2 [PacketType.loginAccepted.code]
    |>.store 3 (toPaddedArray 10 sessionName)
    |>.store 13 (toPaddedArray 20 (text "1"))
  loginAccepted.bytes 0 33

def handleSoupBinTcpMessage (clientFd : ℕ) (data : Memory) (length : ℕ) : Reaction :=
  if length < 3 then
    .tooShort
  else
    let packetLength := be16toh (data.load16 0)
    if length < 2 + packetLength.toNat then
      .incomplete
    else
      let packetType := data 2
      if packetType = PacketType.loginRequest.code then
        if length < 49 then
          .invalidLoginRequest
        else
          let username := trimString (data.bytes 3 6)
          let password := trimString (data.bytes 9 10)
          let sessionName := trimString (data.bytes 19 10)
          if username = text "TEST" ∧ password = text "TEST_PWD" then
            if sessionName.isEmpty then
              .sendToClient <| loginAcceptedBytes <| text "SES_" ++ (Nat.toDigits 10 clientFd).map Char.toUInt8
            else
              .sendToClient (loginAcceptedBytes sessionName)
          else
            .disconnectClient
      else if packetType = PacketType.logoutRequest.code then
        .disconnectClient
      else
        .nothing

-- The handler that `main` sets.
def messageHandler : TcpServer.MessageHandler := fun server clientFd data length =>
  match handleSoupBinTcpMessage clientFd data length with
  | .sendToClient bytes => server.sendToClient clientFd bytes
  | .disconnectClient   => server.disconnectClient clientFd
  | .tooShort | .incomplete | .invalidLoginRequest | .nothing => server

end ExchangeEmulator
