import SyncWizard.Common.Connection

/-! The client's half of the login handshake, `ClientConnectionManager::login`. -/

namespace SyncWizard.Client
open Foundation Common

def loginError (error : Text) : Text := connectionError (txt "[CLIENT]") error

def readConfirmation {σ : Type} (loginConfirmation : Packet) : Exec σ ℤ := do
  let sanitizedPayload ← splitBuffer loginConfirmation.memory
  let command ← fieldAt sanitizedPayload 0
  let status ← fieldAt sanitizedPayload 1
  if command = txt "login" then
    if status = txt "ok" then do
      let sessionSid ← fieldAt sanitizedPayload 2
      match stoi sessionSid with
      | some sessionId => pure sessionId
      -- the message of std::invalid_argument
      | none => raise (txt "stoi")
    else if status = txt "fail" then do
      let reason ← charraystr loginConfirmation.payload loginConfirmation.payloadSize.toNat
      raise (loginError (txt "Login refused! " ++ reason))
    else raise (loginError (txt "Unknown login command status!"))
  else raise (loginError (txt "Unknown command! Expected 'login', but got '" ++ command ++ txt "'!"))

section Login
variable (h : Host) (fuel : ℕ)

def sendLogin (username machineName : Text) : Exec ConnectionManager Unit := do
  let p ← Packet.init.setCommand (txt "login|" ++ username ++ txt "|" ++ machineName)
  sendPacket h fuel p (← get).sockfd

def receiveConfirmation : Exec ConnectionManager ℤ := do
  let loginConfirmation ← receivePacket h (← get).sockfd
  readConfirmation loginConfirmation

def login (username machineName : Text) : Exec ConnectionManager ℤ := do
  attempt (sendLogin h fuel username machineName) fun what =>
    raise (loginError (txt "Could not send login request:\n\t\t" ++ what))
  attempt (receiveConfirmation h) fun what =>
    raise (loginError (txt "A critical error occured while loggin in: " ++ what))

end Login

end SyncWizard.Client
