import SyncWizard.Client.Login
import SyncWizard.Client.Sync

/-! The constructor of the client, which connects and logs in, and the calls of `ConnectionManager` that
it makes before there is a connection. The lines it shows are left out. -/

namespace SyncWizard.Client
open Foundation Common

/-- How the calls of one launch go. A name is resolved twice, and need not lead to the same host. -/
structure LaunchCalls where
  host : Host
  fuel : ℕ
  machineName : Text
  socket : ℤ
  getHostByName : Bool → Text → Option Text
  inetNtop : Text → Option Text
  inetPton : Text → Bool
  connect : ℤ → Text → ℤ → Bool

section Launching
variable (c : LaunchCalls)

def getHostByName (again : Bool) (hostName : Text) : Exec ConnectionManager Text :=
  match c.getHostByName again hostName with
  | none => raise (connectionError [] (txt "Error resolving host!"))
  | some host =>
    match c.inetNtop host with
    | none => raise (connectionError [] (txt "Error converting IP address!"))
    | some ip => pure ip

def connectToServer (address : Text) (port : ℤ) : Exec ConnectionManager Unit := do
  let adjustedAddress ← getHostByName c true address
  if !c.inetPton adjustedAddress then raise (loginError (txt "Error converting IP address!"))
  else if !c.connect (← get).sockfd adjustedAddress port then
    raise (loginError (txt "Error connecting to server!"))

def validArguments (username serverAddress : Text) (serverPort : ℤ) : Bool :=
  isValidUsername username && isValidAddress serverAddress && isValidPort serverPort

def establish (username serverAddress : Text) (serverPort : ℤ) : Exec ConnectionManager ℤ := do
  createSocket c.socket
  let _ ← getHostByName c false serverAddress
  connectToServer c serverAddress serverPort
  login c.host c.fuel username c.machineName

/-- The members that the constructor does not name are left as they are. What `UserInterface::start`
throws it also catches. -/
def launch (username serverAddress : Text) (serverPort : ℤ) : ClientExec ℤ :=
  if !validArguments username serverAddress serverPort then
    raise (txt "Critical error parsing command-line options:")
  else
    attempt
      (do
        let sessionId ← onNet (establish c username serverAddress serverPort)
        modify fun w => { w with runningApp := true }
        pure sessionId)
      fun what => raise (unscoped (txt "Critical error intializing:\n\t\t" ++ what))

end Launching

end SyncWizard.Client
