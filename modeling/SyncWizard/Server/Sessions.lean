import SyncWizard.Server.Network

/-! Users and logins: `UserGroup` and `User`, `Server::handle_new_session`, and one connection of
`ServerConnectionManager::server_accept_loop`. -/

namespace SyncWizard.Server
open Foundation Common

def serverError (error : Text) : Text := txt "[SYNCWIZARD SERVER] " ++ error

def noThread : Text := txt "Resource temporarily unavailable"

def getUser (username : Text) : ServerExec (Option UserId) := do
  let w ← get
  return w.users.find? fun u => (w.user u).username = username

namespace ServerState

def load (w : ServerState) (v : User) : ServerState :=
  { w.setUser w.nextUser v with users := w.users ++ [w.nextUser], nextUser := w.nextUser + 1 }

def allocate (w : ServerState) (identity : Identity) : ServerState :=
  { w.setSession w.nextSession ⟨identity, [], fun _ => none, true, true⟩ with
    nextSession := w.nextSession + 1 }

def appendSession (w : ServerState) (u : UserId) (s : SessionId) : ServerState :=
  w.setUser u { w.user u with sessions := (w.user u).sessions ++ [s] }

def dropSession (w : ServerState) (u : UserId) (s : SessionId) : ServerState :=
  w.setUser u { w.user u with sessions := (w.user u).sessions.erase s }

def unload (w : ServerState) (username : Text) : ServerState :=
  { w with users := w.users.eraseP fun u => (w.user u).username = username }

end ServerState

section Registering
variable (h : Host)

def prepareFolder (username userDirPath : Text) : ServerExec Unit := do
  if ← onFiles (isValidPath h userDirPath) then pure ()
  else if ← onFiles (createDirectory h userDirPath) then pure ()
  else raise (userError (txt "Could not create folder for user " ++ username))

def startThread (worker : Worker) : ServerExec Unit :=
  if h.spawns worker then pure () else raise noThread

/-- The constructor of `User`. `max_sessions_` is declared before the constant it is initialised
from, so it holds whatever was in its place. -/
def newUser (username homeDir : Text) : ServerExec User := do
  prepareFolder h username (homeDir ++ txt "/" ++ username)
  startThread h .overseer
  pure ⟨username, h.uninitialised, []⟩

def loadUser (username : Text) : ServerExec Unit := do
  let v ← newUser h username syncDir
  modify fun w => w.load v

def unloadUser (username : Text) : ServerExec Unit := modify fun w => w.unload username

def getSession (u : UserId) (sockFd : ℤ) : ServerExec (Option SessionId) := do
  let w ← get
  return (w.user u).sessions.find? fun s => (w.session s).identity.socketFd = sockFd

def getActiveSessionCount (u : UserId) : ServerExec ℕ := do return ((← get).user u).sessions.length

/-- `sessions_.size() <= max_sessions_`, the `int` widened to `size_t`. -/
def belowLimit (v : User) : Bool :=
  (BitVec.ofNat 64 v.sessions.length).ule (v.maxSessions.signExtend 64)

def addSession (u : UserId) (s : SessionId) : ServerExec Unit := do
  if belowLimit ((← get).user u) then modify fun w => w.appendSession u s
  else raise (userError (txt "Session limit reached for this user!"))

def removeFrom (u : UserId) (sockFd : ℤ) (reason : Text) : List SessionId → ServerExec Unit
  | [] => raise (userError (txt "Could not find given session to remove!"))
  | s :: rest => do
    if (← getSocketFd s) = sockFd then do
      disconnect s reason
      modify fun w => w.dropSession u s
    else removeFrom u sockFd reason rest

def removeSession (u : UserId) (sockFd : ℤ) (reason : Text) : ServerExec Unit := do
  match ← getSession u sockFd with
  -- the test is inverted: a session that is there is reported as missing
  | some _ => raise (userError (txt "No session exists under given socket descriptor!"))
  | none => removeFrom u sockFd reason ((← get).user u).sessions

/-- The constructor of `ClientSession`. When only the first thread starts, destroying its handle
terminates the process. -/
def newSession (identity : Identity) : ServerExec SessionId := do
  startThread h .sender
  if h.spawns .receiver then do
    let s := (← get).nextSession
    modify fun w => w.allocate identity
    pure s
  else crash .terminate

def userOf (username : Text) : ServerExec UserId := do
  -- load_user gives no pointer back, so the user is looked up again
  match ← getUser username with
  | some u => pure u
  | none => do
    loadUser h username
    match ← getUser username with
    | some u => pure u
    | none => raise (serverError (txt "User was wrongly or not added to the user manager!"))

def confirmation (activeSessions : ℕ) : Text := txt "login|ok|" ++ toText (activeSessions + 1)

/-- The session that is registered for a user: its directory is the storage of the whole server. -/
def registeredAs (newSocket : ℤ) (username machine : Text) (u : UserId) : Identity :=
  ⟨newSocket, username, machine, syncDir, u⟩

def openSession (fuel : ℕ) (newSocket : ℤ) (username machine : Text) (u : UserId)
    (activeSessions : ℕ) : ServerExec Unit := do
  let p ← Packet.init.setCommand (confirmation activeSessions)
  onNet (sendPacket h fuel p newSocket)
  -- the client has its confirmation before the session exists
  let s ← newSession h (registeredAs newSocket username machine u)
  addSession u s

def loginOf (fuel : ℕ) (newSocket : ℤ) (username machine : Text) (u : UserId) : ServerExec Unit := do
  let activeSessions ← getActiveSessionCount u
  if activeSessions < 2 then
    match ← getSession u newSocket with
    | none => openSession h fuel newSocket username machine u activeSessions
    | some _ => raise (serverError (txt "Session already logged in? Socket busy."))
  else raise (serverError (txt "User already has 2 sessions connected!"))

def registerSession (fuel : ℕ) (newSocket : ℤ) (username machine : Text) : ServerExec Unit := do
  let u ← userOf h username
  loginOf h fuel newSocket username machine u

def handleNewSession (fuel : ℕ) (newSocket : ℤ) (username machine : Text) : ServerExec Unit :=
  attempt (registerSession h fuel newSocket username machine) fun what =>
    raise (serverError (txt "Exception occurred while processing new session: \n\t\t" ++ what))

/-! ## The accept loop -/

def closeSocket (fd : ℤ) : ServerExec Unit :=
  modify fun w => { w with net := { w.net with isOpen := Function.update w.net.isOpen fd false } }

def refuse (fuel : ℕ) (newSocket : ℤ) (reason : Text) : ServerExec Unit := do
  let p ← Packet.init.setCommand (txt "login|fail")
  -- the payload pointer of a new packet is null
  let p ← p.setReason reason
  onNet (sendPacket h fuel p newSocket)
  closeSocket newSocket

def approve (fuel : ℕ) (newSocket : ℤ) : ServerExec Unit := do
  -- the literal is a pointer, and adding the socket moves it on
  let command ← literalPlus h (txt "login|ok|") newSocket
  let p ← Packet.init.setCommand command
  onNet (sendPacket h fuel p newSocket)

section Answers
variable {h} {R : ServerState → ServerState → Prop} [Std.Refl R] [IsTrans ServerState R] {fuel : ℕ}
  {newSocket : ℤ} (hsend : ∀ p, Kept R (onNet (sendPacket h fuel p newSocket)))
include hsend

theorem refuse_kept (hclose : Kept R (closeSocket newSocket)) (reason : Text) :
    Kept R (refuse h fuel newSocket reason) :=
  Kept.bind (Packet.setCommand_kept _ _) fun _ => Kept.bind (Packet.setReason_kept _ _) fun p =>
    Kept.bind (hsend p) fun _ => hclose

theorem approve_kept : Kept R (approve h fuel newSocket) :=
  Kept.bind (literalPlus_kept _ _ _) fun _ => Kept.bind (Packet.setCommand_kept _ _) hsend

end Answers

def answerLogin (fuel : ℕ) (newSocket : ℤ) (acceptPacket : Packet) : ServerExec Unit := do
  match ← splitBuffer acceptPacket.memory with
  | [_, username, machine] =>
    if isValidUsername username then
      attempt
        (do
          handleNewSession h fuel newSocket username machine
          approve h fuel newSocket)
        fun what => refuse h fuel newSocket (txt "Exception ocurred registring new user:" ++ what)
    else refuse h fuel newSocket (txt "Invalid user info!")
  | _ => refuse h fuel newSocket (txt "Malformed login command, invalid argument number")

def acceptConnection (fuel : ℕ) (newSocket : ℤ) : ServerExec Unit :=
  attempt
    (do
      let acceptPacket ← onNet (receivePacket h newSocket)
      answerLogin h fuel newSocket acceptPacket)
    fun _ => closeSocket newSocket

end Registering

end SyncWizard.Server
