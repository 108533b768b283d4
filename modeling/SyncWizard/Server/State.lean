import SyncWizard.Common.Connection
import SyncWizard.Common.FileSystem
import SyncWizard.Common.Locks

/-! The state of the server process: the session and user objects, the user group that points
to them, the connection manager and the file system they share. -/

namespace SyncWizard.Server
open Foundation Common

abbrev SessionId := ℕ

abbrev UserId := ℕ

/-- What the constructor of `ClientSession` fixes; `owner` is the user that its broadcast
callback captured. -/
structure Identity where
  socketFd : ℤ
  username : Text
  machine : Text
  directoryPath : Text
  owner : UserId
  deriving DecidableEq, Repr

structure ClientSession where
  identity : Identity
  senderBuffer : List Packet
  fileMtx : LockTable
  runningSender : Bool
  runningReceiver : Bool

structure User where
  username : Text
  maxSessions : BitVec 32
  sessions : List SessionId

structure ServerState where
  net : ConnectionManager
  files : FileSystem
  session : SessionId → ClientSession
  user : UserId → User
  users : List UserId
  nextSession : SessionId
  nextUser : UserId

def syncDir : Text := txt "./sync_dir_server"

namespace ServerState

def init (net : ConnectionManager) (files : FileSystem) : ServerState where
  net := net
  files := files
  session _ := ⟨⟨-1, [], [], [], 0⟩, [], fun _ => none, false, false⟩
  user _ := ⟨[], 0, []⟩
  users := []
  nextSession := 0
  nextUser := 0

def setSession (w : ServerState) (s : SessionId) (c : ClientSession) : ServerState :=
  { w with session := Function.update w.session s c }

def setUser (w : ServerState) (u : UserId) (v : User) : ServerState :=
  { w with user := Function.update w.user u v }

def push (w : ServerState) (s : SessionId) (p : Packet) : ServerState :=
  w.setSession s { w.session s with senderBuffer := (w.session s).senderBuffer ++ [p] }

def setLock (w : ServerState) (s : SessionId) (name : Text) (lock : Option Lock) : ServerState :=
  w.setSession s { w.session s with fileMtx := Function.update (w.session s).fileMtx name lock }

def stop (w : ServerState) (s : SessionId) : ServerState :=
  w.setSession s { w.session s with runningSender := false, runningReceiver := false }

end ServerState

abbrev ServerExec (α : Type) := Exec ServerState α

variable {α : Type}

def onFiles (p : Exec FileSystem α) : ServerExec α :=
  zoom ServerState.files (fun f w => { w with files := f }) p

def onNet (p : Exec ConnectionManager α) : ServerExec α :=
  zoom ServerState.net (fun m w => { w with net := m }) p

theorem onFiles_bind {β : Type} (p : Exec FileSystem α) (f : α → Exec FileSystem β) :
    onFiles (p >>= f) = onFiles p >>= fun a => onFiles (f a) := by
  unfold onFiles
  apply zoom_bind
  · exact fun _ _ => rfl
  · exact fun _ _ _ => rfl

section Running
variable {w : ServerState} {a : α} {e : Fault Text Crash} {f : FileSystem} {m : ConnectionManager}

theorem onFiles_ok {p : Exec FileSystem α} (h : p w.files = .ok a f) :
    onFiles p w = .ok a { w with files := f } := run_zoom_ok h

theorem onFiles_error {p : Exec FileSystem α} (h : p w.files = .error e f) :
    onFiles p w = .error e { w with files := f } := run_zoom_error h

theorem onFiles_inv {p : Exec FileSystem α} {w' : ServerState} (h : onFiles p w = .ok a w') :
    ∃ f, p w.files = .ok a f := by
  obtain ⟨f, hf, -⟩ := run_zoom_inv h
  exact ⟨f, hf⟩

theorem onNet_ok {p : Exec ConnectionManager α} (h : p w.net = .ok a m) :
    onNet p w = .ok a { w with net := m } := run_zoom_ok h

theorem onNet_error {p : Exec ConnectionManager α} (h : p w.net = .error e m) :
    onNet p w = .error e { w with net := m } := run_zoom_error h

theorem onNet_final (p : Exec ConnectionManager α) (w : ServerState) :
    (final (onNet p w)).net = final (p w.net) := by
  unfold onNet zoom
  cases p w.net <;> rfl

end Running

def pushPacket (s : SessionId) (p : Packet) : ServerExec Unit := modify fun w => w.push s p

def fileMutex (s : SessionId) (name : Text) : ServerExec (Option Lock) := do
  return (← get).session s |>.fileMtx name

def lockFile (s : SessionId) (name : Text) : ServerExec Unit :=
  lockIn (fun w => (w.session s).fileMtx)
    (fun table w => w.setSession s { w.session s with fileMtx := table }) name

def sessionError (error : Text) : Text := txt "[CLIENT CONNECTION] - SESSION COMMANDS" ++ error

def userError (error : Text) : Text := txt "[CLIENT CONNECTION] - USER MANAGER" ++ error

def Identity.identifier (me : Identity) : Text :=
  txt "@" ++ me.username ++ txt " (Session " ++ toText me.socketFd ++ txt ")"

end SyncWizard.Server
