import SyncWizard.Common.Connection
import SyncWizard.Common.FileSystem
import SyncWizard.Common.Locks

/-! The state of a client process: its connection to the server, the files of its machine, the
two folders it works in, and the queue its handlers and its user interface share. -/

namespace SyncWizard.Client
open Foundation Common

inductive Scope where
  | networkCommands
  | clientSide
  | serverSide
  deriving DecidableEq, Repr

def Scope.name : Scope → Text
  | .networkCommands => txt " NETWORK COMMANDS"
  | .clientSide => txt " CLIENT SIDE NETWORK COMMANDS"
  | .serverSide => txt " SERVER SIDE NETWORK COMMANDS"

def clientError (scope : Scope) (error : Text) : Text :=
  txt "[CLIENT APP" ++ scope.name ++ txt "] " ++ error

structure ClientState where
  net : ConnectionManager
  files : FileSystem
  syncDirPath : Text
  asyncDirPath : Text
  fileMtx : LockTable
  senderBuffer : List Packet
  runningApp : Bool
  runningSender : Bool
  runningReceiver : Bool

namespace ClientState

def push (w : ClientState) (p : Packet) : ClientState :=
  { w with senderBuffer := w.senderBuffer ++ [p] }

def setLock (w : ClientState) (name : Text) (lock : Option Lock) : ClientState :=
  { w with fileMtx := Function.update w.fileMtx name lock }

def stop (w : ClientState) : ClientState :=
  { w with runningApp := false, runningSender := false, runningReceiver := false }

end ClientState

abbrev ClientExec (α : Type) := Exec ClientState α

variable {α : Type}

def onFiles (p : Exec FileSystem α) : ClientExec α :=
  zoom ClientState.files (fun f w => { w with files := f }) p

def onNet (p : Exec ConnectionManager α) : ClientExec α :=
  zoom ClientState.net (fun m w => { w with net := m }) p

theorem onFiles_bind {β : Type} (p : Exec FileSystem α) (f : α → Exec FileSystem β) :
    onFiles (p >>= f) = onFiles p >>= fun a => onFiles (f a) := by
  unfold onFiles
  apply zoom_bind
  · exact fun _ _ => rfl
  · exact fun _ _ _ => rfl

def pushPacket (p : Packet) : ClientExec Unit := modify fun w => w.push p

def fileMutex (name : Text) : ClientExec (Option Lock) := do return (← get).fileMtx name

def lockFile (name : Text) : ClientExec Unit :=
  lockIn ClientState.fileMtx (fun table w => { w with fileMtx := table }) name

end SyncWizard.Client
