import SyncWizard.Client.Cleanup
import SyncWizard.Client.Network

/-! The synchronization that `get sync dir` starts, and the two ways to stop it: the `exit` of the user
and that of the server. A command is one step, the rounds of the monitor thread come in between. -/

namespace SyncWizard.Client
open Foundation Common

/-- What the `std::thread` of the watcher stands for: nothing, a thread in the loop of
`monitor_directory`, or one that has left it and has not been joined. -/
inductive MonitorThread where
  | none
  | watching
  | left
  deriving DecidableEq, Repr

/-- The flags and the thread, and how `start_watching` found the thread each time. With `mainLoop` unset
an exception has ended the loop over the commands of the user. -/
structure SyncControl where
  mainLoop : Bool
  runningSync : Bool
  isRunning : Bool
  monitor : MonitorThread
  starts : List MonitorThread
  deriving DecidableEq, Repr

structure SyncState where
  client : ClientState
  control : SyncControl

abbrev SyncExec (α : Type) := Exec SyncState α

structure WatchCalls where
  inotifyInit : Bool
  addWatch : Text → Bool
  spawns : Bool

/-- The `read` that the monitor thread is in. Its descriptor is a member that nothing is assigned to: the
one that `inotify_init` returned is a local variable. -/
inductive PendingRead where
  | returns
  | fails
  | blocks
  deriving DecidableEq, Repr

variable {α : Type}

def onClient (p : ClientExec α) : SyncExec α :=
  zoom SyncState.client (fun w s => { s with client := w }) p

def control (f : SyncControl → SyncControl) : SyncExec Unit :=
  modify fun s => { s with control := f s.control }

/-! ## The watcher -/

def initWatcher : SyncExec Unit := control fun c => { c with isRunning := false }

/-- `monitor_thread_ = std::thread(..)`, which ends the process where there is a thread already. -/
def startMonitor : SyncExec Unit := do
  match (← get).control.monitor with
  | .none => control fun c => { c with monitor := .watching }
  | _ => crash .terminate

def startWatching (calls : WatchCalls) : SyncExec Unit := do
  control fun c => { c with starts := c.starts ++ [c.monitor] }
  if !calls.inotifyInit then raise (txt "[INOTIFY WATCHER] Error initializing.")
  else if !calls.addWatch (← get).client.syncDirPath then
    raise (txt "[INOTIFY WATCHER] Error adding watch.")
  else do
    control fun c => { c with isRunning := true }
    if calls.spawns then startMonitor else raise (txt "Resource temporarily unavailable")

/-- A thread in its loop goes on to the end of the round that it is in. -/
def joinMonitor (pending : PendingRead) : SyncExec Unit := do
  match (← get).control.monitor with
  | .none => pure ()
  | .left => control fun c => { c with monitor := .none }
  | .watching =>
    match pending with
    | .returns => control fun c => { c with monitor := .none }
    -- the exception leaves the function of the thread
    | .fails => crash .terminate
    | .blocks => crash .hang

def stopWatching (pending : PendingRead) : SyncExec Unit := do
  control fun c => { c with isRunning := false }
  joinMonitor pending

/-- A round of `monitor_directory`. What it records is not looked at here. -/
def monitorRound (pending : PendingRead) : SyncExec Unit := do
  let c := (← get).control
  if c.monitor = .watching then
    match pending with
    | .returns => if c.isRunning then pure () else control fun c => { c with monitor := .left }
    | .fails => crash .terminate
    | .blocks => pure ()

def stopIfRunning (pending : PendingRead) : SyncExec Unit := do
  if (← get).control.isRunning then stopWatching pending

/-! ## The commands -/

section Commands
variable (h : Host)

def unscoped (error : Text) : Text := txt "[CLIENT APP] " ++ error

def defaultDirectories (w : ClientState) : ClientState :=
  { w with
    syncDirPath := if w.syncDirPath = [] then txt "./sync dir" else w.syncDirPath
    asyncDirPath := if w.asyncDirPath = [] then txt "./downloads" else w.asyncDirPath }

def prepareDirectories : ClientExec Unit := do
  modify defaultDirectories
  let w ← get
  if !(← onFiles (isValidPath h w.syncDirPath)) then
    raise (unscoped (txt "Given sync dir path is not valid!"))
  if !(← onFiles (isValidPath h w.asyncDirPath)) then
    raise (unscoped (txt "Given async dir path is not valid!"))
  let _ ← deleteTemporaryDownloadFiles h w.syncDirPath
  let _ ← deleteTemporaryDownloadFiles h w.asyncDirPath

/-- `running_sync_` is tested here and set nowhere. -/
def startSync (calls : WatchCalls) : SyncExec Unit := do
  if !(← get).control.runningSync then do
    onClient (prepareDirectories h)
    initWatcher
    startWatching calls

def exitSync (fuel : ℕ) (pending : PendingRead) : SyncExec Unit := do
  onClient do
    let p ← Packet.init.setCommand (txt "exit")
    modify fun w => { w with senderBuffer := [] }
    onNet (sendPacket h fuel p (-1))
    let _ ← deleteTemporaryDownloadFiles h (← get).syncDirPath
  stopIfRunning pending
  onClient (modify ClientState.stop)

def serverExitSync (pending : PendingRead) : SyncExec Unit := do
  stopIfRunning pending
  onClient (modify ClientState.stop)

def userCommand (command : SyncExec Unit) : SyncExec Unit := do
  let s ← get
  if s.control.mainLoop && s.client.runningApp then
    attempt command fun _ => control fun c => { c with mainLoop := false }

end Commands

inductive SyncStep where
  | getSyncDir (h : Host) (calls : WatchCalls)
  | exit (h : Host) (fuel : ℕ) (pending : PendingRead)
  | serverExit (pending : PendingRead)
  | monitorRound (pending : PendingRead)

def SyncStep.perform : SyncStep → SyncExec Unit
  | .getSyncDir h calls => userCommand (startSync h calls)
  | .exit h fuel pending => userCommand (exitSync h fuel pending)
  | .serverExit pending => serverExitSync pending
  | .monitorRound pending => Client.monitorRound pending

def syncStep (step : SyncStep) (s : SyncState) : Option SyncState :=
  match step.perform s with
  | .ok _ s' => some s'
  | .error _ _ => none

end SyncWizard.Client
