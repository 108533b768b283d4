import SyncWizard.Common.InotifyWatcher

/-! `process_inotify_commands_`, which the sender thread calls while the buffer of the watcher is not
empty. Its branches are still without a body; which ones were taken is kept for the statements. -/

namespace SyncWizard.Client
open Foundation Common

inductive InotifyBranch where
  | upload (type filePath : Text)
  | deletion (type filePath : Text)
  | invalid
  deriving DecidableEq, Repr

structure InotifyReader where
  watcher : InotifyWatcher
  taken : List InotifyBranch

/-- The number of elements in the buffer is what the `switch` is on. -/
def inotifyBranch : List Text → InotifyBranch
  | [_, type, filePath] =>
    if type = txt "create" ∨ type = txt "modify" then .upload type filePath
    else if type = txt "delete" then .deletion type filePath
    -- any other type falls through to `default`
    else .invalid
  | _ => .invalid

def processInotifyCommands : Exec InotifyReader Unit :=
  modify fun r => { r with taken := r.taken ++ [inotifyBranch r.watcher.inotifyBuffer] }

def senderInotify : Exec InotifyReader Unit := do
  if (← get).watcher.inotifyBuffer ≠ [] then processInotifyCommands

inductive InotifyStep where
  | record (event : FileEvent)
  | call
  deriving DecidableEq, Repr

def InotifyStep.perform : InotifyStep → Exec InotifyReader Unit
  | .record event => zoom InotifyReader.watcher (fun w r => { r with watcher := w })
      (InotifyWatcher.processEvent event)
  | .call => senderInotify

end SyncWizard.Client
