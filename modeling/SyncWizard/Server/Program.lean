import SyncWizard.Common.Terminal
import SyncWizard.Server.Runs
import SyncWizard.Server.Sessions

/-! The server as a whole: the commands of its terminal, `server_handler_user_interface.cpp`, next to
the accept thread and the threads of its sessions. -/

namespace SyncWizard.Server
open Foundation Common

structure ServerProgram where
  server : ServerState
  shown : List Text

/-- A step outside the main thread: of a session or an overseer, or a connection that is accepted. -/
inductive ServerThread where
  | session (e : Event)
  | accepts (h : Host) (fuel : ℕ) (newSocket : ℤ)

def userLine (v : User) : Text :=
  v.username ++ txt " (" ++ toText v.sessions.length ++ txt " sessions)"

def listUsers (w : ServerState) : List Text := w.users.map fun u => userLine (w.user u)

def connectedUsers (w : ServerState) : Text :=
  txt "Currently these users are connected:" ++ (listUsers w).flatMap fun s => txt "\n\t\t-> " ++ s

def unknownCommand (uiBuffer : Text) : Text :=
  txt "Could not find a command by \"" ++ uiBuffer ++ txt "\"!"

def ServerProgram.aprint (s : ServerProgram) (content : Text) : ServerProgram :=
  { s with shown := s.shown ++ [content] }

def processInput (uiBuffer : Text) (words : List Text) (s : ServerProgram) : Verdict × ServerProgram :=
  match words with
  | [] => (.returns, s)
  | [command] =>
    if command = txt "exit" then (.exits, s) else (.returns, s.aprint (unknownCommand uiBuffer))
  | [command, args] =>
    if command = txt "list" then
      if args = txt "clients" then (.returns, s.aprint (connectedUsers s.server))
      else (.returns, s.aprint (unknownCommand uiBuffer))
    else (.returns, s.aprint (unknownCommand uiBuffer))
  | _ => (.returns, s.aprint (unknownCommand uiBuffer))

def ServerThread.perform : ServerThread → ServerExec Unit
  | .session e => step e
  | .accepts h fuel newSocket => acceptConnection h fuel newSocket

/-- An exception that leaves a thread ends the process. -/
def serverApplication : Application ServerThread ServerProgram where
  stopsUi := true
  process _ uiBuffer words s := some (processInput uiBuffer words s)
  elsewhere t s :=
    match t.perform s.server with
    | .ok _ w => some { s with server := w }
    | .error _ _ => none

end SyncWizard.Server
