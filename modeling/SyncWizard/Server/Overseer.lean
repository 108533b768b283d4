import SyncWizard.Server.Sessions

/-! The overseer of a user, `User::overseer_loop`, and the readings of the clock that a session keeps.
Nothing but the overseer and the pong handler reads them, and nothing assigns them. -/

namespace SyncWizard.Server
open Foundation Common

abbrev TimePoint := ℤ

structure Timing where
  pingStart : TimePoint
  lastPing : TimePoint
  deriving DecidableEq, Repr

/-- `ping_start_` and `last_ping_` of a new session: no constructor names them, so both are the
epoch. -/
def Timing.init : Timing := ⟨0, 0⟩

structure TimedServer where
  server : ServerState
  timing : SessionId → Timing

abbrev TimedExec (α : Type) := Exec TimedServer α

section Overseeing
variable {α : Type}

def onState (p : ServerExec α) : TimedExec α :=
  zoom TimedServer.server (fun w t => { t with server := w }) p

def getLastPing (s : SessionId) : TimedExec TimePoint := do return ((← get).timing s).lastPing

def minute : ℤ := 60000000000

/-- `duration_cast<minutes>(now - then)`, which rounds towards zero. -/
def minutesBetween (now before : TimePoint) : ℤ := (now - before).tdiv minute

def createSession (h : Host) (identity : Identity) : TimedExec SessionId := do
  let s ← onState (newSession h identity)
  modify fun t => { t with timing := Function.update t.timing s .init }
  pure s

def timedRespondedPing (now : TimePoint) (s : SessionId) : TimedExec Unit := do
  let _pingVal := (now - ((← get).timing s).pingStart).tdiv 1000
  onState clientRespondedPing

def overseeSession (now : TimePoint) (s : SessionId) : TimedExec Unit := do
  let minutesPassed := minutesBetween now (← getLastPing s)
  if 5 < minutesPassed then onState (disconnect s (txt "Kicked due to inactivity"))
  else onState (sendPing s)

/-- The body of `overseer_loop`, which `clock` tells the time at each session. An exception ends the
thread and with it the process. -/
def overseerRound (u : UserId) (clock : SessionId → TimePoint) : TimedExec Unit := do
  let sessions := ((← get).server.user u).sessions
  attempt (forEach (fun s => overseeSession (clock s) s) sessions) fun _ => crash .terminate

end Overseeing

end SyncWizard.Server
