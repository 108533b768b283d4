import SyncWizard.Server.Commands

/-! The threads of a session, `client_connection_session_network.cpp`, and the broadcast between
the sessions of one user. Both dispatchers switch over the fields of a command. -/

namespace SyncWizard.Server
open Foundation Common

inductive Route where
  | malformed (command : Text)
  | logout
  | ping
  | pong
  | slist
  | flist
  | clist (args : Text)
  | delete (args : Text)
  | adownload (args : Text)
  | download
  | sdownload (args checksum : Text)
  | supload (args arg2 : Text)
  deriving DecidableEq, Repr

def Route.command : Route → Option Text
  | .malformed _ => none
  | .logout => txt "exit"
  | .ping => txt "ping"
  | .pong => txt "pong"
  | .slist => txt "slist"
  | .flist => txt "flist"
  | .clist _ => txt "clist"
  | .delete _ => txt "delete"
  | .adownload _ => txt "adownload"
  | .download => txt "download"
  | .sdownload _ _ => txt "sdownload"
  | .supload _ _ => txt "supload"

def routeOf : List Text → Route
  | [] => .malformed []
  | [command] =>
    if command = txt "exit" then .logout
    else if command = txt "ping" then .ping
    else if command = txt "pong" then .pong
    else if command = txt "slist" then .slist
    else if command = txt "flist" then .flist
    else if command = txt "clist" then .clist []
    else .malformed command
  | [command, args] =>
    if command = txt "delete" then .delete args
    else if command = txt "clist" then .clist args
    else if command = txt "adownload" then .adownload args
    else if command = txt "download" then .download
    else .malformed command
  | [command, args, checksum] =>
    if command = txt "sdownload" then .sdownload args checksum
    else if command = txt "supload" then .supload args checksum
    else .malformed command
  | command :: _ => .malformed command

def receiverRoute : List Text → Route := routeOf

/-- The switch of `add_packet_from_broadcast`, written out a second time as in the source. -/
def broadcastRoute : List Text → Route
  | [] => .malformed []
  | [command] =>
    if command = txt "exit" then .logout
    else if command = txt "ping" then .ping
    else if command = txt "pong" then .pong
    else if command = txt "slist" then .slist
    else if command = txt "flist" then .flist
    else if command = txt "clist" then .clist []
    else .malformed command
  | [command, args] =>
    if command = txt "delete" then .delete args
    else if command = txt "clist" then .clist args
    else if command = txt "adownload" then .adownload args
    else if command = txt "download" then .download
    else .malformed command
  | [command, args, checksum] =>
    if command = txt "sdownload" then .sdownload args checksum
    else if command = txt "supload" then .supload args checksum
    else .malformed command
  | command :: _ => .malformed command

section Session
variable (h : Host) (bc : Broadcast) (self : SessionId) (me : Identity)

def perform (buffer : Packet) : Route → ServerExec Unit
  | .malformed command => malformedCommand command
  | .logout => clientRequestedLogout self
  | .ping => clientRequestedPing self
  | .pong => clientRespondedPing
  | .slist => clientRequestedSlist h self me
  | .flist => clientRequestedFlist h self me
  | .clist args => clientSentClist h self me buffer args
  | .delete args => clientRequestedDelete h bc self me args buffer
  | .adownload args => clientRequestedAdownload h self me args
  | .download => pure ()
  | .sdownload args checksum => clientSentSdownload h self me args buffer checksum
  | .supload args arg2 => clientSentSupload args arg2

def receiveCallback : ServerExec Packet := onNet (receivePacket h me.socketFd)

def receiveAndPerform : ServerExec Unit := do
  let buffer ← receiveCallback h me
  let fields ← splitBuffer buffer.memory
  perform h bc self me buffer (receiverRoute fields)

def receiverRound : ServerExec Unit := do
  let me := ((← get).session self).identity
  attempt (receiveAndPerform h bc self me) fun what =>
    raise (sessionError (me.identifier ++ txt " Error receiving data: " ++ what))

def addPacketFromBroadcast (_p : Packet) : ServerExec Unit := do
  let me := ((← get).session self).identity
  -- the packet read here takes the place of the one to be passed on
  let buffer ← receiveCallback h me
  let fields ← splitBuffer buffer.memory
  perform h bc self me buffer (broadcastRoute fields)

end Session

section Users
variable (h : Host)

def getSocketFd (s : SessionId) : ServerExec ℤ := do return ((← get).session s).identity.socketFd

/-- What `broadcast_other_sessions` and `broadcast` print about an exception: the literal is
moved on by the number of the socket. -/
def reportBroadcastError (s : SessionId) (_what : Text) : ServerExec Unit := do
  let _ ← literalPlus h (txt "while sending buffer to session ") (← getSocketFd s)

def serveOther (bc : Broadcast) (callerSockfd : ℤ) (p : Packet) (s : SessionId) : ServerExec Unit :=
  attempt
    (do
      if (← getSocketFd s) ≠ callerSockfd then addPacketFromBroadcast h bc s p)
    (reportBroadcastError h s)

/-- `broadcast_other_sessions`. A session that is served may broadcast again; `depth` bounds
how deep. -/
def broadcastOtherSessions : ℕ → UserId → ℤ → Packet → ServerExec Unit
  | 0, _, _, _ => crash .hang
  | depth + 1, u, callerSockfd, p => do
    let sessions := ((← get).user u).sessions
    forEach (serveOther h (broadcastOtherSessions depth u) callerSockfd p) sessions

def broadcastCallback (depth : ℕ) (u : UserId) : Broadcast := broadcastOtherSessions h depth u

def sessionReceiverRound (depth : ℕ) (s : SessionId) : ServerExec Unit := do
  let me := ((← get).session s).identity
  receiverRound h (broadcastCallback h depth me.owner) s

/-- What a receiver thread meets on one way round its loop: how the machine behaves, and what the
rest of the process and the network have done since the last one. -/
structure Turn where
  host : Host
  depth : ℕ
  meanwhile : ServerState → ServerState

def receiverLoop (s : SessionId) : List Turn → ServerExec (List Turn)
  | [] => pure []
  | t :: ts => do
    modify t.meanwhile
    if ((← get).session s).runningReceiver then do
      sessionReceiverRound t.host t.depth s
      receiverLoop s ts
    else pure (t :: ts)

def sessionReceiverLoop (s : SessionId) (ts : List Turn) : ServerExec (List Turn) := do
  modify fun w => w.setSession s { w.session s with runningReceiver := true }
  receiverLoop s ts

def sendCallback (fuel : ℕ) (p : Packet) : ServerExec Unit := onNet (sendPacket h fuel p (-1))

def senderRound (fuel : ℕ) (s : SessionId) : ServerExec Unit := do
  let w ← get
  if (w.session s).runningSender then
    match (w.session s).senderBuffer with
    | [] => pure ()
    | p :: _ =>
      attempt
        (do
          sendCallback h fuel p
          modify fun w => w.setSession s
            { w.session s with senderBuffer := (w.session s).senderBuffer.tail })
        fun what => raise (sessionError (txt "Exception occured while running send: " ++ what))

def sendPing (s : SessionId) : ServerExec Unit := answer s (txt "ping")

def disconnect (s : SessionId) (reason : Text) : ServerExec Unit := do
  answerWith s (txt "exit") reason
  modify fun w => w.stop s

end Users

end SyncWizard.Server
