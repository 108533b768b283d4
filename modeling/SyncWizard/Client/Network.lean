import SyncWizard.Client.Commands

/-! The threads of a client, `client_network_handler.cpp`, and the commands its user types,
`client_ui_handler.cpp`. -/

namespace SyncWizard.Client
open Foundation Common

inductive Route where
  | malformed (command : Text)
  | ping
  | pong
  | delete (args arg2 : Text)
  | exit
  | sdownload (args : Text)
  | list (args : Text)
  | supload (args checksum : Text)
  | aupload (args checksum : Text)
  | upload (args checksum : Text)
  deriving DecidableEq, Repr

def Route.command : Route → Option Text
  | .malformed _ => none
  | .ping => txt "ping"
  | .pong => txt "pong"
  | .delete _ _ => txt "delete"
  | .exit => txt "exit"
  | .sdownload _ => txt "sdownload"
  | .list _ => txt "list"
  | .supload _ _ => txt "supload"
  | .aupload _ _ => txt "aupload"
  | .upload _ _ => txt "upload"

def receiverRoute : List Text → Route
  | [] => .malformed []
  | [command] =>
    if command = txt "ping" then .ping
    else if command = txt "pong" then .pong
    else .malformed command
  | [command, args] =>
    if command = txt "delete" then .delete args []
    else if command = txt "exit" then .exit
    else if command = txt "sdownload" then .sdownload args
    else if command = txt "list" then .list args
    else .malformed command
  | [command, args, checksum] =>
    if command = txt "supload" then .supload args checksum
    else if command = txt "aupload" then .aupload args checksum
    else if command = txt "upload" then .upload args checksum
    else if command = txt "delete" then .delete args checksum
    else .malformed command
  | command :: _ => .malformed command

section Threads
variable (h : Host)

def perform (buffer : Packet) : Route → ClientExec Unit
  | .malformed command => malformedCommand command
  | .ping => serverPingCommand
  | .pong => pongCommand
  | .delete args arg2 => serverDeleteFileCommand h args buffer arg2
  | .exit => do
    let reason ← charraystr buffer.payload buffer.payloadSize.toNat
    serverExitCommand reason
  | .sdownload args => serverDownloadCommand h args
  | .list args => serverListCommand args buffer
  | .supload args checksum => serverUploadCommand h args checksum buffer
  | .aupload args checksum => serverAsyncUploadCommand h args checksum buffer
  -- a failed upload is reported under the name of the command that asked for it
  | .upload args checksum => serverUploadCommand h args checksum buffer

/-- One round of `receiver_loop`; its `catch` block raises again. -/
def receiverRound : ClientExec Unit :=
  attempt
    (do
      let buffer ← onNet (receivePacket h (-1))
      let fields ← splitBuffer buffer.memory
      perform h buffer (receiverRoute fields))
    fun what =>
      raise (clientError .networkCommands (txt "Critical error recieving data from server: " ++ what))

def senderRound (fuel : ℕ) : ClientExec Unit := do
  let w ← get
  if w.runningSender then
    match w.senderBuffer with
    | [] => pure ()
    | p :: _ =>
      attempt
        (do
          onNet (sendPacket h fuel p (-1))
          modify fun w => { w with senderBuffer := w.senderBuffer.tail })
        fun what =>
          raise (clientError .networkCommands (txt "Critical error sending data to server: " ++ what))

def exitCommand (fuel : ℕ) : ClientExec Unit := do
  let p ← Packet.init.setCommand (txt "exit")
  modify fun w => { w with senderBuffer := [] }
  onNet (sendPacket h fuel p (-1))
  modify ClientState.stop

/-- The words of one line of the user. `get sync dir` starts a watcher that sends nothing. -/
def processUserInterfaceCommands (fuel : ℕ) : List Text → ClientExec Unit
  | [command] =>
    if command = txt "exit" then exitCommand h fuel
    else if command = txt "help" then pure ()
    else malformedCommand command
  | [command, args] =>
    if command = txt "download" then requestAsyncDownload args
    else if command = txt "upload" then uploadCommand h args
    else if command = txt "delete" then requestDelete h args
    else if command = txt "list" then listCommand h args
    else pure ()
  | _ => pure ()

end Threads

end SyncWizard.Client
