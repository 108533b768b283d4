import Mathlib.Data.List.Basic
import SyncWizard.Common.Chunks
import SyncWizard.Common.Listing
import SyncWizard.Server.State

/-! The command handlers of a session, `client_connection_session_commands.cpp`. A handler is
told the session it runs for and the values that session's constructor fixed; console output
and the wake-up of the sender thread are left out. -/

namespace SyncWizard.Server
open Foundation Common

abbrev Broadcast := ℤ → Packet → ServerExec Unit

section Handlers
variable (h : Host) (bc : Broadcast) (self : SessionId) (me : Identity)

/-- Every answer that has a text as its payload: the failure reports and the file lists. -/
def answerWith (command payload : Text) : ServerExec Unit :=
  Packet.mountWith (pushPacket self) command payload

def answer (command : Text) : ServerExec Unit := Packet.mount (pushPacket self) command

def malformedCommand (_command : Text) : ServerExec Unit := pure ()

def clientRequestedLogout : ServerExec Unit := modify fun w => w.stop self

def clientRequestedPing : ServerExec Unit := answer self (txt "pong")

def clientRespondedPing : ServerExec Unit := pure ()

def noFileMutex (name : Text) : Text :=
  me.identifier ++ txt " Could not find a file mutex for \"" ++ name ++ txt "\"!"

def eraseMutex (args : Text) : ServerExec Unit := do
  match ← fileMutex self args with
  | some _ => modify fun w => w.setLock self args none
  | none => raise (sessionError (noFileMutex me args))

def deleteLocked (args : Text) : ServerExec Unit := do
  match ← fileMutex self args with
  -- the test for a lock is inverted: a file without one is locked
  | none => do
    lockFile self args
    onFiles (deleteFile h (me.directoryPath ++ args))
  | some _ => raise (sessionError (noFileMutex me args))
  eraseMutex self me args

def clientRequestedDelete (args : Text) (buffer : Packet) : ServerExec Unit := do
  if ← onFiles (isValidPath h (me.directoryPath ++ args)) then do
    bc me.socketFd buffer
    attempt (deleteLocked h self me args) fun what =>
      raise (sessionError (me.identifier ++ txt " Exception raised while deleting file \"" ++ args ++
        txt "\": " ++ what))
  else
    answerWith self (txt "delete|" ++ args ++ txt "|fail")
      (txt "Could not find or acess given file path!")

/-- `s.erase(s.find(part), part.length())`, or `s` where there is no such part. -/
def eraseFirst (part : Text) : Text → Text
  | [] => []
  | c :: cs =>
    if part <+: c :: cs then (c :: cs).drop part.length else c :: eraseFirst part cs

def noFolder : Text := me.identifier ++ txt " Could not acess user folder!"

def noListing (path : Text) : Text :=
  me.identifier ++ txt " Could not acess \"" ++ path ++ txt "\" user folder!"

def listFiles (line : Text → Text → Text → Text) : ServerExec Text :=
  onFiles (listFolder h me.directoryPath (sessionError (noFolder me))
    (sessionError (noListing me me.directoryPath)) line)

def slistLine (_name filePath output : Text) : Text :=
  let file := eraseFirst me.directoryPath filePath
  if output = [] then output ++ file else output ++ txt "|" ++ file

def slist : ServerExec Text := listFiles h me (slistLine me)

def flistLine (name filePath output : Text) : Text :=
  output ++ txt "\n\t\t\tFile name: " ++ name ++ txt "\n\t\t\tFile path: " ++ filePath ++
    txt "\n\t\t\tModification time: " ++ h.formatTime .modification filePath ++
    txt "\n\t\t\tAccess time: " ++ h.formatTime .access filePath ++
    txt "\n\t\t\tChange/creation time: " ++ h.formatTime .changeOrCreation filePath

def clientRequestedSlist : ServerExec Unit := do
  let output ← slist h me
  answerWith self (txt "slist") output

def clientRequestedFlist : ServerExec Unit := do
  let output ← listFiles h me (flistLine h)
  answerWith self (txt "flist") output

/-- A file is read under its lock and cut into packets; what happens when it cannot be opened
differs between the senders. -/
def sendFile (command file : Text) (cannotOpen : ServerExec Unit) : ServerExec Unit := do
  lockFile self file
  let checksum ← onFiles (calculateMd5Checksum h (me.directoryPath ++ file))
  match ← onFiles (openRead h (me.directoryPath ++ file)) with
  | none => cannotOpen
  | some content =>
    chunkLoop (command ++ file ++ txt "|" ++ checksum) (fun _ => pure ()) (pushPacket self) content

def sendLocked (command file : Text) (cannotOpen : ServerExec Unit) : ServerExec Unit := do
  match ← fileMutex self file with
  | some _ => sendFile h self me command file cannotOpen
  | none => pure ()

def clientRequestedAdownload (args : Text) : ServerExec Unit := do
  if !(← onFiles (isValidPath h (me.directoryPath ++ args))) then
    answerWith self (txt "aupload|" ++ args ++ txt "|fail")
      (txt "Could not find or acess given file!")
  sendLocked h self me (txt "aupload|") args
    (answerWith self (txt "aupload|" ++ args ++ txt "|fail")
      (txt "Server could not bufferize file to send!"))

def isTemporary (name : Text) : Bool := decide (temporarySuffix <:+: name)

def fileWithoutExtension (fileName : Text) : Text :=
  if 46 ∈ fileName then fileName.reverse.dropWhile (· != 46) |>.tail |>.reverse else fileName

def missingFrom (theirs theirTemporaries ours : List Text) : List Text :=
  ours.filter fun file =>
    !theirs.contains file && !theirTemporaries.contains (fileWithoutExtension file ++ temporarySuffix)

/-- `std::getline` on `|` until the end of the text, which yields no empty last piece. -/
def getlineSplit (s : Text) : List Text :=
  let pieces := s.splitOn bar
  if pieces.getLast? = some [] then pieces.dropLast else pieces

def sendMissing (file : Text) : ServerExec Unit :=
  sendLocked h self me (txt "sdownload|") file (pure ())

/-- The failure report in `args` only changes what is printed. -/
def clientSentClist (buffer : Packet) (_args : Text) : ServerExec Unit := do
  let sessionNames ← splitPayload buffer
  let serverNames := getlineSplit (← slist h me)
  let sessionFiles := sessionNames.filter fun n => !isTemporary n
  let sessionTemporaries := sessionNames.filter fun n => isTemporary n
  let serverFiles := serverNames.filter fun n => !isTemporary n
  let serverTemporaries := serverNames.filter fun n => isTemporary n
  let filesNotInSession := missingFrom sessionFiles sessionTemporaries serverFiles
  let filesNotInServer := missingFrom serverFiles serverTemporaries sessionFiles
  forEach (sendMissing h self me) filesNotInSession
  forEach (fun file => answer self (txt "sdownload|" ++ file)) filesNotInServer

def writePayload (p : Path) (buffer : Packet) : ServerExec Unit :=
  onFiles (streamWrite p buffer.payload buffer.payloadSize.toNat)

def completeTransfer (args : Text) : ServerExec Unit := do
  match ← fileMutex self args with
  | some _ => do
    lockFile self args
    let _ ← onFiles (calculateMd5Checksum h (me.directoryPath ++ args ++ temporarySuffix))
    onFiles (renameReplacing h (me.directoryPath ++ args ++ temporarySuffix) (me.directoryPath ++ args))
  | none =>
    raise (sessionError (me.identifier ++ txt " No file mutex was found for \"" ++ args ++ txt "\"!"))

def clientSentSdownload (args : Text) (buffer : Packet) (arg2 : Text) : ServerExec Unit := do
  if arg2 = txt "fail" then pure ()
  else
    match ← onFiles (openAppend h (me.directoryPath ++ args ++ temporarySuffix)) with
    | none =>
      answerWith self (txt "sdownload|" ++ args ++ txt "|fail")
        (txt "Given file could not be created or accessed" ++ txt "on user server folder.")
    | some p => do
      writePayload p buffer
      if buffer.isLast then completeTransfer h self me args else pure ()

/-- `client_sent_supload_` only prints, whether or not `arg2` is `fail`. -/
def clientSentSupload (_args arg2 : Text) : ServerExec Unit :=
  if arg2 = txt "fail" then pure () else malformedCommand (txt "supload")

end Handlers

end SyncWizard.Server
