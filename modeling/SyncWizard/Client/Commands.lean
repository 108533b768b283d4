import SyncWizard.Common.Chunks
import SyncWizard.Common.Listing
import SyncWizard.Client.State

/-! The command handlers of a client: those for commands of the server,
`network_commands_server.cpp`, and those for commands of its user, `network_commands_client.cpp`.
Console output, the ping's clock and the wake-up of the sender thread are left out. -/

namespace SyncWizard.Client
open Foundation Common

section Handlers
variable (h : Host)

def answerWith (command payload : Text) : ClientExec Unit := Packet.mountWith pushPacket command payload

def answer (command : Text) : ClientExec Unit := Packet.mount pushPacket command

def malformedCommand (_command : Text) : ClientExec Unit := pure ()

def noFileMutex (name : Text) : Text := txt "No file mutex was found for \"" ++ name ++ txt "\"!"

def reportReason (buffer : Packet) : ClientExec Unit := do
  let _ ← charraystr buffer.payload buffer.payloadSize.toNat

/-! ## Commands of the server -/

def serverPingCommand : ClientExec Unit := answer (txt "pong")

def serverListCommand (args : Text) (buffer : Packet) : ClientExec Unit := do
  if args = txt "server" then
    let _ ← splitPayload buffer
  else if args = txt "fail" then reportReason buffer
  else malformedCommand (txt "list")

def serverDownloadCommand (args : Text) : ClientExec Unit := do
  let localFilePath := (← get).syncDirPath ++ args
  if ← onFiles (isValidPath h localFilePath) then
    match ← fileMutex args with
    | some _ => do
      lockFile args
      let checksum ← onFiles (calculateMd5Checksum h localFilePath)
      match ← onFiles (openRead h localFilePath) with
      | none =>
        answerWith (txt "sdownload|" ++ args ++ txt "|fail")
          (txt "Local machine could not acess given file!")
      | some content =>
        chunkLoop (txt "sdownload|" ++ args ++ txt "|" ++ checksum)
          (fun _ => pure ()) pushPacket content
    | none => raise (clientError .serverSide (noFileMutex args))
  else
    answerWith (txt "sdownload|" ++ args ++ txt "|fail")
      (txt "Given file was not found on user local machine.")

def completeTransfer (args localFilePath : Text) : ClientExec Unit := do
  match ← fileMutex args with
  | some _ => do
    lockFile args
    let _ ← onFiles (calculateMd5Checksum h (localFilePath ++ temporarySuffix))
    onFiles (renameReplacing h (localFilePath ++ temporarySuffix) localFilePath)
  | none => raise (clientError .serverSide (noFileMutex args))

def receiveUpload (command args localFilePath checksum : Text) (buffer : Packet) : ClientExec Unit := do
  if checksum = txt "fail" then reportReason buffer
  else
    match ← onFiles (openAppend h (localFilePath ++ temporarySuffix)) with
    | none =>
      answerWith (command ++ args ++ txt "|fail")
        (txt "Given file could not be created or accessed" ++ txt "on user local machine.")
    | some p => do
      onFiles (streamWrite p buffer.payload buffer.payloadSize.toNat)
      if buffer.isLast then completeTransfer h args localFilePath else pure ()

def serverUploadCommand (args checksum : Text) (buffer : Packet) : ClientExec Unit := do
  receiveUpload h (txt "supload|") args ((← get).syncDirPath ++ args) checksum buffer

def serverAsyncUploadCommand (args checksum : Text) (buffer : Packet) : ClientExec Unit := do
  receiveUpload h (txt "aupload|") args ((← get).asyncDirPath ++ args) checksum buffer

def deleteLocked (args localFilePath : Text) : ClientExec Unit := do
  match ← fileMutex args with
  | some _ => do
    lockFile args
    onFiles (deleteFile h localFilePath)
  | none => raise (clientError .serverSide (noFileMutex args))

/-- For a command of two fields `arg2` is empty. -/
def serverDeleteFileCommand (args : Text) (buffer : Packet) (arg2 : Text) : ClientExec Unit := do
  let localFilePath := (← get).syncDirPath ++ args
  if arg2 = txt "fail" then reportReason buffer
  else if !(← onFiles (isValidPath h localFilePath)) then
    answerWith (txt "delete|" ++ args ++ txt "|fail")
      (txt "Given file was not found on user local machine.")
  else if args = txt "fail" then
    if 0 < buffer.payloadSize.toNat then reportReason buffer else pure ()
  else
    attempt (deleteLocked h args localFilePath) fun what =>
      answerWith (txt "delete|" ++ args ++ txt "|fail") what

def serverExitCommand (_reason : Text) : ClientExec Unit := modify ClientState.stop

/-! ## Commands of the user -/

def unquoted (args : Text) : Text := args.filter fun c => c ≠ 39 && c ≠ 34

def requestAsyncDownload (args : Text) : ClientExec Unit := answer (txt "adownload|" ++ unquoted args)

def requestListServer : ClientExec Unit := answer (txt "flist|server")

def noLocalMutex (name : Text) : Text := txt "Could not find a file mutex for \"" ++ name ++ txt "\"!"

def requestDelete (args : Text) : ClientExec Unit := do
  let filePath := unquoted args
  answer (txt "delete|" ++ filePath)
  let localFilePath := (← get).syncDirPath ++ filePath
  if ← onFiles (isValidPath h localFilePath) then
    match ← fileMutex filePath with
    -- the test for a lock is inverted, as on the server
    | none => do
      lockFile filePath
      onFiles (deleteFile h localFilePath)
      match ← fileMutex filePath with
      | some _ => modify fun w => w.setLock filePath none
      | none => raise (clientError .clientSide (noLocalMutex filePath))
    | some _ => raise (clientError .clientSide (noLocalMutex args))

/-- `file_mtx_.emplace(name, new_mutex)`, which leaves an entry that is there alone. -/
def emplaceLock (name : Text) : ClientExec Unit := do
  match ← fileMutex name with
  | some _ => pure ()
  | none => modify fun w => w.setLock name (some .live)

/-- `temp_file.write(payload, payload_size)`; a stream that is not open writes nothing. -/
def copyTo (temporary : Option Path) (p : Packet) : ClientExec Unit :=
  match temporary with
  | none => pure ()
  | some t => onFiles (streamWrite t p.payload p.payloadSize.toNat)

def uploadLocked (filePath localFilePath : Text) : ClientExec Unit := do
  lockFile filePath
  let checksum ← onFiles (calculateMd5Checksum h localFilePath)
  let file ← onFiles (openRead h localFilePath)
  let temporary ← onFiles (openAppend h (localFilePath ++ temporarySuffix))
  match file with
  | none => pure ()
  | some content => do
    chunkLoop (txt "upload|" ++ filePath ++ txt "|" ++ checksum) (copyTo temporary) pushPacket content
    onFiles (renameReplacing h (localFilePath ++ temporarySuffix) localFilePath)

def uploadCommand (args : Text) : ClientExec Unit := do
  let filePath := unquoted args
  let localFilePath := (← get).syncDirPath ++ args
  if ← onFiles (isValidPath h localFilePath) then
    -- looked for without the quotation marks, added as typed
    if (← fileMutex filePath).isNone then emplaceLock args
    uploadLocked h filePath localFilePath

def pongCommand : ClientExec Unit := pure ()

def noSyncDir : Text := txt "Could not access local sync_dir folder!"

def noSyncListing : Text := txt "Could not access or read from local sync_dir folder!"

def listCommand (args : Text) : ClientExec Unit := do
  if args = txt "server" then requestListServer
  else if args = txt "client" then
    let _ ← onFiles (listFolder h (← get).syncDirPath (clientError .clientSide noSyncDir)
      (clientError .clientSide noSyncListing) fun _ _ output => output)
  else malformedCommand (txt "list " ++ args)

end Handlers

end SyncWizard.Client
