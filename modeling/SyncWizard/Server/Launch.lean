import SyncWizard.Server.State

/-! The constructor of the server, which looks for a port. The lines it shows are left out. -/

namespace SyncWizard.Server
open Foundation Common

/-- How the calls of one launch go. `is_port_available` asks about a port once, with a socket of its own. -/
structure ServerCalls where
  host : Host
  socket : ℤ
  testSocket : ℤ → ℤ
  bind : ℤ → Bool
  /-- `create_server` on a port, which is not there: the connection manager has `open_server`. -/
  createServer : ℤ → Exec ConnectionManager Unit

structure Launching where
  server : ServerState
  port : ℤ
  tested : List ℤ

def Launching.setOpen (s : Launching) (fd : ℤ) (isOpen : Bool) : Launching :=
  let net := s.server.net
  { s with server := { s.server with net := { net with isOpen := Function.update net.isOpen fd isOpen } } }

section Launching
variable {α : Type} (c : ServerCalls)

def onServer (p : ServerExec α) : Exec Launching α :=
  zoom Launching.server (fun w s => { s with server := w }) p

def isPortAvailable (port : ℤ) : Exec Launching Bool := do
  let sockfd := c.testSocket port
  if sockfd = -1 then raise (connectionError [] (txt "Error creating socket!"))
  else do
    modify fun s => s.setOpen sockfd true
    let available := c.bind port
    modify fun s => { s with tested := s.tested ++ [port] }
    modify fun s => s.setOpen sockfd false
    pure available

def selectPort (available : Bool) (newPort : ℤ) : Exec Launching ℤ :=
  if available = false ∧ 50000 < newPort then do
    let found ← isPortAvailable c (newPort - 1)
    selectPort found (newPort - 1)
  else pure newPort
termination_by (newPort - 50000).toNat

def openServer (bound listening : Bool) : Exec ConnectionManager Unit :=
  if !bound then raise (txt "[SERVER CONNECTION MANAGER] Error binding port to socket!")
  else if !listening then raise (txt "[SERVER CONNECTION MANAGER] Error setting socket to passive!")
  else pure ()

def prepareSyncDir : ServerExec Unit := do
  if ← onFiles (isValidPath c.host syncDir) then pure ()
  else if ← onFiles (createDirectory c.host syncDir) then pure ()
  else raise (txt "Could not create sync_dir directory! Please check system permissions!")

def launchServer : Exec Launching Unit := do
  onServer (prepareSyncDir c)
  onServer (onNet (createSocket c.socket))
  let newPort ← selectPort c false 65535
  modify fun s => { s with port := newPort }
  onServer (onNet (c.createServer newPort))

end Launching

end SyncWizard.Server
