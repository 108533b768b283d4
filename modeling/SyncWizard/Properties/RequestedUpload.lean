import SyncWizard.Client.Outcomes
import SyncWizard.Common.Transfer
import SyncWizard.Server.Sessions

/-! A file that the server asks for, from the request that the client handles to the last packet
that the session handles. -/

namespace SyncWizard.Properties
open Foundation Common Server

structure Link where
  client : Client.ClientState
  server : ServerState

variable {α : Type}

def onClient (p : Client.ClientExec α) : Exec Link α :=
  zoom Link.client (fun c l => { l with client := c }) p

def onServer (p : ServerExec α) : Exec Link α := zoom Link.server (fun w l => { l with server := w }) p

namespace Link

def deliver (l : Link) (fd : ℤ) (bs : Text) : Link :=
  { l with server := { l.server with net := { l.server.net with
      inbox := Function.update l.server.net.inbox fd (l.server.net.inbox fd ++ bs) } } }

def sent (l : Link) : Text := l.client.net.outbox l.client.net.sockfd

end Link

section Transfer
variable (hc hs : Host) (fuel : ℕ) (bc : Broadcast) (s : SessionId) (f : Text)

/-- The client handles the request, the packets it queues for it are framed, and the session
handles as many packets off its socket. -/
def requestedUpload : Exec Link Unit := do
  let start ← get
  onClient (Client.serverDownloadCommand hc f)
  let packets := (← get).client.senderBuffer.drop start.client.senderBuffer.length
  forEach (fun p => onClient (Client.onNet (sendPacket hc fuel p (-1)))) packets
  let me := ((← get).server.session s).identity
  modify fun l => l.deliver me.socketFd (l.sent.drop start.sent.length)
  forEach (fun _ => onServer (receiveAndPerform hs bc s me)) packets

def clientPath (l : Link) : Text := l.client.syncDirPath ++ f

def serverPath (l : Link) : Text := (l.server.session s).identity.directoryPath ++ f

/-- The upload ends without a fault, the server's file has the content of the client's, and no
temporary is left. -/
def TransfersExactly (l : Link) : Prop :=
  ∃ l', requestedUpload hc hs fuel bc s f l = .ok () l' ∧
    l'.server.files.content (serverPath s f l) = l.client.files.content (clientPath f l) ∧
    l'.server.files.lookup (serverPath s f l ++ temporarySuffix) = none

/-- A regular file on the client, neither it nor a temporary of it on the server, and a free mutex
for it on both sides. -/
structure Requestable (l : Link) : Prop where
  regular : (l.client.files.content (clientPath f l)).isSome
  noFile : l.server.files.lookup (serverPath s f l) = none
  noTemporary : l.server.files.lookup (serverPath s f l ++ temporarySuffix) = none
  clientLock : l.client.fileMtx f = some .live
  serverLock : (l.server.session s).fileMtx f = some .live

end Transfer

section Failing
variable {hc hs : Host} {fuel : ℕ} {bc : Broadcast} {s : SessionId} {f : Text} {l : Link}

theorem emptyChunk_unsendable (command : Text) (w : Client.ClientState) :
    ¬ Returns (Client.onNet (sendPacket hc fuel (emptyChunk command) (-1)) w) := by
  rintro ⟨u, w', hr⟩
  obtain ⟨m, hsend, -⟩ := run_zoom_inv hr
  obtain ⟨_, m₁, -, hpayload⟩ := run_bind_inv hsend
  have hsize : (emptyChunk command).payloadSize.toNat = 8192 := rfl
  obtain ⟨what, m', hnull⟩ := sendData_null (h := hc) (by decide : 8192 ≠ 0) fuel (-1) m₁
  rw [hsize, show (emptyChunk command).payload = none from rfl, hnull] at hpayload
  cases hpayload

end Failing

/-- No file is ever transferred on a request of the server. -/
theorem transfersExactly_never (hc hs : Host) (fuel : ℕ) (bc : Broadcast)
    (s : SessionId) (f : Text) (l : Link) :
    ¬ TransfersExactly hc hs fuel bc s f l := by
  rintro ⟨l', hrun, -⟩
  obtain ⟨start, l₀, hget, hrun⟩ := run_bind_inv hrun
  cases hget
  obtain ⟨_, l₁, hcommand, hrun⟩ := run_bind_inv hrun
  obtain ⟨client, hhandler, rfl⟩ := run_zoom_inv hcommand
  obtain ⟨command, hqueue⟩ := Client.serverDownloadCommand_inv hhandler
  obtain ⟨now, l₂, hget, hrun⟩ := run_bind_inv hrun
  cases hget
  obtain ⟨_, l₃, hsends, -⟩ := run_bind_inv hrun
  rw [hqueue, List.drop_left] at hsends
  obtain ⟨_, l₄, hsend, -⟩ := run_bind_inv hsends
  obtain ⟨client', hsend, -⟩ := run_zoom_inv hsend
  exact emptyChunk_unsendable command _ ⟨_, _, hsend⟩

def oneByteLink : Link where
  client :=
    { net := ⟨3, 0, fun _ => [], fun _ => [], fun _ => true⟩
      files := ⟨[], (∅ : AList fun _ : Path => Node).insert [⟨txt "a", by decide⟩] (.file [7]), []⟩
      syncDirPath := txt "."
      asyncDirPath := txt "./downloads"
      fileMtx := fun _ => some .live
      senderBuffer := []
      runningApp := true
      runningSender := true
      runningReceiver := true }
  server :=
    (ServerState.init ⟨3, 0, fun _ => [], fun _ => [], fun _ => true⟩ ⟨[], ∅, []⟩).setSession 0
      ⟨registeredAs 4 (txt "ana") (txt "laptop") 0, [], fun _ => some .live, true, true⟩

theorem oneByte_not_transferred :
    ¬ ∀ (hc hs : ReliableHost) (fuel : ℕ) (bc : Broadcast) (s : SessionId) (f : Text) (l : Link),
      Requestable s f l → headerSize + defaultPayload < fuel →
        TransfersExactly hc.1 hs.1 fuel bc s f l := by
  intro hall
  let host := pageHost
  have hrequestable : Requestable 0 (txt "/a") oneByteLink :=
    { regular := by decide
      noFile := by decide
      noTemporary := by decide
      clientLock := rfl
      serverLock := rfl }
  have hsendable : Client.Sendable host.1 oneByteLink.client (txt "/a") [7] :=
    { lock := rfl
      content := by decide
      tested := rfl
      digested := rfl
      read := rfl }
  obtain ⟨w', hcrash⟩ := Client.serverDownloadCommand_nonempty hsendable (by decide) (by decide)
  obtain ⟨l', hrun, -⟩ := hall host host 10000 (fun _ _ => pure ()) 0
      (txt "/a") oneByteLink hrequestable (by decide)
  obtain ⟨start, l₀, hget, hrun⟩ := run_bind_inv hrun
  cases hget
  obtain ⟨_, l₁, hcommand, -⟩ := run_bind_inv hrun
  obtain ⟨client, hhandler, -⟩ := run_zoom_inv hcommand
  rw [hcrash] at hhandler
  cases hhandler

end SyncWizard.Properties
