import SyncWizard.Client.Outcomes
import SyncWizard.Common.Lockless
import SyncWizard.Server.Outcomes

/-! Whether the lock tables ever hold or yield a null lock. The tables begin empty; on the server no
handler adds a mutex, on a client only the upload command does, and two handlers lock exactly the files
that have none. -/

namespace SyncWizard.Properties
open Foundation Common

def Found (h : Host) (f : FileSystem) (path : Text) : Prop :=
  h.statError path = none ∧ (f.lookup path).isSome = true

theorem isValidPath_found {h : Host} {f f' : FileSystem} {path : Text}
    (hr : isValidPath h path f = .ok true f') : Found h f path := by
  unfold isValidPath at hr
  split at hr
  · cases hr
  · rename_i hs
    injection hr with hfound
    exact ⟨hs, hfound⟩

/-! ## The server -/

namespace OfServer
open Server

def Unlocked (w : ServerState) : Prop := ∀ s name, (w.session s).fileMtx name = none

def NoNull (w : ServerState) : Prop := ∀ s name, (w.session s).fileMtx name ≠ some .null

theorem Unlocked.noNull {w : ServerState} (hw : Unlocked w) : NoNull w := by
  intro s name
  rw [hw s name]
  simp

structure Call where
  host : Host
  depth : ℕ
  session : SessionId
  route : Route
  buffer : Packet
  meanwhile : FileSystem → FileSystem

def step (c : Call) : ServerExec Unit := do
  modify fun w => { w with files := c.meanwhile w.files }
  let me := ((← get).session c.session).identity
  quiet (perform c.host (broadcastCallback c.host c.depth me.owner) c.session me c.buffer c.route)

def Spared (c : Call) (w : ServerState) : Prop :=
  ∀ args, c.route = .delete args →
    ¬ Found c.host (c.meanwhile w.files) ((w.session c.session).identity.directoryPath ++ args)

section Handlers
variable {h : Host} {bc : Broadcast} {self : SessionId} {me : Identity} {w : ServerState}

theorem setSession_unlocked (hw : Unlocked w) {s : SessionId} {c : ClientSession}
    (hc : c.fileMtx = (w.session s).fileMtx) : Unlocked (w.setSession s c) := by
  intro t name
  by_cases ht : t = s
  · subst ht
    have hsame : (w.setSession t c).session t = c := Function.update_self ..
    rw [hsame, hc, hw]
  · have hother : (w.setSession s c).session t = w.session t := Function.update_of_ne ht ..
    rw [hother, hw]

theorem onFiles_safe {α : Type} {p : Exec FileSystem α} (hp : Safe .nullLock (fun _ => True) p) :
    Safe .nullLock Unlocked (onFiles p) := Safe.zoom hp fun _ _ hw => hw

theorem pushPacket_safe (p : Packet) : Safe .nullLock Unlocked (pushPacket self p) :=
  Safe.modify fun _ hw => setSession_unlocked hw rfl

theorem answer_safe (command : Text) : Safe .nullLock Unlocked (answer self command) :=
  mount_safe pushPacket_safe command

theorem answerWith_safe (command payload : Text) :
    Safe .nullLock Unlocked (answerWith self command payload) :=
  mountWith_safe pushPacket_safe command payload

theorem listFiles_safe (line : Text → Text → Text → Text) :
    Safe .nullLock Unlocked (listFiles h me line) :=
  onFiles_safe (listFolder_safe _ _ _)

theorem sendLocked_safe (command file : Text) (cannotOpen : ServerExec Unit) :
    Safe .nullLock Unlocked (sendLocked h self me command file cannotOpen) := by
  intro w hw
  rw [sendLocked, run_bind_ok (fileMutex_run file w), hw]
  exact sane_ok hw

theorem adownload_safe (args : Text) :
    Safe .nullLock Unlocked (clientRequestedAdownload h self me args) := by
  refine Safe.bind (onFiles_safe isValidPath_safe) fun found => ?_
  split_ifs
  · exact Safe.bind (answerWith_safe _ _) fun _ => sendLocked_safe _ _ _
  · exact sendLocked_safe _ _ _

theorem clist_safe (buffer : Packet) (args : Text) :
    Safe .nullLock Unlocked (clientSentClist h self me buffer args) := by
  refine Safe.bind (splitPayload_safe _) fun sessionNames =>
    Safe.bind (listFiles_safe _) fun listing => ?_
  refine Safe.bind (Safe.forEach fun file _ => sendLocked_safe _ _ _) fun _ => ?_
  exact Safe.forEach fun file _ => answer_safe _

theorem completeTransfer_safe (args : Text) :
    Safe .nullLock Unlocked (completeTransfer h self me args) := by
  intro w hw
  obtain ⟨what, hr⟩ := completeTransfer_none h me (hw self args)
  rw [hr]
  exact sane_raised hw

theorem sdownload_safe (args checksum : Text) (buffer : Packet) :
    Safe .nullLock Unlocked (clientSentSdownload h self me args buffer checksum) := by
  unfold clientSentSdownload
  by_cases hc : checksum = txt "fail"
  · rw [if_pos hc]
    exact Safe.pure ()
  rw [if_neg hc]
  exact receiveIn_safe onFiles_safe (answerWith_safe _ _) (completeTransfer_safe args)

theorem delete_sane {args : Text} {buffer : Packet} (hw : Unlocked w)
    (hf : ¬ Found h w.files (me.directoryPath ++ args)) :
    Sane .nullLock Unlocked (clientRequestedDelete h bc self me args buffer w) := by
  refine Sane.bind (onFiles_safe isValidPath_safe w hw) fun found w' hr hw' => ?_
  obtain ⟨f, hvalid, -⟩ := run_zoom_inv hr
  cases found with
  | true => exact absurd (isValidPath_found hvalid) hf
  | false => exact answerWith_safe _ _ w' hw'

theorem perform_sane {buffer : Packet} {route : Route} (hw : Unlocked w)
    (hf : ∀ args, route = .delete args → ¬ Found h w.files (me.directoryPath ++ args)) :
    Sane .nullLock Unlocked (perform h bc self me buffer route w) := by
  cases route with
  | malformed command => exact sane_ok hw
  | logout => exact sane_ok (setSession_unlocked hw rfl)
  | ping => exact answer_safe _ w hw
  | pong => exact sane_ok hw
  | slist => exact Safe.bind (listFiles_safe _) (fun _ => answerWith_safe _ _) w hw
  | flist => exact Safe.bind (listFiles_safe _) (fun _ => answerWith_safe _ _) w hw
  | clist args => exact clist_safe buffer args w hw
  | delete args => exact delete_sane hw (hf args rfl)
  | adownload args => exact adownload_safe args w hw
  | download => exact sane_ok hw
  | sdownload args checksum => exact sdownload_safe args checksum buffer w hw
  | supload args arg2 =>
    change Sane .nullLock Unlocked (clientSentSupload args arg2 w)
    unfold clientSentSupload
    split_ifs
    exacts [sane_ok hw, sane_ok hw]

theorem step_sane {c : Call} (hw : Unlocked w) (hs : Spared c w) : Sane .nullLock Unlocked (step c w) :=
  Sane.quiet (perform_sane (w := { w with files := c.meanwhile w.files }) hw hs)

theorem delete_crashes {args : Text} {buffer : Packet} {w' : ServerState} (hw : Unlocked w')
    (hf : Found h w.files (me.directoryPath ++ args))
    (hbc : bc me.socketFd buffer
      { w with files := w.files.record .test (me.directoryPath ++ args) } = .ok () w') :
    ∃ w'', clientRequestedDelete h bc self me args buffer w = .error (.crashed .nullLock) w'' := by
  have hvalid : onFiles (isValidPath h (me.directoryPath ++ args)) w =
      .ok true { w with files := w.files.record .test (me.directoryPath ++ args) } :=
    run_zoom_ok (FileSystem.isValidPath_there hf.1 hf.2)
  obtain ⟨w'', hlocked⟩ : ∃ w'', deleteLocked h self me args w' = .error (.crashed .nullLock) w'' := by
    rw [deleteLocked, run_bind_ok (fileMutex_run args w'), hw self args]
    have hlock : lockFile self args w' = .error (.crashed .nullLock) _ := lockIn_absent (hw self args)
    exact ⟨_, run_bind_error hlock _⟩
  refine ⟨w'', ?_⟩
  rw [clientRequestedDelete, run_bind_ok hvalid, if_pos rfl, run_bind_ok hbc]
  exact run_attempt_crashed hlocked _

end Handlers

end OfServer

/-! ## A client -/

namespace OfClient
open Client

def NoNull (w : ClientState) : Prop := ∀ name, w.fileMtx name ≠ some .null

inductive Handler where
  | upload (args : Text)
  | requestDelete (args : Text)
  | serverDownload (args : Text)
  | serverUpload (args checksum : Text) (buffer : Packet)
  | serverDelete (args : Text) (buffer : Packet) (arg2 : Text)
  | serverAsyncUpload (args checksum : Text) (buffer : Packet)

structure Call where
  host : Host
  handler : Handler
  meanwhile : FileSystem → FileSystem

def perform (h : Host) : Handler → ClientExec Unit
  | .upload args => uploadCommand h args
  | .requestDelete args => requestDelete h args
  | .serverDownload args => serverDownloadCommand h args
  | .serverUpload args checksum buffer => serverUploadCommand h args checksum buffer
  | .serverDelete args buffer arg2 => serverDeleteFileCommand h args buffer arg2
  | .serverAsyncUpload args checksum buffer => serverAsyncUploadCommand h args checksum buffer

def step (c : Call) : ClientExec Unit := do
  modify fun w => { w with files := c.meanwhile w.files }
  quiet (perform c.host c.handler)

/-- A file that is there and is uploaded has a mutex or a name without quotation marks; one that is
there and deleted has a mutex, unless its name is too long for the request. -/
def SparedBy (h : Host) (w : ClientState) : Handler → Prop
  | .upload args => Found h w.files (w.syncDirPath ++ args) →
      w.fileMtx (unquoted args) ≠ none ∨ unquoted args = args
  | .requestDelete args => Packet.Fits (txt "delete|" ++ unquoted args) →
      Found h w.files (w.syncDirPath ++ unquoted args) → w.fileMtx (unquoted args) ≠ none
  | _ => True

def Spared (c : Call) (w : ClientState) : Prop :=
  SparedBy c.host { w with files := c.meanwhile w.files } c.handler

section Handlers
variable {h : Host} {w : ClientState}

theorem onFiles_safe {α : Type} {p : Exec FileSystem α} (hp : Safe .nullLock (fun _ => True) p) :
    Safe .nullLock NoNull (onFiles p) := Safe.zoom hp fun _ _ hw => hw

theorem pushPacket_safe (p : Packet) : Safe .nullLock NoNull (pushPacket p) :=
  Safe.modify fun _ hw => hw

theorem answer_safe (command : Text) : Safe .nullLock NoNull (answer command) :=
  mount_safe pushPacket_safe command

theorem answerWith_safe (command payload : Text) : Safe .nullLock NoNull (answerWith command payload) :=
  mountWith_safe pushPacket_safe command payload

theorem reportReason_safe (buffer : Packet) : Safe .nullLock NoNull (reportReason buffer) :=
  Safe.bind (charraystr_safe _ _) fun _ => Safe.pure ()

theorem locked_safe {name : Text} {found : ClientExec Unit} {what : Text}
    (hf : Safe .nullLock NoNull found) :
    Safe .nullLock NoNull (do
      match ← fileMutex name with
      | some _ => do
        lockFile name
        found
      | none => raise what) := by
  intro w hw
  rw [run_bind_ok (fileMutex_run name w)]
  cases hl : w.fileMtx name with
  | none => exact sane_raised hw
  | some l =>
    cases l with
    | null => exact absurd hl (hw name)
    | live => exact (lockIn_sane hl hw).bind fun _ w' _ hw' => hf w' hw'

theorem completeTransfer_safe (args path : Text) :
    Safe .nullLock NoNull (completeTransfer h args path) :=
  locked_safe (Safe.bind (onFiles_safe calculateMd5Checksum_safe) fun _ =>
    onFiles_safe (renameReplacing_safe _))

theorem receiveUpload_safe (command args path checksum : Text) (buffer : Packet) :
    Safe .nullLock NoNull (receiveUpload h command args path checksum buffer) := by
  unfold receiveUpload
  by_cases hc : checksum = txt "fail"
  · rw [if_pos hc]
    exact reportReason_safe buffer
  rw [if_neg hc]
  exact receiveIn_safe onFiles_safe (answerWith_safe _ _) (completeTransfer_safe _ _)

theorem serverDownload_safe (args : Text) : Safe .nullLock NoNull (serverDownloadCommand h args) := by
  refine Safe.bind Safe.get fun w => Safe.bind (onFiles_safe isValidPath_safe) fun found => ?_
  split_ifs
  · refine locked_safe (Safe.bind (onFiles_safe calculateMd5Checksum_safe) fun checksum => ?_)
    refine Safe.bind (onFiles_safe openRead_safe) fun content => ?_
    cases content with
    | none => exact answerWith_safe _ _
    | some content => exact chunkLoop_safe (by decide) (fun _ => Safe.pure ()) pushPacket_safe _ content
  · exact answerWith_safe _ _

theorem serverDelete_safe (args : Text) (buffer : Packet) (arg2 : Text) :
    Safe .nullLock NoNull (serverDeleteFileCommand h args buffer arg2) := by
  refine Safe.bind Safe.get fun w => ?_
  by_cases hfail : arg2 = txt "fail"
  · rw [if_pos hfail]
    exact reportReason_safe buffer
  rw [if_neg hfail]
  refine Safe.bind (onFiles_safe isValidPath_safe) fun found => ?_
  split_ifs
  · exact answerWith_safe _ _
  · exact reportReason_safe buffer
  · exact Safe.pure ()
  · exact Safe.attempt (locked_safe (onFiles_safe deleteFile_safe)) fun what => answerWith_safe _ _

theorem answer_inv {command : Text} {u : Unit} {w' : ClientState} (hr : answer command w = .ok u w') :
    Packet.Fits command ∧ w' = w.push (Packet.ofCommand command) := by
  obtain ⟨p, w₁, hcommand, hpush⟩ := run_bind_inv hr
  by_cases hf : Packet.Fits command
  · rw [Packet.setCommand_fits hf] at hcommand
    cases hcommand
    cases hpush
    exact ⟨hf, rfl⟩
  · obtain ⟨what, hlong⟩ := Packet.setCommand_long (p := .init) hf w
    rw [hlong] at hcommand
    cases hcommand

theorem isValidPath_inv {path : Text} {found : Bool} {w' : ClientState}
    (hr : onFiles (isValidPath h path) w = .ok found w') :
    w'.fileMtx = w.fileMtx ∧ (found = true → Found h w.files path) := by
  obtain ⟨f, hfile, hw'⟩ := run_zoom_inv hr
  refine ⟨by rw [hw'], fun hfound => ?_⟩
  rw [hfound] at hfile
  exact isValidPath_found hfile

theorem requestDelete_sane {args : Text} (hw : NoNull w) (hs : SparedBy h w (.requestDelete args)) :
    Sane .nullLock NoNull (requestDelete h args w) := by
  refine (answer_safe _ w hw).bind fun _ w₁ hanswer hw₁ => ?_
  obtain ⟨hfits, hpushed⟩ := answer_inv hanswer
  rw [run_bind_ok (run_get w₁)]
  refine (onFiles_safe isValidPath_safe w₁ hw₁).bind fun found w₂ hvalid hw₂ => ?_
  obtain ⟨hlocks, hfound⟩ := isValidPath_inv hvalid
  rw [hpushed] at hlocks hfound
  cases found with
  | false => exact sane_ok hw₂
  | true =>
    have hentry : w₂.fileMtx (unquoted args) ≠ none := by
      rw [hlocks]
      exact hs hfits (hfound rfl)
    rw [if_pos rfl, run_bind_ok (fileMutex_run _ w₂)]
    obtain ⟨l, hl⟩ := Option.ne_none_iff_exists'.mp hentry
    rw [hl]
    exact sane_raised hw₂

theorem uploadLocked_sane {name path : Text} (hw : NoNull w) (hl : w.fileMtx name = some .live) :
    Sane .nullLock NoNull (uploadLocked h name path w) := by
  have hcopy (t : Option Path) (p : Packet) : Safe .nullLock NoNull (copyTo t p) := by
    cases t with
    | none => exact Safe.pure ()
    | some t => exact onFiles_safe (streamWrite_safe _ _ _)
  refine (lockIn_sane hl hw).bind fun _ w' _ hw' => ?_
  refine Safe.bind (onFiles_safe calculateMd5Checksum_safe) (fun checksum => ?_) w' hw'
  refine Safe.bind (onFiles_safe openRead_safe) fun file => ?_
  refine Safe.bind (onFiles_safe openAppend_safe) fun temporary => ?_
  cases file with
  | none => exact Safe.pure ()
  | some content =>
    exact Safe.bind (chunkLoop_safe (by decide) (hcopy temporary) pushPacket_safe _ content) fun _ =>
      onFiles_safe (renameReplacing_safe _)

theorem emplaceLock_run {name : Text} (hl : w.fileMtx name = none) :
    emplaceLock name w = .ok () (w.setLock name (some .live)) := by
  rw [emplaceLock, run_bind_ok (fileMutex_run name w), hl]
  rfl

theorem setLock_noNull (hw : NoNull w) (name : Text) : NoNull (w.setLock name (some .live)) := by
  intro other
  by_cases hn : other = name
  · have hself : (w.setLock name (some .live)).fileMtx name = some .live := Function.update_self ..
    rw [hn, hself]
    simp
  · have hother : (w.setLock name (some .live)).fileMtx other = w.fileMtx other :=
      Function.update_of_ne hn ..
    rw [hother]
    exact hw other

theorem upload_sane {args : Text} (hw : NoNull w) (hs : SparedBy h w (.upload args)) :
    Sane .nullLock NoNull (uploadCommand h args w) := by
  rw [uploadCommand, run_bind_ok (run_get w)]
  refine (onFiles_safe isValidPath_safe w hw).bind fun found w₂ hvalid hw₂ => ?_
  obtain ⟨hlocks, hfound⟩ := isValidPath_inv hvalid
  cases found with
  | false => exact sane_ok hw₂
  | true =>
    have hspared := hs (hfound rfl)
    rw [← hlocks] at hspared
    rw [if_pos rfl, run_bind_ok (fileMutex_run _ w₂)]
    cases hl : w₂.fileMtx (unquoted args) with
    | none =>
      have hplain : unquoted args = args := hspared.resolve_left (not_not_intro hl)
      rw [hplain] at hl ⊢
      rw [if_pos Option.isNone_none, run_bind_ok (emplaceLock_run hl)]
      exact uploadLocked_sane (setLock_noNull hw₂ args) (Function.update_self ..)
    | some l =>
      have hlive : l ≠ .null := fun hnull => hw₂ (unquoted args) (hnull ▸ hl)
      rw [if_neg (by simp)]
      cases l with
      | null => exact absurd rfl hlive
      | live => exact uploadLocked_sane hw₂ hl

theorem perform_sane {handler : Handler} (hw : NoNull w) (hs : SparedBy h w handler) :
    Sane .nullLock NoNull (perform h handler w) := by
  cases handler with
  | upload args => exact upload_sane hw hs
  | requestDelete args => exact requestDelete_sane hw hs
  | serverDownload args => exact serverDownload_safe args w hw
  | serverUpload args checksum buffer =>
    exact Safe.bind Safe.get (fun _ => receiveUpload_safe _ _ _ _ _) w hw
  | serverDelete args buffer arg2 => exact serverDelete_safe args buffer arg2 w hw
  | serverAsyncUpload args checksum buffer =>
    exact Safe.bind Safe.get (fun _ => receiveUpload_safe _ _ _ _ _) w hw

theorem step_sane {c : Call} (hw : NoNull w) (hs : Spared c w) : Sane .nullLock NoNull (step c w) :=
  Sane.quiet (perform_sane (w := { w with files := c.meanwhile w.files }) hw hs)

theorem requestDelete_crashes {args : Text} (hfits : Packet.Fits (txt "delete|" ++ unquoted args))
    (hf : Found h w.files (w.syncDirPath ++ unquoted args)) (hl : w.fileMtx (unquoted args) = none) :
    ∃ w', requestDelete h args w = .error (.crashed .nullLock) w' := by
  let w₁ := w.push (Packet.ofCommand (txt "delete|" ++ unquoted args))
  let w₂ : ClientState := { w₁ with files := w.files.record .test (w.syncDirPath ++ unquoted args) }
  have hanswer : answer (txt "delete|" ++ unquoted args) w = .ok () w₁ := Packet.mount_run hfits
  have hvalid : onFiles (isValidPath h (w₁.syncDirPath ++ unquoted args)) w₁ = .ok true w₂ :=
    run_zoom_ok (FileSystem.isValidPath_there hf.1 hf.2)
  obtain ⟨w', hlock⟩ : ∃ w', lockFile (unquoted args) w₂ = .error (.crashed .nullLock) w' :=
    ⟨_, lockIn_absent hl⟩
  refine ⟨w', ?_⟩
  rw [requestDelete, run_bind_ok hanswer, run_bind_ok (run_get w₁), run_bind_ok hvalid, if_pos rfl,
    run_bind_ok (fileMutex_run _ w₂), show w₂.fileMtx (unquoted args) = none from hl]
  exact run_bind_error hlock _

theorem upload_crashes {args : Text} (hf : Found h w.files (w.syncDirPath ++ args))
    (hquoted : unquoted args ≠ args) (hl : w.fileMtx (unquoted args) = none) :
    ∃ w', uploadCommand h args w = .error (.crashed .nullLock) w' := by
  let w₁ : ClientState := { w with files := w.files.record .test (w.syncDirPath ++ args) }
  have hvalid : onFiles (isValidPath h (w.syncDirPath ++ args)) w = .ok true w₁ :=
    run_zoom_ok (FileSystem.isValidPath_there hf.1 hf.2)
  have hemplaced : ∃ w₂, emplaceLock args w₁ = .ok () w₂ ∧ w₂.fileMtx (unquoted args) = none := by
    cases htyped : w₁.fileMtx args with
    | none => exact ⟨_, emplaceLock_run htyped, (Function.update_of_ne hquoted ..).trans hl⟩
    | some l =>
      refine ⟨w₁, ?_, hl⟩
      rw [emplaceLock, run_bind_ok (fileMutex_run args w₁), htyped]
      rfl
  obtain ⟨w₂, hrun, hl₂⟩ := hemplaced
  obtain ⟨w', hlock⟩ : ∃ w', lockFile (unquoted args) w₂ = .error (.crashed .nullLock) w' :=
    ⟨_, lockIn_absent hl₂⟩
  refine ⟨w', ?_⟩
  rw [uploadCommand, run_bind_ok (run_get w), run_bind_ok hvalid, if_pos rfl,
    run_bind_ok (fileMutex_run _ w₁), show w₁.fileMtx (unquoted args) = none from hl,
    if_pos Option.isNone_none, run_bind_ok hrun]
  exact run_bind_error hlock _

end Handlers

end OfClient

/-! ## Runs -/

/-- Over any run of handlers on either side in which no handler is given a file it locks without a
mutex, starting from empty tables, no table gets a null lock and none is dereferenced. -/
theorem tables_hold_locks (calls : List OfServer.Call) (w : Server.ServerState)
    (handlers : List OfClient.Call) (v : Client.ClientState)
    (hw : OfServer.Unlocked w) (hv : ∀ name, v.fileMtx name = none)
    (hcalls : Along OfServer.step OfServer.Spared calls w)
    (hhandlers : Along OfClient.step OfClient.Spared handlers v) :
    Sane .nullLock OfServer.NoNull (forEach OfServer.step calls w) ∧
      Sane .nullLock OfClient.NoNull (forEach OfClient.step handlers v) := by
  constructor
  · refine Sane.mono ?_ fun w' hw' => OfServer.Unlocked.noNull hw'
    exact Sane.forEach (fun c s hs hc => OfServer.step_sane hs hc) hw hcalls
  · have hnone : OfClient.NoNull v := fun name => by rw [hv name]; simp
    exact Sane.forEach (fun c s hs hc => OfClient.step_sane hs hc) hnone hhandlers

def clientOfAna : Client.ClientState :=
  ⟨⟨3, 0, fun _ => [], fun _ => [], fun _ => true⟩,
    ⟨[], AList.singleton [⟨txt "sync_notes", by decide⟩] (.file []), []⟩, txt "./sync_", txt "./",
    fun _ => none, [], true, true, true⟩

def serverOfAna : Server.ServerState :=
  { Server.ServerState.init ⟨3, 0, fun _ => [], fun _ => [], fun _ => true⟩ ⟨[], ∅, []⟩ with
    session := fun _ =>
      ⟨⟨4, txt "ana", txt "laptop", txt "./sync_", 0⟩, [], fun _ => none, true, true⟩ }

theorem absent_file_spared :
    Sane .nullLock OfServer.NoNull
        (forEach OfServer.step [⟨pageHost.1, 1, 0, .delete (txt "b"), .init, id⟩] serverOfAna) ∧
      Sane .nullLock OfClient.NoNull
        (forEach OfClient.step [⟨pageHost.1, .upload (txt "notes"), id⟩] clientOfAna) := by
  refine tables_hold_locks _ serverOfAna _ clientOfAna (fun _ _ => rfl) (fun _ => rfl)
    ⟨?_, fun _ _ => trivial⟩ ⟨fun _ => .inr (by decide), fun _ _ => trivial⟩
  intro args hargs hfound
  cases hargs
  exact absurd hfound.2 (by decide)

theorem delete_dereferences_null :
    ¬ ∀ (handlers : List OfClient.Call) (v : Client.ClientState), (∀ name, v.fileMtx name = none) →
      Sane .nullLock OfClient.NoNull (forEach OfClient.step handlers v) := by
  intro hall
  have hsane := hall [⟨pageHost.1, .requestDelete (txt "notes"), id⟩] clientOfAna fun _ => rfl
  obtain ⟨w', hcrash⟩ : ∃ w', Client.requestDelete pageHost.1 (txt "notes") clientOfAna =
      .error (.crashed .nullLock) w' :=
    OfClient.requestDelete_crashes (by decide) ⟨rfl, by decide⟩ rfl
  have hstep : OfClient.step ⟨pageHost.1, .requestDelete (txt "notes"), id⟩ clientOfAna =
      .error (.crashed .nullLock) w' := run_quiet_crashed hcrash
  exact hsane.2 w' (run_bind_error hstep _)

end SyncWizard.Properties
