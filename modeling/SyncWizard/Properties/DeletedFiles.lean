import SyncWizard.Properties.LockTables
import SyncWizard.Server.Runs

/-! Whether a deleted file goes away together with its lock. Both handlers test for the lock the wrong
way round, and only a client gets to tell anyone about a file that is not there. -/

namespace SyncWizard.Properties
open Foundation Common

def Removable (h : Host) (f : FileSystem) (path : Text) : Prop := Returns (deleteFile h path f)

theorem removable_of {h : Host} {f : FileSystem} {path c : Text} {p : Path}
    (hp : f.locate path = some p) (hc : f.node p = some (.file c)) (hr : h.mayRemove path = true) :
    Removable h f path := by
  rw [Removable, FileSystem.deleteFile_run hp hc hr]
  exact returns_ok _ _

/-! ## The server -/

section Server
open Server
variable (h : Host) (depth : ℕ) (s : SessionId) (args : Text) (buffer : Packet) (w : ServerState)

def hostedPath : Text := (w.session s).identity.directoryPath ++ args

def deleteRun : EStateM.Result (Fault Text Crash) ServerState Unit :=
  clientRequestedDelete h (broadcastCallback h depth (w.session s).identity.owner) s
    (w.session s).identity args buffer w

structure RemovedOnServer (w' : ServerState) : Prop where
  file : w'.files.lookup (hostedPath s args w) = none
  lock : (w'.session s).fileMtx args = none
  otherFiles : ∀ q, w.files.locate (hostedPath s args w) ≠ some q →
    w'.files.node q = w.files.node q
  otherLocks : ∀ t name, t ≠ s ∨ name ≠ args →
    (w'.session t).fileMtx name = (w.session t).fileMtx name

structure RefusedByServer (w' : ServerState) : Prop where
  files : w'.files.node = w.files.node
  locks : ∀ t, (w'.session t).fileMtx = (w.session t).fileMtx
  told : ∃ p, Packet.Reads (txt "delete|" ++ args ++ txt "|fail") p ∧
    (w'.session s).senderBuffer = (w.session s).senderBuffer ++ [p]

structure LockedOnServer : Prop where
  file : ∃ c, w.files.content (hostedPath s args w) = some c
  lock : (w.session s).fileMtx args ≠ none
  removable : Removable h w.files (hostedPath s args w)

def UnremovableOnServer : Prop :=
  w.files.lookup (hostedPath s args w) = none ∨ ¬ Removable h w.files (hostedPath s args w)

structure DeletesOnServer : Prop where
  removes : LockedOnServer h s args w →
    ∃ w', deleteRun h depth s args buffer w = .ok () w' ∧ RemovedOnServer s args w w'
  refuses : UnremovableOnServer h s args w →
    RefusedByServer s args w (final (deleteRun h depth s args buffer w))

end Server

section ServerRuns
open Server
variable {h : Host} {bc : Broadcast} {s : SessionId} {me : Identity} {args : Text} {buffer : Packet}
  {w w' : ServerState} {u : Unit}

theorem lookup_of_locked (hl : LockedOnServer h s args w) :
    (w.files.lookup (hostedPath s args w)).isSome = true := by
  obtain ⟨c, hc⟩ := hl.file
  rw [FileSystem.lookup_of_content hc]
  rfl

theorem deleteLocked_fails : deleteLocked h s me args w ≠ .ok u w' := by
  intro hr
  rw [deleteLocked, run_bind_ok (fileMutex_run args w)] at hr
  cases hl : (w.session s).fileMtx args with
  | none =>
    have hlock : lockFile s args w = .error (.crashed .nullLock) _ := lockIn_absent hl
    rw [hl] at hr
    cases (run_bind_error hlock _).symm.trans hr
  | some l =>
    rw [hl] at hr
    cases hr

theorem clientRequestedDelete_fails
    (hfound : (w.files.lookup (me.directoryPath ++ args)).isSome = true) :
    clientRequestedDelete h bc s me args buffer w ≠ .ok u w' := by
  intro hr
  obtain ⟨found, w₁, hvalid, hr⟩ := run_bind_inv hr
  obtain ⟨f, hvalid, -⟩ := run_zoom_inv hvalid
  have htrue : found = true := by
    unfold isValidPath at hvalid
    split at hvalid
    · cases hvalid
    · injection hvalid with hval
      exact hval.symm.trans hfound
  rw [htrue, if_pos rfl] at hr
  obtain ⟨_, w₂, -, hr⟩ := run_bind_inv hr
  cases hlocked : deleteLocked h s me args w₂ with
  | ok u w₃ => exact deleteLocked_fails hlocked
  | error e w₃ =>
    cases e with
    | raised what =>
      rw [run_attempt_raised hlocked] at hr
      cases hr
    | crashed how =>
      rw [run_attempt_crashed hlocked] at hr
      cases hr

theorem commandArray_head {b : Byte} (hb : b ≠ nul) (rest : Text) :
    (Packet.commandArray (b :: rest)).head? = some b := by
  rw [Packet.commandArray, strncpy, List.take_length, List.takeWhile_cons_of_pos (by rwa [bne_iff_ne])]
  rfl

theorem sends_head {c : Text} (hc : Sends c) : (Packet.commandArray c).head? ≠ some 100 := by
  have hname {b : Byte} {c : Text} (hn : c.head? = some b) (hb : b ≠ nul) (hd : b ≠ 100) :
      (Packet.commandArray c).head? ≠ some 100 := by
    obtain ⟨rest, rfl⟩ := List.head?_eq_some_iff.mp hn
    rw [commandArray_head hb]
    exact fun he => hd (Option.some.inj he)
  rcases hc with rfl | rfl | ⟨route, hr⟩
  · exact hname (b := 112) rfl (by decide) (by decide)
  · exact hname (b := 101) rfl (by decide) (by decide)
  · cases route with
    | ping =>
      obtain rfl : c = txt "pong" := hr
      exact hname (b := 112) rfl (by decide) (by decide)
    | slist =>
      obtain rfl : c = txt "slist" := hr
      exact hname (b := 115) rfl (by decide) (by decide)
    | flist =>
      obtain rfl : c = txt "flist" := hr
      exact hname (b := 102) rfl (by decide) (by decide)
    | clist args =>
      rcases hr with ⟨file, rfl⟩ | ⟨file, checksum, rfl⟩
      · exact hname (b := 115) rfl (by decide) (by decide)
      · exact hname (b := 115) rfl (by decide) (by decide)
    | adownload args =>
      obtain ⟨checksum, rfl⟩ : ∃ checksum, c = txt "aupload|" ++ args ++ txt "|" ++ checksum := hr
      exact hname (b := 97) rfl (by decide) (by decide)
    | malformed | logout | pong | delete | download | sdownload | supload => exact absurd hr id

theorem untold (depth : ℕ) : ¬ ∃ p, Packet.Reads (txt "delete|" ++ args ++ txt "|fail") p ∧
    ((final (deleteRun h depth s args buffer w)).session s).senderBuffer =
      (w.session s).senderBuffer ++ [p] := by
  rintro ⟨p, hp, hqueue⟩
  have hkept : Kept (OnlyQueues fun p => ∃ c, Sends c ∧ Packet.Carries c p)
      (clientRequestedDelete h (broadcastCallback h depth (w.session s).identity.owner) s
        (w.session s).identity args buffer) := by
    apply (onlyQueues_admits s).delete_kept
    · intro fd p
      apply broadcastOtherSessions_kept onlyQueues_admits
      · exact fun c p hc hcarries => ⟨c, hc, hcarries⟩
      · exact fun me => receiveCallback_onlyQueues me
    · exact fun _ _ => trivial
  obtain ⟨-, -, hsessions⟩ := hkept w
  obtain ⟨-, new, hnew, hall⟩ := hsessions s
  have hsame : new = [p] := List.append_cancel_left (hnew.symm.trans hqueue)
  obtain ⟨c, hc, hcarries⟩ := hall p (hsame ▸ List.mem_singleton_self p)
  refine sends_head hc ?_
  rw [← hcarries.command, hp.command]
  exact commandArray_head (by decide) _

end ServerRuns

/-! ## A client -/

section Client
open Client
variable (h : Host) (args : Text) (w : ClientState)

def ownPath : Text := w.syncDirPath ++ unquoted args

def deleteOwn (localFilePath : Text) : ClientExec Unit := do
  let filePath := unquoted args
  match ← fileMutex filePath with
  | none => do
    lockFile filePath
    onFiles (deleteFile h localFilePath)
    match ← fileMutex filePath with
    | some _ => modify fun w => w.setLock filePath none
    | none => raise (clientError .clientSide (noLocalMutex filePath))
  | some _ => raise (clientError .clientSide (noLocalMutex args))

def requestDeleteTold : ClientExec (List Text) := do
  answer (txt "delete|" ++ unquoted args)
  let localFilePath := (← get).syncDirPath ++ unquoted args
  if ← onFiles (isValidPath h localFilePath) then do
    deleteOwn h args localFilePath
    return []
  else return [txt "Could not acess given file!"]

structure RemovedOnClient (w' : ClientState) : Prop where
  file : w'.files.lookup (ownPath args w) = none
  lock : w'.fileMtx (unquoted args) = none
  otherFiles : ∀ q, w.files.locate (ownPath args w) ≠ some q → w'.files.node q = w.files.node q
  otherLocks : ∀ name, name ≠ unquoted args → w'.fileMtx name = w.fileMtx name

structure LockedOnClient : Prop where
  file : ∃ c, w.files.content (ownPath args w) = some c
  lock : w.fileMtx (unquoted args) ≠ none
  removable : Removable h w.files (ownPath args w)

def UnremovableOnClient : Prop :=
  w.files.lookup (ownPath args w) = none ∨ ¬ Removable h w.files (ownPath args w)

structure DeletesOnClient : Prop where
  removes : LockedOnClient h args w →
    ∃ told w', requestDeleteTold h args w = .ok told w' ∧ RemovedOnClient args w w'
  refuses : UnremovableOnClient h args w →
    ∃ message w', requestDeleteTold h args w = .ok [message] w' ∧
      w'.files.node = w.files.node ∧ w'.fileMtx = w.fileMtx

structure ToldMissing : Prop where
  missing : w.files.lookup (ownPath args w) = none
  tested : h.statError (ownPath args w) = none
  fits : Packet.Fits (txt "delete|" ++ unquoted args)

end Client

section ClientRuns
open Client
variable {h : Host} {args path : Text} {w w' : ClientState} {u : Unit} {told : List Text}

theorem requestDelete_told :
    requestDelete h args = (do let _ ← requestDeleteTold h args) := by
  funext w
  rw [requestDelete, requestDeleteTold, bind_assoc]
  refine congrFun (congrArg _ (funext fun _ => ?_)) w
  rw [bind_assoc]
  refine congrArg _ (funext fun w => ?_)
  dsimp only
  rw [bind_assoc]
  refine congrArg _ (funext fun found => ?_)
  cases found with
  | true =>
    change deleteOwn h args _ = (deleteOwn h args _ >>= fun _ => pure []) >>= fun _ => pure ()
    rw [bind_assoc]
    exact bind_pure_unit.symm
  | false => rfl

theorem deleteOwn_fails : deleteOwn h args path w ≠ .ok u w' := by
  intro hr
  rw [deleteOwn, run_bind_ok (fileMutex_run _ w)] at hr
  cases hl : w.fileMtx (unquoted args) with
  | none =>
    have hlock : lockFile (unquoted args) w = .error (.crashed .nullLock) _ := lockIn_absent hl
    rw [hl] at hr
    cases (run_bind_error hlock _).symm.trans hr
  | some l =>
    rw [hl] at hr
    cases hr

theorem requestDeleteTold_inv (hr : requestDeleteTold h args w = .ok told w') :
    ToldMissing h args w := by
  by_cases hfits : Packet.Fits (txt "delete|" ++ unquoted args)
  · have hanswer : answer (txt "delete|" ++ unquoted args) w = .ok () _ := Packet.mount_run hfits
    rw [requestDeleteTold, run_bind_ok hanswer, run_bind_ok (run_get _)] at hr
    obtain ⟨found, w₁, hvalid, hr⟩ := run_bind_inv hr
    obtain ⟨f, hvalid, -⟩ := run_zoom_inv hvalid
    cases found with
    | true =>
      obtain ⟨_, w₂, hdeleted, -⟩ := run_bind_inv hr
      exact absurd hdeleted deleteOwn_fails
    | false =>
      unfold isValidPath at hvalid
      split at hvalid
      · cases hvalid
      · rename_i hs
        injection hvalid with hfound
        exact ⟨Option.isNone_iff_eq_none.mp (Option.isSome_eq_false_iff.mp hfound), hs, hfits⟩
  · obtain ⟨what, hlong⟩ : ∃ what, answer (txt "delete|" ++ unquoted args) w = .error what w := by
      obtain ⟨what, hw⟩ := Packet.setCommand_long (p := Packet.init) hfits w
      exact ⟨_, run_bind_error hw _⟩
    cases (run_bind_error hlong _).symm.trans hr

theorem requestDeleteTold_missing (hm : ToldMissing h args w) :
    ∃ message w', requestDeleteTold h args w = .ok [message] w' ∧ w'.files.node = w.files.node ∧
      w'.fileMtx = w.fileMtx := by
  let w₁ := w.push (Packet.ofCommand (txt "delete|" ++ unquoted args))
  let w₂ : ClientState := { w₁ with files := w.files.record .test (ownPath args w) }
  have hanswer : answer (txt "delete|" ++ unquoted args) w = .ok () w₁ := Packet.mount_run hm.fits
  have hvalid : onFiles (isValidPath h (w₁.syncDirPath ++ unquoted args)) w₁ = .ok false w₂ :=
    run_zoom_ok (FileSystem.isValidPath_missing hm.tested hm.missing)
  refine ⟨txt "Could not acess given file!", w₂, ?_, rfl, rfl⟩
  rw [requestDeleteTold, run_bind_ok hanswer, run_bind_ok (run_get w₁), run_bind_ok hvalid]
  rfl

end ClientRuns

/-- The server never does what a deletion asks for, and a client does so only for a file that is
missing. -/
theorem deletion_iff (h : Host) (depth : ℕ) (s : Server.SessionId) (args : Text) (buffer : Packet)
    (w : Server.ServerState) (c : Client.ClientState) :
    (DeletesOnServer h depth s args buffer w ↔
      ¬ LockedOnServer h s args w ∧ ¬ UnremovableOnServer h s args w) ∧
    (DeletesOnClient h args c ↔
      ¬ LockedOnClient h args c ∧ ¬ UnremovableOnClient h args c ∨ ToldMissing h args c) := by
  refine ⟨⟨fun hd => ⟨fun hl => ?_, fun hun => ?_⟩, fun hno => ?_⟩, fun hd => ?_, fun hwhen => ?_⟩
  · obtain ⟨w', hrun, -⟩ := hd.removes hl
    exact clientRequestedDelete_fails (lookup_of_locked hl) hrun
  · exact untold depth (hd.refuses hun).told
  · exact ⟨fun hl => absurd hl hno.1, fun hun => absurd hun hno.2⟩
  · by_cases hl : LockedOnClient h args c
    · obtain ⟨told, w', hrun, -⟩ := hd.removes hl
      exact .inr (requestDeleteTold_inv hrun)
    by_cases hun : UnremovableOnClient h args c
    · obtain ⟨message, w', hrun, -⟩ := hd.refuses hun
      exact .inr (requestDeleteTold_inv hrun)
    · exact .inl ⟨hl, hun⟩
  · rcases hwhen with ⟨hl, hun⟩ | hm
    · exact ⟨fun h => absurd h hl, fun h => absurd h hun⟩
    · refine ⟨fun hl => ?_, fun _ => requestDeleteTold_missing hm⟩
      obtain ⟨c, hc⟩ := hl.file
      cases hm.missing.symm.trans (FileSystem.lookup_of_content hc)

def lockedDraft : FileSystem := ⟨[], AList.singleton [⟨txt "draft", by decide⟩] (.file [1]), []⟩

def hostOfDraft : Server.ServerState :=
  (Server.ServerState.init ⟨3, 0, fun _ => [], fun _ => [], fun _ => true⟩ lockedDraft).setSession 0
    ⟨⟨5, txt "user", txt "machine", txt "./", 0⟩, [], fun _ => some .live, true, true⟩

def ownerOfDraft : Client.ClientState :=
  ⟨⟨3, 0, fun _ => [], fun _ => [], fun _ => true⟩, lockedDraft, txt "./", txt "./async_",
    fun _ => some .live, [], true, true, true⟩

theorem draft_file : lockedDraft.locate (txt "./draft") = some [⟨txt "draft", by decide⟩] ∧
    lockedDraft.node [⟨txt "draft", by decide⟩] = some (.file [1]) := by decide

theorem draft_undeleted :
    ¬ DeletesOnServer pageHost.1 0 0 (txt "draft") Packet.init hostOfDraft ∧
      ¬ DeletesOnClient pageHost.1 (txt "draft") ownerOfDraft := by
  have hcontent := FileSystem.content_of_node draft_file.1 draft_file.2
  have hremovable : Removable pageHost.1 lockedDraft (txt "./draft") :=
    removable_of draft_file.1 draft_file.2 rfl
  refine ⟨fun hd => ?_, fun hd => ?_⟩
  · have hl : LockedOnServer pageHost.1 0 (txt "draft") hostOfDraft :=
      ⟨⟨_, hcontent⟩, Option.some_ne_none _, hremovable⟩
    obtain ⟨w', hrun, -⟩ := hd.removes hl
    exact clientRequestedDelete_fails (lookup_of_locked hl) hrun
  · have hl : LockedOnClient pageHost.1 (txt "draft") ownerOfDraft :=
      ⟨⟨_, hcontent⟩, Option.some_ne_none _, hremovable⟩
    obtain ⟨told, w', hrun, -⟩ := hd.removes hl
    cases (requestDeleteTold_inv hrun).missing.symm.trans (FileSystem.lookup_of_content hcontent)

end SyncWizard.Properties
