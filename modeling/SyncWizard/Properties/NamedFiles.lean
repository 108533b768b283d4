import SyncWizard.Client.Effects
import SyncWizard.Client.Program
import SyncWizard.Properties.EndedPrograms
import SyncWizard.Properties.KeptCopy

/-! What a client does to the files of its machine, from its start to its end. Whatever is typed, it writes,
replaces and deletes only what its user has named, and leftovers of earlier transfers. -/

namespace SyncWizard.Properties
open Foundation Common Client

/-- The folder that a client was given, or the one that `get sync dir` puts in the place of none. -/
def FolderOf (given : Text) (d : Text) : Prop := d = given ∨ given = [] ∧ d = txt "./sync dir"

def Leftover (path : Text) : Prop :=
  ∃ directory name, path = entryPath directory name ∧ extension name.1 = temporarySuffix

def Asks (folder : Text → Prop) (words : List Text) (a : Access) : Prop :=
  match a.kind with
  | .test | .list => True
  | .create => False
  | .read => ∃ d args, folder d ∧ words = [txt "upload", args] ∧ a.path = d ++ args
  | .append => ∃ d args, folder d ∧ words = [txt "upload", args] ∧ a.path = d ++ args ++ temporarySuffix
  | .rename => ∃ d args, folder d ∧ words = [txt "upload", args] ∧
      (a.path = d ++ args ∨ a.path = d ++ args ++ temporarySuffix)
  | .delete => (∃ d args, folder d ∧ words = [txt "delete", args] ∧ a.path = d ++ unquoted args) ∨
      (words = [txt "exit"] ∨ words = [txt "get", txt "sync", txt "dir"]) ∧ Leftover a.path

def Serves (folder : Text → Prop) (words : List Text) (w w' : ClientState) : Prop :=
  folder w.syncDirPath → folder w'.syncDirPath ∧ Touched (Asks folder words) w.files w'.files

section Commands
variable {folder : Text → Prop} {words : List Text} {h : Host} {w : ClientState}

instance : Std.Refl (Serves folder words) := ⟨fun w hd => ⟨hd, refl_of _ w.files⟩⟩

instance : IsTrans ClientState (Serves folder words) := ⟨fun _ _ _ h₁ h₂ hd => by
  obtain ⟨hd₁, ht₁⟩ := h₁ hd
  obtain ⟨hd₂, ht₂⟩ := h₂ hd₁
  exact ⟨hd₂, trans_of _ ht₁ ht₂⟩⟩

theorem serves_of {w' : ClientState} (hfolder : w'.syncDirPath = w.syncDirPath)
    (hfiles : w'.files = w.files) :
    Serves folder words w w' :=
  fun hd => ⟨hfolder.symm ▸ hd, hfiles.symm ▸ refl_of _ w.files⟩

theorem onFiles_serves {α : Type} {p : Exec FileSystem α} (hp : Kept (Touched (Asks folder words)) p) :
    Kept (Serves folder words) (Client.onFiles p) :=
  Kept.zoom hp fun _ _ ht hd => ⟨hd, ht⟩

theorem onNet_serves {α : Type} (p : Exec ConnectionManager α) :
    Kept (Serves folder words) (Client.onNet p) := by
  intro w
  unfold Client.onNet zoom
  cases p w.net <;> exact serves_of rfl rfl

theorem serves_in_folder {α : Type} {f : ClientState → ClientExec α}
    (hf : ∀ w, folder w.syncDirPath → Kept (Serves folder words) (f w)) :
    Kept (Serves folder words) (get >>= f) :=
  fun w hd => hf w hd w hd

theorem answer_serves (command : Text) : Kept (Serves folder words) (Client.answer command) :=
  Packet.mount_kept fun _ _ => Kept.modify fun _ => serves_of rfl rfl

theorem fileMutex_serves (name : Text) : Kept (Serves folder words) (Client.fileMutex name) :=
  Kept.bind Kept.get fun _ => Kept.pure _

theorem lockFile_serves (name : Text) : Kept (Serves folder words) (Client.lockFile name) :=
  lockIn_kept fun _ _ => serves_of rfl rfl

theorem setLock_serves (name : Text) (l : Option Lock) :
    Kept (Serves folder words) (modify fun w => w.setLock name l : ClientExec Unit) :=
  Kept.modify fun _ => serves_of rfl rfl

theorem test_serves (path : Text) : Kept (Serves folder words) (Client.onFiles (isValidPath h path)) :=
  onFiles_serves (isValidPath_kept trivial)

/-! ## The commands with a file -/

theorem requestDelete_serves (args : Text) :
    Kept (Serves folder [txt "delete", args]) (requestDelete h args) := by
  refine Kept.bind (answer_serves _) fun _ => serves_in_folder fun w hd => ?_
  refine Kept.bind (test_serves _) fun found => ?_
  split_ifs
  · refine Kept.bind (fileMutex_serves _) fun lock => ?_
    cases lock with
    | some l => exact Kept.raise _
    | none =>
      refine Kept.bind (lockFile_serves _) fun _ =>
        Kept.bind (onFiles_serves (deleteFile_kept ?_)) fun _ => ?_
      · exact .inl ⟨w.syncDirPath, args, hd, rfl, rfl⟩
      · refine Kept.bind (fileMutex_serves _) fun lock => ?_
        cases lock with
        | some l => exact setLock_serves _ _
        | none => exact Kept.raise _
  · exact Kept.pure _

theorem uploadOpened_serves {args : Text} {d : Text} (hd : folder d) (filePath checksum : Text)
    (file : Option Text) (temporary : Option Path) : Kept (Serves folder [txt "upload", args])
      (OfClient.uploadOpened h filePath (d ++ args) checksum file temporary) := by
  cases file with
  | none => exact Kept.pure _
  | some content =>
    refine Kept.bind (chunkLoop_kept (fun p _ => ?_) (fun p _ => ?_) content) fun _ => ?_
    · cases temporary with
      | none => exact Kept.pure _
      | some t => exact onFiles_serves (streamWrite_kept _ _ _)
    · exact Kept.modify fun _ => serves_of rfl rfl
    · exact onFiles_serves (renameReplacing_kept ⟨d, args, hd, rfl, .inr rfl⟩ ⟨d, args, hd, rfl, .inl rfl⟩)

theorem uploadLocked_serves {args : Text} {d : Text} (hd : folder d) (filePath : Text) :
    Kept (Serves folder [txt "upload", args]) (uploadLocked h filePath (d ++ args)) := by
  have hread : Asks folder [txt "upload", args] ⟨.read, d ++ args⟩ := ⟨d, args, hd, rfl, rfl⟩
  refine Kept.bind (lockFile_serves _) fun _ =>
    Kept.bind (onFiles_serves (calculateMd5Checksum_kept hread)) fun checksum => ?_
  refine Kept.bind (onFiles_serves (openRead_kept hread)) fun file =>
    Kept.bind (onFiles_serves (openAppend_kept ⟨d, args, hd, rfl, rfl⟩)) fun temporary => ?_
  exact uploadOpened_serves hd filePath checksum file temporary

theorem uploadCommand_serves (args : Text) :
    Kept (Serves folder [txt "upload", args]) (uploadCommand h args) := by
  refine serves_in_folder fun w hd => Kept.bind (test_serves _) fun found => ?_
  have hsend : Kept (Serves folder [txt "upload", args]) (uploadLocked h (unquoted args) (_ ++ args)) :=
    uploadLocked_serves hd (unquoted args)
  have hemplace : Kept (Serves folder [txt "upload", args]) (emplaceLock args) := by
    refine Kept.bind (fileMutex_serves args) fun lock => ?_
    cases lock with
    | some l => exact Kept.pure _
    | none => exact setLock_serves _ _
  split_ifs
  · refine Kept.bind (fileMutex_serves _) fun lock => ?_
    split_ifs
    exacts [Kept.bind hemplace fun _ => hsend, hsend]
  · exact Kept.pure _

theorem listCommand_serves (args : Text) : Kept (Serves folder words) (listCommand h args) := by
  unfold listCommand
  by_cases hserver : args = txt "server"
  · rw [if_pos hserver]
    exact answer_serves _
  rw [if_neg hserver]
  by_cases hclient : args = txt "client"
  · rw [if_pos hclient]
    exact Kept.bind Kept.get fun w => Kept.bind (onFiles_serves (listFolder_kept fun _ => trivial)) fun _ =>
      Kept.pure _
  · rw [if_neg hclient]
    exact Kept.pure _

/-! ## The commands that clean up -/

section Cleaning
variable {S : Access → Prop} (htest : ∀ path, S ⟨.test, path⟩) (hlist : ∀ path, S ⟨.list, path⟩)
  (hdelete : ∀ path, Leftover path → S ⟨.delete, path⟩)
include htest

theorem status_kept (path : Text) : Kept (Touched S) (status h path) := by
  intro f
  unfold status
  split <;> exact touched_record f (htest path)

theorem isRegularFile_kept (path : Text) : Kept (Touched S) (isRegularFile h path) := by
  refine Kept.bind (status_kept htest path) fun found => ?_
  split <;> exact Kept.pure _

theorem isDirectory_kept (path : Text) : Kept (Touched S) (Client.isDirectory h path) := by
  refine Kept.bind (status_kept htest path) fun found => ?_
  split <;> exact Kept.pure _

include hdelete

theorem cleanEntry_kept {clean : Text → Exec FileSystem ℤ} (hclean : ∀ path, Kept (Touched S) (clean path))
    (directory : Text) (name : Name) (deletedFiles : ℤ) :
    Kept (Touched S) (cleanEntry h clean directory name deletedFiles) := by
  refine Kept.bind (isRegularFile_kept htest _) fun regular => ?_
  by_cases hleft : (regular && extension name.1 = temporarySuffix) = true
  · simp only [hleft, if_true]
    have hname : extension name.1 = temporarySuffix := by simpa using (Bool.and_eq_true_iff.mp hleft).2
    refine Kept.bind (fun f => ?_) fun _ => Kept.pure _
    have hrecord : S ⟨.delete, entryPath directory name⟩ := hdelete _ ⟨directory, name, rfl, hname⟩
    unfold removeFile
    split
    · split_ifs <;> exact touched_record f hrecord
    · exact touched_record f hrecord
  · simp only [hleft]
    refine Kept.bind (isDirectory_kept htest _) fun below => ?_
    split_ifs
    · exact Kept.bind (hclean _) fun _ => Kept.pure _
    · exact Kept.pure _

include hlist

theorem cleanWithin_kept (depth : ℕ) (directory : Text) :
    Kept (Touched S) (cleanWithin h depth directory) := by
  induction depth generalizing directory with
  | zero => exact Kept.crash _
  | succ depth ih =>
    have hentries (entries : List (Name × Node)) (deletedFiles : ℤ) :
        Kept (Touched S) (cleanEntries h (cleanWithin h depth) directory entries deletedFiles) := by
      induction entries generalizing deletedFiles with
      | nil => exact Kept.pure _
      | cons entry entries ih' =>
        exact Kept.bind (cleanEntry_kept htest hdelete ih _ _ _) fun deletedFiles => ih' deletedFiles
    refine Kept.bind (isDirectory_kept htest _) fun found => ?_
    split_ifs
    · refine Kept.bind (isValidPath_kept (htest _)) fun valid => ?_
      split_ifs
      · refine Kept.bind (listDirectory_kept (hlist _)) fun entries => ?_
        split
        exacts [hentries _ _, Kept.raise _]
      · exact Kept.pure _
    · exact Kept.pure _

end Cleaning

theorem clean_serves (hwords : words = [txt "exit"] ∨ words = [txt "get", txt "sync", txt "dir"])
    (directory : Text) : Kept (Serves folder words) (deleteTemporaryDownloadFiles h directory) :=
  Kept.bind Kept.get fun _ => onFiles_serves (cleanWithin_kept (fun _ => trivial) (fun _ => trivial)
    (fun _ hleft => .inr ⟨hwords, hleft⟩) _ _)

theorem prepareDirectories_serves (hdefault : folder [] → folder (txt "./sync dir")) :
    Kept (Serves folder [txt "get", txt "sync", txt "dir"]) (prepareDirectories h) := by
  have hnamed : Kept (Serves folder [txt "get", txt "sync", txt "dir"])
      (modify defaultDirectories : ClientExec Unit) := by
    refine Kept.modify fun w hd => ⟨?_, refl_of _ w.files⟩
    unfold defaultDirectories
    dsimp only
    split_ifs with hnone
    · exact hdefault (hnone ▸ hd)
    · exact hd
  refine Kept.bind hnamed fun _ => Kept.bind Kept.get fun w => ?_
  refine Kept.bind (test_serves _) fun found => raiseUnless_kept ?_
  refine Kept.bind (test_serves _) fun found => raiseUnless_kept ?_
  exact Kept.bind (clean_serves (.inr rfl) _) fun _ => Kept.bind (clean_serves (.inr rfl) _) fun _ =>
    Kept.pure _

end Commands

/-! ## Whole runs -/

def ServesSync (folder : Text → Prop) (words : List Text) (s s' : SyncState) : Prop :=
  Serves folder words s.client s'.client

section Runs
variable {given : Text} {folder : Text → Prop} {words : List Text}

instance : Std.Refl (ServesSync folder words) := ⟨fun s => refl_of (Serves folder words) s.client⟩

instance : IsTrans SyncState (ServesSync folder words) :=
  ⟨fun _ _ _ h₁ h₂ => trans_of (Serves folder words) h₁ h₂⟩

theorem servesSync_control (s : SyncState) (c : SyncControl) :
    ServesSync folder words s { s with control := c } := refl_of (Serves folder words) s.client

theorem onClient_serves {α : Type} {p : ClientExec α} (hp : Kept (Serves folder words) p) :
    Kept (ServesSync folder words) (Client.onClient p) := Kept.zoom hp fun _ _ hs => hs

theorem exitSync_serves (h : Host) (fuel : ℕ) (pending : PendingRead) :
    Kept (ServesSync folder [txt "exit"]) (exitSync h fuel pending) := by
  refine Kept.bind (onClient_serves ?_) fun _ => Kept.bind (stopIfRunning_kept servesSync_control _) fun _ =>
    onClient_serves (Kept.modify fun _ => serves_of rfl rfl)
  refine Kept.bind (Packet.setCommand_kept _ _) fun p => Kept.bind (Kept.modify fun _ => serves_of rfl rfl)
    fun _ => Kept.bind (onNet_serves _) fun _ => Kept.bind Kept.get fun w => ?_
  exact Kept.bind (clean_serves (.inl rfl) _) fun _ => Kept.pure _

theorem startSync_serves (h : Host) (calls : WatchCalls) (hdefault : folder [] → folder (txt "./sync dir")) :
    Kept (ServesSync folder [txt "get", txt "sync", txt "dir"]) (startSync h calls) := by
  refine Kept.bind Kept.get fun s => ?_
  split_ifs
  · exact Kept.bind (onClient_serves (prepareDirectories_serves hdefault)) fun _ =>
      Kept.bind (control_kept servesSync_control _) fun _ => startWatching_kept servesSync_control
  · exact Kept.pure _

theorem clientCommand_serves (c : CommandCalls) (words : List Text)
    (hdefault : folder [] → folder (txt "./sync dir")) :
    Kept (ServesSync folder words) (clientCommand c words) := by
  match words with
  | [] => exact onClient_serves (Kept.pure _)
  | [command] =>
    rw [clientCommand]
    split_ifs with hexit
    · exact hexit ▸ exitSync_serves _ _ _
    · refine onClient_serves ?_
      rw [processUserInterfaceCommands, if_neg hexit]
      split_ifs
      exacts [Kept.pure _, Kept.pure _]
  | [command, args] =>
    refine onClient_serves ?_
    rw [processUserInterfaceCommands]
    split_ifs with hdownload hupload hdelete hlist
    · exact answer_serves _
    · exact hupload ▸ uploadCommand_serves args
    · exact hdelete ▸ requestDelete_serves args
    · exact listCommand_serves args
    · exact Kept.pure _
  | [command, sync, dir] =>
    rw [clientCommand]
    split_ifs with hget
    · obtain ⟨rfl, rfl, rfl⟩ := hget
      exact startSync_serves _ _ hdefault
    · exact Kept.pure _
  | _ :: _ :: _ :: _ :: _ => exact onClient_serves (Kept.pure _)

def AskedFor (given : Text) (handled : List (List Text)) (a : Access) : Prop :=
  ∃ words ∈ handled, Asks (FolderOf given) words a

theorem Touched.mono {S S' : Access → Prop} {f f' : FileSystem} (h : Touched S f f')
    (hS : ∀ a, S a → S' a) : Touched S' f f' := by
  obtain ⟨hcwd, new, hnew, hall⟩ := h
  exact ⟨hcwd, new, hnew, fun a ha => hS a (hall a ha)⟩

theorem named_command {f : FileSystem} {handled : List (List Text)} {s : SyncState}
    (hfolder : FolderOf given s.client.syncDirPath) (ht : Touched (AskedFor given handled) f s.client.files)
    (c : CommandCalls) (words : List Text) :
    FolderOf given (final (clientCommand c words s)).client.syncDirPath ∧
      Touched (AskedFor given (handled ++ [words])) f (final (clientCommand c words s)).client.files := by
  have hdefault : FolderOf given [] → FolderOf given (txt "./sync dir") := by
    rintro (hnone | ⟨-, hno⟩)
    · exact .inr ⟨hnone.symm, rfl⟩
    · simp [txt] at hno
  obtain ⟨hfolder', hnew⟩ := clientCommand_serves c words hdefault s hfolder
  have hold : Touched (AskedFor given (handled ++ [words])) f s.client.files :=
    Touched.mono ht fun a ⟨ws, hmem, ha⟩ => ⟨ws, List.mem_append_left _ hmem, ha⟩
  refine ⟨hfolder', trans_of _ hold (Touched.mono hnew fun a ha => ⟨words, ?_, ha⟩)⟩
  exact List.mem_append_right _ (List.mem_singleton_self _)

theorem named_step {f : FileSystem} {q q' : Terminal SyncState} {e : TerminalEvent CommandCalls}
    (hq : FolderOf given q.app.client.syncDirPath ∧ Touched (AskedFor given q.handled) f q.app.client.files)
    (hs : terminalStep clientApplication e q = some q') :
    FolderOf given q'.app.client.syncDirPath ∧
      Touched (AskedFor given q'.handled) f q'.app.client.files := by
  obtain ⟨hfolder, htouched⟩ := hq
  have hmore : Touched (AskedFor given q'.handled) f q.app.client.files :=
    Touched.mono htouched fun a ⟨words, hmem, ha⟩ => ⟨words, (terminalStep_handled hs).mem hmem, ha⟩
  rcases terminalStep_app hs with ⟨k, v, rfl, -⟩ | ⟨k, rfl, happ⟩ | ⟨-, happ⟩
  · obtain ⟨-, v, app, hprocess, rfl⟩ := processes_inv hs
    have hrun := (process_inv hprocess).1
    have hcommand := named_command hfolder htouched k q.sanitizedCommands
    rwa [← hrun] at hcommand
  · have hsame : q'.app.client = q.app.client := elsewhere_client happ
    rw [hsame]
    exact ⟨hfolder, hmore⟩
  · rw [happ]
    exact ⟨hfolder, hmore⟩

end Runs

def memoName : Name := ⟨txt "memo", by decide⟩

def memoClient (content : Text) : SyncState :=
  { idleClient with client := { idleClient.client with
      files := ⟨[], AList.singleton [memoName] (.file content), []⟩, syncDirPath := txt "./" } }

def uploadTyped : List (TerminalEvent CommandCalls) :=
  List.replicate 7 .inputs ++ .types (txt "upload memo") :: (List.replicate 9 .inputs ++
    List.replicate 4 .mains)

def memoTyped (content : Text) : Terminal SyncState :=
  ⟨[], txt "upload memo", [txt "upload", txt "memo"], true, false, true, .test, .processing,
    memoClient content, [txt "upload memo"], [txt "upload memo"], []⟩

theorem uploadTyped_run (content : Text) :
    runSteps (terminalStep clientApplication) uploadTyped (Terminal.start [] (memoClient content)) =
      some (memoTyped content) := rfl

theorem memo_reads {content : Text} {w : ClientState}
    (hsame : OfClient.SameTree (memoClient content).client w) (hlive : w.fileMtx (txt "memo") = some .live) :
    ∃ temporary v, (⟨.read, txt "./memo"⟩ : Access) ∈ v.files.accesses ∧
      uploadLocked pageHost.1 (txt "memo") (txt "./memo") w = OfClient.uploadOpened pageHost.1 (txt "memo")
        (txt "./memo") (pageHost.1.md5 content) (some content) temporary v := by
  obtain ⟨temporary, g, happend⟩ : Returns (openAppend pageHost.1 (txt "./memo" ++ temporarySuffix)
      ((w.files.record .read (txt "./memo")).record .read (txt "./memo"))) := FileSystem.openAppend_returns
  have hgrown : Touched (fun _ => True) _ (final (openAppend pageHost.1 (txt "./memo" ++ temporarySuffix)
      ((w.files.record .read (txt "./memo")).record .read (txt "./memo")))) := openAppend_kept trivial _
  rw [happend] at hgrown
  obtain ⟨-, new, hnew, -⟩ := hgrown
  refine ⟨temporary, { w with files := g }, ?_, ?_⟩
  · show _ ∈ g.accesses
    rw [show g.accesses = _ from hnew]
    exact List.mem_append_left _ (List.mem_append_right _ List.mem_cons_self)
  · exact OfClient.uploadLocked_digested hlive ((hsame.content (txt "./memo")).trans rfl) rfl happend

theorem memo_opened (content : Text) : ∃ temporary v, (⟨.read, txt "./memo"⟩ : Access) ∈ v.files.accesses ∧
    uploadCommand pageHost.1 (txt "memo") (memoClient content).client = OfClient.uploadOpened pageHost.1
      (txt "memo") (txt "./memo") (pageHost.1.md5 content) (some content) temporary v := by
  have hc : (memoClient content).client.files.content (OfClient.typedPath (txt "memo")
      (memoClient content).client) = some content := rfl
  obtain ⟨w, hsame, hlive, hrun⟩ := OfClient.upload_locked hc (show pageHost.1.statError _ = none from rfl)
    (.inr ⟨rfl, by decide⟩)
  obtain ⟨temporary, v, hread, hopened⟩ := memo_reads hsame hlive
  exact ⟨temporary, v, hread, hrun.trans hopened⟩

theorem memo_uploads (content : Text) :
    clientCommand commandCalls (memoTyped content).sanitizedCommands (memoTyped content).app =
      Client.onClient (uploadCommand pageHost.1 (txt "memo")) (memoClient content) := rfl

theorem memo_replaced : ∃ o s,
    clientApplication.process commandCalls (memoTyped []).commandBuffer (memoTyped []).sanitizedCommands
        (memoTyped []).app = some (o, s) ∧
      [⟨.read, txt "./memo"⟩, ⟨.rename, txt "./memo"⟩] ⊆ s.client.files.accesses := by
  obtain ⟨temporary, v, hread, hopened⟩ := memo_opened []
  have hfits : Packet.Fits (txt "upload|" ++ txt "memo" ++ txt "|" ++ pageHost.1.md5 []) := by decide
  let rename := renameReplacing pageHost.1 (txt "./memo" ++ temporarySuffix) (txt "./memo")
  obtain ⟨v', haccesses, hopened'⟩ : ∃ v', v'.files.accesses = v.files.accesses ∧
      uploadCommand pageHost.1 (txt "memo") (memoClient []).client = Client.onFiles rename v' :=
    ⟨_, rfl, hopened.trans (OfClient.uploadOpened_empty _ _ _ hfits temporary)⟩
  have hgoesOn (how : Crash) (s : SyncState) : clientCommand commandCalls (memoTyped []).sanitizedCommands
      (memoTyped []).app ≠ .error (.crashed how) s := by
    have hupload : Sane how (fun _ => True)
        (uploadCommand pageHost.1 (txt "memo") (memoClient []).client) := by
      rw [hopened']
      exact Safe.zoom (renameReplacing_safe _) (fun _ _ _ => trivial) v' trivial
    rw [memo_uploads]
    exact (hupload.zoom (J := fun _ => True) fun _ => trivial).2 s
  obtain ⟨o, hprocess⟩ := process_of_uncrashed hgoesOn (memoTyped []).commandBuffer
  refine ⟨o, _, hprocess, ?_⟩
  rw [memo_uploads, Client.onClient, final_zoom, hopened', Client.onFiles, final_zoom]
  show _ ⊆ (final (rename v'.files)).accesses
  rw [FileSystem.renameReplacing_accesses, haccesses]
  intro a ha
  rcases List.mem_cons.mp ha with rfl | ha
  · exact List.mem_append_left _ hread
  · exact List.mem_append_right _ (List.mem_cons_of_mem _ ha)

theorem memo_hangs : ∃ s,
    clientCommand commandCalls (memoTyped [7]).sanitizedCommands (memoTyped [7]).app =
      .error (.crashed .hang) s ∧
      ⟨.read, txt "./memo"⟩ ∈ s.client.files.accesses := by
  obtain ⟨temporary, v, hread, hopened⟩ := memo_opened [7]
  have hfits : Packet.Fits (txt "upload|" ++ txt "memo" ++ txt "|" ++ pageHost.1.md5 [7]) := by decide
  obtain ⟨w, hhangs⟩ := OfClient.uploadOpened_nonempty pageHost.1 (txt "./memo") v hfits
    (List.cons_ne_nil 7 []) temporary
  have hserves : Serves (fun _ => True) [txt "upload", txt "memo"] v w := by
    have hkept : Serves (fun _ => True) [txt "upload", txt "memo"] v (final (OfClient.uploadOpened pageHost.1
        (txt "memo") (txt "./memo") (pageHost.1.md5 [7]) (some [7]) temporary v)) :=
      uploadOpened_serves (d := txt "./") trivial (txt "memo") (pageHost.1.md5 [7]) (some [7]) temporary v
    rwa [hhangs] at hkept
  obtain ⟨-, new, hnew, -⟩ := (hserves trivial).2
  refine ⟨_, (memo_uploads [7]).trans (run_zoom_error (hopened.trans hhangs)), ?_⟩
  show _ ∈ w.files.accesses
  rw [hnew]
  exact List.mem_append_left _ hread

end SyncWizard.Properties
