import SyncWizard.Properties.ChunkHandlers
import SyncWizard.Properties.KeptCopy

/-! How the end of a transfer tells whether the temporary has been moved over the file. `std::rename`
gives `0` when it has, and `rename_replacing` raises for a `0`. -/

namespace SyncWizard.Properties
open Foundation Common

structure Renamed (path : Text) (draft : Option Text) (f f' : FileSystem) : Prop where
  there : draft ≠ none
  tried : (⟨.rename, path ++ temporarySuffix⟩ : Access) ∈ f'.accesses.drop f.accesses.length
  gone : f'.lookup (path ++ temporarySuffix) = none

/-- An exception stands for a renaming that failed, and a return for one that did not. `draft` is what
there is in the temporary by then. -/
structure ReportsRename {σ : Type} (files : σ → FileSystem) (path : Text) (draft : Option Text) (w : σ)
    (r : EStateM.Result (Fault Text Crash) σ Unit) : Prop where
  raised : (∃ what w', r = .error (.raised what) w') ↔ ¬ Renamed path draft (files w) (files (final r))
  returned : ∀ w', r = .ok () w' → draft ≠ none ∧ (files w').content path = draft ∧
    (files w').lookup (path ++ temporarySuffix) = none
  kept : ∀ what w', r = .error (.raised what) w' → (files w').content path = (files w).content path

def RaisesBefore (h : Host) (k : Receiver) (args : Text) (w : (k.handler h).State) : Prop :=
  let temporary := (k.handler h).directory w ++ args ++ temporarySuffix
  (∀ p, ¬ FileSystem.Opens h ((k.handler h).files w) temporary p) ∨
    (k.handler h).lock w args = none ∨
    (k.handler h).lock w args = some .live ∧ h.mayDigest temporary = false

section Outcomes
variable {σ : Type} {files : σ → FileSystem} {path : Text} {draft : Option Text} {w w' : σ}

theorem reports_ok : ReportsRename files path draft w (.ok () w') ↔
    Renamed path draft (files w) (files w') ∧ (files w').content path = draft := by
  constructor
  · rintro ⟨hraised, hreturned, -⟩
    obtain ⟨-, hcontent, -⟩ := hreturned w' rfl
    refine ⟨not_not.mp fun hno => ?_, hcontent⟩
    obtain ⟨what, w'', hr⟩ := hraised.mpr hno
    cases hr
  · rintro ⟨hrenamed, hcontent⟩
    refine ⟨iff_of_false ?_ (not_not.mpr hrenamed), fun w'' hr => ?_, fun what w'' hr => ?_⟩
    · rintro ⟨what, w'', hr⟩
      cases hr
    · cases hr
      exact ⟨hrenamed.there, hcontent, hrenamed.gone⟩
    · cases hr

theorem reports_raised {what : Text} : ReportsRename files path draft w (.error (.raised what) w') ↔
    ¬ Renamed path draft (files w) (files w') ∧ (files w').content path = (files w).content path := by
  constructor
  · rintro ⟨hraised, -, hkept⟩
    exact ⟨hraised.mp ⟨what, w', rfl⟩, hkept what w' rfl⟩
  · rintro ⟨hno, hcontent⟩
    refine ⟨iff_of_true ⟨what, w', rfl⟩ hno, fun w'' hr => ?_, fun what' w'' hr => ?_⟩
    · cases hr
    · cases hr
      exact hcontent

theorem reports_crashed {c : Crash} : ReportsRename files path draft w (.error (.crashed c) w') ↔
    Renamed path draft (files w) (files w') := by
  constructor
  · rintro ⟨hraised, -, -⟩
    refine not_not.mp fun hno => ?_
    obtain ⟨what, w'', hr⟩ := hraised.mpr hno
    cases hr
  · intro hrenamed
    refine ⟨iff_of_false ?_ (not_not.mpr hrenamed), fun w'' hr => ?_, fun what w'' hr => ?_⟩
    · rintro ⟨what, w'', hr⟩
      cases hr
    · cases hr
    · cases hr

theorem append_ne_rename (name : Text) : (⟨.append, name⟩ : Access).kind ≠ .rename := by
  intro he
  cases he

theorem read_ne_rename (name : Text) : (⟨.read, name⟩ : Access).kind ≠ .rename := by
  intro he
  cases he

theorem not_renamed {f f' : FileSystem} {log : List Access} (hlog : f'.accesses = f.accesses ++ log)
    (hno : ∀ a ∈ log, a.kind ≠ .rename) : ¬ Renamed path draft f f' := by
  intro hrenamed
  have htried := hrenamed.tried
  rw [hlog, List.drop_left] at htried
  exact hno _ htried rfl

end Outcomes

/-! ## On the files -/

section Files
variable {h : Host} {f g : FileSystem} {path text : Text} {p : Path}

theorem completeFile_undigested (hc : f.content (path ++ temporarySuffix) = some text)
    (hd : h.mayDigest (path ++ temporarySuffix) = false) :
    ∃ what, completeFile h path f =
      .error (.raised what) (f.record .read (path ++ temporarySuffix)) := by
  have hdigest : ∃ what, calculateMd5Checksum h (path ++ temporarySuffix) f =
      .error (.raised what) (f.record .read (path ++ temporarySuffix)) := by
    rw [calculateMd5Checksum, hc]
    exact ⟨_, if_neg (by rw [hd]; exact Bool.false_ne_true)⟩
  obtain ⟨what, hwhat⟩ := hdigest
  exact ⟨what, run_bind_error hwhat _⟩

theorem completeFile_digested (hc : f.content (path ++ temporarySuffix) = some text)
    (hd : h.mayDigest (path ++ temporarySuffix) = true) :
    completeFile h path f = renameReplacing h (path ++ temporarySuffix) path
      (f.record .read (path ++ temporarySuffix)) :=
  run_bind_ok (FileSystem.calculateMd5Checksum_run hc hd) _

theorem renameReplacing_misreports {f₀ : FileSystem} {draft : Option Text} (hn : nul ∉ path)
    (hlog : f₀.accesses.length ≤ f.accesses.length)
    (hdraft : f.content (path ++ temporarySuffix) = draft) :
    ¬ ReportsRename id path draft f₀ (renameReplacing h (path ++ temporarySuffix) path f) := by
  intro hreports
  by_cases hmoves : ∃ p q c, f.locate (path ++ temporarySuffix) = some p ∧
    f.node p = some (.file c) ∧ FileSystem.Renames h f (path ++ temporarySuffix) path q
  · obtain ⟨p, q, c, hp, hc, hr⟩ := hmoves
    obtain ⟨what, g, hrun, hcwd, hacc, hnode⟩ := FileSystem.renameReplacing_moves hp hc hr
    have hqp := FileSystem.temporary_ne hn hp hr.located
    have hlocate := FileSystem.moved_locate (hc ▸ FileSystem.file_ne_directory c)
        hr.noDirectory hcwd hnode
    have hrenamed : Renamed path draft f₀ g := by
      refine ⟨?_, ?_, ?_⟩
      · rw [← hdraft, FileSystem.content_of_node hp hc]
        exact Option.some_ne_none c
      · rw [hacc, List.drop_append_of_le_length hlog]
        exact List.mem_append_right _ List.mem_cons_self
      · rw [FileSystem.lookup, hlocate, hp, Option.bind_some, hnode, Function.update_of_ne hqp.symm,
          Function.update_self]
    rw [hrun] at hreports
    exact hreports.raised.mp ⟨what, g, rfl⟩ hrenamed
  · have hstays : renameReplacing h (path ++ temporarySuffix) path f = _ :=
      FileSystem.renameReplacing_unmoved fun p q c hp hc hr => hmoves ⟨p, q, c, hp, hc, hr⟩
    rw [hstays] at hreports
    obtain ⟨hthere, -, hgone⟩ := hreports.returned _ rfl
    rw [← hdraft, FileSystem.content] at hthere
    refine hthere ?_
    rw [show f.lookup (path ++ temporarySuffix) = none from hgone]

theorem completeFile_reports (hn : nul ∉ path)
    (hacc : g.accesses = f.accesses ++ [⟨.append, path ++ temporarySuffix⟩])
    (hbeside : g.content path = f.content path)
    (hdraft : g.content (path ++ temporarySuffix) = some text) :
    ReportsRename id path (some text) f (completeFile h path g) ↔
      h.mayDigest (path ++ temporarySuffix) = false := by
  have hlog : (g.record .read (path ++ temporarySuffix)).accesses =
      f.accesses ++ [⟨.append, path ++ temporarySuffix⟩, ⟨.read, path ++ temporarySuffix⟩] := by
    rw [FileSystem.record, hacc, List.append_assoc]
    rfl
  cases hdigest : h.mayDigest (path ++ temporarySuffix) with
  | false =>
    obtain ⟨what, hraises⟩ := completeFile_undigested hdraft hdigest
    rw [hraises]
    refine iff_of_true (reports_raised.mpr ⟨not_renamed hlog fun a ha => ?_, hbeside⟩) rfl
    rcases List.mem_pair.mp ha with rfl | rfl
    · exact append_ne_rename _
    · exact read_ne_rename _
  | true =>
    rw [completeFile_digested hdraft hdigest]
    refine iff_of_false (renameReplacing_misreports hn ?_ hdraft) Bool.true_eq_false.mp
    rw [hlog, List.length_append]
    exact Nat.le_add_right _ _

theorem contentAt_eq (ho : FileSystem.Opens h f path p) : f.contentAt p = (f.content path).getD [] := by
  rw [FileSystem.contentAt, FileSystem.content, FileSystem.lookup, ho.located, Option.bind_some]
  cases hnode : f.node p with
  | none => rfl
  | some node =>
    cases node with
    | file c => rfl
    | directory => rfl

end Files

/-! ## The handlers -/

section Handlers
variable {h : Host} (k : Receiver) {args checksum path : Text} {draft : Option Text} {buffer : Packet}

theorem reports_zoom (q : Exec FileSystem Unit) (w w₁ : (k.handler h).State) :
    ReportsRename (k.handler h).files path draft w
        (zoom (k.handler h).files (k.handler h).withFiles q w₁) ↔
      ReportsRename id path draft ((k.handler h).files w) (q ((k.handler h).files w₁)) := by
  rw [run_zoom]
  cases q ((k.handler h).files w₁) with
  | ok u f =>
    dsimp only
    rw [reports_ok, reports_ok, handler_files]
    rfl
  | error e f =>
    cases e with
    | raised what =>
      dsimp only
      rw [reports_raised, reports_raised, handler_files]
      rfl
    | crashed c =>
      dsimp only
      rw [reports_crashed, reports_crashed, handler_files]
      rfl

theorem finish_reports {w : (k.handler h).State} {g : FileSystem} {text : Text}
    (hp : path = (k.handler h).directory w ++ args) (hn : nul ∉ path)
    (hacc : g.accesses = ((k.handler h).files w).accesses ++ [⟨.append, path ++ temporarySuffix⟩])
    (hbeside : g.content path = ((k.handler h).files w).content path)
    (hdraft : g.content (path ++ temporarySuffix) = some text) :
    ReportsRename (k.handler h).files path (some text) w
        (k.finish h args path ((k.handler h).withFiles g w)) ↔
      (k.handler h).lock w args = none ∨
        (k.handler h).lock w args = some .live ∧ h.mayDigest (path ++ temporarySuffix) = false := by
  have hunrenamed : ¬ Renamed path (some text) ((k.handler h).files w) g :=
    not_renamed hacc fun a ha => List.mem_singleton.mp ha ▸ append_ne_rename _
  have hdir : path = (k.handler h).directory ((k.handler h).withFiles g w) ++ args := by
    rw [hp, handler_directory]
  have hlock := handler_lock k g w
  cases hentry : (k.handler h).lock w args with
  | none =>
    obtain ⟨what, hraises⟩ := finish_none k path (hlock ▸ hentry)
    rw [hraises]
    refine iff_of_true (reports_raised.mpr ⟨?_, ?_⟩) (.inl rfl)
    · rw [handler_files]
      exact hunrenamed
    · rw [handler_files]
      exact hbeside
  | some lock =>
    cases lock with
    | null =>
      rw [finish_null k path (hlock ▸ hentry), reports_crashed, handler_files]
      refine iff_of_false hunrenamed ?_
      rintro (hno | ⟨hno, -⟩)
      · cases hno
      · cases hno
    | live =>
      rw [finish_live k hdir (hlock ▸ hentry), reports_zoom, handler_files]
      refine (completeFile_reports hn hacc hbeside hdraft).trans ⟨fun hd => .inr ⟨rfl, hd⟩, ?_⟩
      rintro (hno | ⟨-, hd⟩)
      · cases hno
      · exact hd

theorem handler_reports_iff (hc : checksum ≠ txt "fail") (hb : buffer.Exact)
    (hlast : buffer.isLast = true)
    {w : (k.handler h).State} (hn : nul ∉ (k.handler h).directory w ++ args) :
    ReportsRename (k.handler h).files ((k.handler h).directory w ++ args)
        (some ((((k.handler h).files w).content
          ((k.handler h).directory w ++ args ++ temporarySuffix)).getD [] ++ buffer.bytes)) w
        ((k.handler h).call args checksum buffer w) ↔ RaisesBefore h k args w := by
  obtain ⟨refuse, hcall, hrefuse⟩ := handler_receiveIn k hc w
  rw [hcall]
  by_cases ho : ∃ p, FileSystem.Opens h ((k.handler h).files w)
    ((k.handler h).directory w ++ args ++ temporarySuffix) p
  · obtain ⟨p, ho⟩ := ho
    let complete := k.finish h args ((k.handler h).directory w ++ args)
    have hopened : ∃ g, receiveIn (k.handler h).files (k.handler h).withFiles h
        ((k.handler h).directory w ++ args) buffer refuse complete w =
          (if buffer.isLast then complete else pure () : Exec _ Unit)
            ((k.handler h).withFiles g w) ∧ _ :=
      receiveIn_opened (handler_files k) (handler_withFiles k) hb ho
    obtain ⟨g, hrun, hcwd, hacc, hnode⟩ := hopened
    have hbeside := FileSystem.content_beside hn ho hcwd hnode
    have hdraft := (ho.content hcwd hnode).2
    rw [contentAt_eq ho] at hdraft
    rw [hrun, if_pos hlast, RaisesBefore, finish_reports k rfl hn hacc hbeside hdraft]
    exact (or_iff_right fun hno => hno p ho).symm
  · have hno := not_exists.mp ho
    rw [receiveIn_unopened hno]
    obtain ⟨what, hraises⟩ := hrefuse ((k.handler h).withFiles (((k.handler h).files w).record .append
      ((k.handler h).directory w ++ args ++ temporarySuffix)) w)
    rw [hraises]
    refine iff_of_true (reports_raised.mpr ⟨?_, ?_⟩) (.inl hno)
    · rw [handler_files]
      exact not_renamed rfl fun a ha => List.mem_singleton.mp ha ▸ append_ne_rename _
    · rw [handler_files]
      rfl

end Handlers

/-! ## The end of an upload -/

namespace OfClient
open Client

section Ending
variable (h : Host) (args : Text) (w : ClientState)

def ComesToRename : Prop :=
  (⟨.rename, typedPath args w ++ temporarySuffix⟩ : Access) ∈
    (final (uploadRun h args w)).files.accesses.drop w.files.accesses.length

def uploadDraft : Option Text :=
  (final (openAppend h (typedPath args w ++ temporarySuffix) w.files)).content
    (typedPath args w ++ temporarySuffix)

end Ending

def Unrenamed (w w' : ClientState) : Prop := Touched (fun a => a.kind ≠ .rename) w.files w'.files

instance : Std.Refl Unrenamed := ⟨fun w => refl_of (Touched _) w.files⟩

instance : IsTrans ClientState Unrenamed := ⟨fun _ _ _ h h' => trans_of (Touched _) h h'⟩

def Tried (w w' : ClientState) : Prop :=
  ∃ a ∈ w'.files.accesses.drop w.files.accesses.length, a.kind = .rename

section Reaching
variable {h : Host} {args path filePath : Text} {w v v' : ClientState} {f g : FileSystem}

theorem Unrenamed.not_tried (hu : Unrenamed w v) : ¬ Tried w v := by
  obtain ⟨-, log, hlog, hno⟩ := hu
  rintro ⟨a, ha, hk⟩
  rw [hlog, List.drop_left] at ha
  exact hno a ha hk

theorem onFiles_unrenamed {α : Type} {q : Exec FileSystem α}
    (hq : Kept (Touched fun a => a.kind ≠ .rename) q) : Kept Unrenamed (onFiles q) :=
  fun w => by
    rw [onFiles, final_zoom]
    exact hq w.files

theorem tried_bind {α : Type} {p : ClientExec α} {k : α → ClientExec Unit} (hu : Unrenamed w v)
    (hp : Kept Unrenamed p) (ht : Tried w (final ((p >>= k) v))) :
    ∃ a t, p v = .ok a t ∧ Unrenamed w t ∧ (p >>= k) v = k a t := by
  have hkept := trans_of Unrenamed hu (hp v)
  cases hr : p v with
  | ok a t =>
    rw [hr, final_ok] at hkept
    exact ⟨a, t, rfl, hkept, run_bind_ok hr k⟩
  | error e t =>
    rw [hr, final_error] at hkept
    rw [run_bind_error hr, final_error] at ht
    exact absurd ht hkept.not_tried

theorem openAppend_same {t : Text} (hc : g.cwd = f.cwd) (hn : g.node = f.node) :
    (final (openAppend h t g)).cwd = (final (openAppend h t f)).cwd ∧
      (final (openAppend h t g)).node = (final (openAppend h t f)).node := by
  have hlocate := FileSystem.locate_of_node hc hn
  have hopens (p : Path) : FileSystem.Opens h g t p ↔ FileSystem.Opens h f t p :=
    ⟨fun ⟨hl, ha, hd⟩ => ⟨by rw [← hlocate, hl], ha, by rw [← hn]; exact hd⟩,
      fun ⟨hl, ha, hd⟩ => ⟨by rw [hlocate, hl], ha, by rw [hn]; exact hd⟩⟩
  by_cases ho : ∃ p, FileSystem.Opens h f t p
  · obtain ⟨p, ho⟩ := ho
    obtain ⟨g', hg, hgcwd, -, hgnode⟩ := FileSystem.openAppend_opens ((hopens p).mpr ho)
    obtain ⟨f', hf, hfcwd, -, hfnode⟩ := FileSystem.openAppend_opens ho
    rw [hg, hf, final_ok, final_ok, hgcwd, hfcwd, hgnode, hfnode, FileSystem.contentAt,
      FileSystem.contentAt, hn]
    exact ⟨hc, rfl⟩
  · have hno := not_exists.mp ho
    rw [FileSystem.openAppend_refused hno, FileSystem.openAppend_refused fun p hp => hno p ((hopens p).mp hp)]
    exact ⟨hc, hn⟩

theorem content_same {t : Text} (hc : g.cwd = f.cwd) (hn : g.node = f.node) : g.content t = f.content t := by
  rw [FileSystem.content, FileSystem.content, FileSystem.lookup_of_node hc hn]

theorem lockFile_unrenamed (name : Text) : Kept Unrenamed (lockFile name) :=
  lockIn_kept fun w _ => refl_of (Touched _) w.files

theorem pushPacket_unrenamed (p : Packet) : Kept Unrenamed (pushPacket p) :=
  Kept.modify fun w => refl_of (Touched _) w.files

theorem copyTo_unrenamed (temporary : Option Path) (p : Packet) : Kept Unrenamed (copyTo temporary p) := by
  cases temporary with
  | none => exact Kept.pure _
  | some t => exact onFiles_unrenamed (streamWrite_kept _ _ _)

theorem emplaceLock_files (name : Text) : Kept (fun w w' : ClientState => w'.files = w.files)
    (emplaceLock name) := by
  intro w
  rw [emplaceLock, run_bind_ok (fileMutex_run name w)]
  cases w.fileMtx name <;> rfl

theorem uploadOpened_renames (checksum : Text) (file : Option Text) (temporary : Option Path)
    (hu : Unrenamed w v) (ht : Tried w (final (uploadOpened h filePath path checksum file temporary v))) :
    ∃ v', Unrenamed w v' ∧ v'.files = v.files ∧
      uploadOpened h filePath path checksum file temporary v =
        onFiles (renameReplacing h (path ++ temporarySuffix) path) v' := by
  cases file with
  | none => exact absurd ht hu.not_tried
  | some content =>
    rw [uploadOpened] at ht ⊢
    obtain ⟨_, v', hloop, hu', hrun⟩ := tried_bind hu
      (chunkLoop_kept (fun p _ => copyTo_unrenamed temporary p) (fun p _ => pushPacket_unrenamed p)
        content) ht
    obtain ⟨-, -, hpushed⟩ := chunkLoop_inv hloop
    have hcopied := copyTo_blank (chunk_blank (txt "upload|" ++ filePath ++ txt "|" ++ checksum) 0 0)
      temporary v
    have hpush := (run_bind_ok hcopied _).symm.trans hpushed
    cases hpush
    exact ⟨_, hu', rfl, hrun⟩

theorem uploadLocked_renames (hu : Unrenamed w v) (ht : Tried w (final (uploadLocked h filePath path v))) :
    ∃ v', Unrenamed w v' ∧ v'.files.content (path ++ temporarySuffix) =
        (final (openAppend h (path ++ temporarySuffix) v.files)).content (path ++ temporarySuffix) ∧
      uploadLocked h filePath path v =
        onFiles (renameReplacing h (path ++ temporarySuffix) path) v' := by
  rw [uploadLocked] at ht ⊢
  obtain ⟨_, v₁, hlocked, hu₁, hrun₁⟩ := tried_bind hu (lockFile_unrenamed filePath) ht
  obtain rfl := lockIn_inv hlocked
  rw [hrun₁] at ht ⊢
  have hmd5 : Kept Unrenamed (onFiles (calculateMd5Checksum h path)) :=
    onFiles_unrenamed (calculateMd5Checksum_kept (read_ne_rename path))
  obtain ⟨checksum, v₂, hdigest, hu₂, hrun₂⟩ := tried_bind hu₁ hmd5 ht
  obtain ⟨f₂, hdigested, rfl⟩ := run_zoom_inv hdigest
  obtain ⟨-, -, -, rfl⟩ := FileSystem.calculateMd5Checksum_inv hdigested
  rw [hrun₂] at ht ⊢
  have hopenRead : Kept Unrenamed (onFiles (openRead h path)) :=
    onFiles_unrenamed (openRead_kept (read_ne_rename path))
  obtain ⟨file, v₃, hread, hu₃, hrun₃⟩ := tried_bind hu₂ hopenRead ht
  obtain ⟨f₃, hopened, rfl⟩ := run_zoom_inv hread
  obtain ⟨-, rfl⟩ := FileSystem.openRead_inv hopened
  rw [hrun₃] at ht ⊢
  have hopenAppend : Kept Unrenamed (onFiles (openAppend h (path ++ temporarySuffix))) :=
    onFiles_unrenamed (openAppend_kept (append_ne_rename _))
  obtain ⟨temporary, v₄, happend, hu₄, hrun₄⟩ := tried_bind hu₃ hopenAppend ht
  obtain ⟨f₄, hopens, rfl⟩ := run_zoom_inv happend
  rw [hrun₄] at ht ⊢
  obtain ⟨v', hu', hfiles, hrun⟩ := uploadOpened_renames checksum file temporary hu₄ ht
  refine ⟨v', hu', ?_, hrun⟩
  have hsame := openAppend_same (h := h) (f := v₁.files) (t := path ++ temporarySuffix)
    (g := (v₁.files.record .read path).record .read path) rfl rfl
  have hfour : f₄ = final (openAppend h (path ++ temporarySuffix)
      ((v₁.files.record .read path).record .read path)) := by
    rw [show openAppend h (path ++ temporarySuffix) ((v₁.files.record .read path).record .read path) = _
      from hopens, final_ok]
  rw [hfiles]
  show f₄.content _ = _
  rw [hfour]
  exact content_same hsame.1 hsame.2

/-- Every upload that tries to rename comes to the renaming by way of the whole loop. -/
theorem upload_renames (ht : ComesToRename h args w) :
    ∃ v, Unrenamed w v ∧
      v.files.content (typedPath args w ++ temporarySuffix) = uploadDraft h args w ∧
      uploadRun h args w =
        onFiles (renameReplacing h (typedPath args w ++ temporarySuffix) (typedPath args w)) v := by
  have htried : Tried w (final (uploadRun h args w)) := ⟨_, ht, rfl⟩
  have hlocked {v : ClientState} (hu : Unrenamed w v) (hc : v.files.cwd = w.files.cwd)
      (hn : v.files.node = w.files.node)
      (ht : Tried w (final (uploadLocked h (unquoted args) (typedPath args w) v))) : ∃ v',
      Unrenamed w v' ∧ v'.files.content (typedPath args w ++ temporarySuffix) = uploadDraft h args w ∧
      uploadLocked h (unquoted args) (typedPath args w) v = onFiles
        (renameReplacing h (typedPath args w ++ temporarySuffix) (typedPath args w)) v' := by
    obtain ⟨v', hu', hdraft, hrun⟩ := uploadLocked_renames hu ht
    have hsame := openAppend_same (h := h) (t := typedPath args w ++ temporarySuffix) hc hn
    exact ⟨v', hu', hdraft.trans (content_same hsame.1 hsame.2), hrun⟩
  have hcommand : uploadRun h args w = (do
      if ← onFiles (isValidPath h (typedPath args w)) then uploadFound h args (typedPath args w)
      else pure () : ClientExec Unit) w := rfl
  have htest : Kept Unrenamed (onFiles (isValidPath h (typedPath args w))) :=
    onFiles_unrenamed (isValidPath_kept fun he => nomatch he)
  have hemplace : Kept Unrenamed (emplaceLock args) := fun v => by
    rw [Unrenamed, emplaceLock_files args v]
    exact refl_of (Touched _) v.files
  rw [hcommand] at htried ⊢
  obtain ⟨found, v, hfound, hu, hrun⟩ := tried_bind (refl_of Unrenamed w) htest htried
  obtain ⟨f, hvalid, rfl⟩ := run_zoom_inv hfound
  obtain rfl := FileSystem.isValidPath_inv hvalid
  rw [hrun] at htried ⊢
  cases found with
  | false => exact absurd htried hu.not_tried
  | true =>
    rw [if_pos rfl, uploadFound, run_bind_ok (fileMutex_run _ _)] at htried ⊢
    split_ifs at htried ⊢
    · obtain ⟨_, v', hadded, hu', hrun'⟩ := tried_bind hu hemplace htried
      have hfiles := emplaceLock_files args { w with files := w.files.record .test (typedPath args w) }
      rw [hadded, final_ok] at hfiles
      rw [hrun'] at htried ⊢
      exact hlocked hu' (by rw [hfiles]; rfl) (by rw [hfiles]; rfl) htried
    · exact hlocked hu rfl rfl htried

theorem upload_of_empty (hs : h.statError (typedPath args w) = none)
    (hc : w.files.content (typedPath args w) = some []) (hl : Lockable args w)
    (hd : h.mayDigest (typedPath args w) = true) (hr : h.mayRead (typedPath args w) = true)
    (hf : Packet.Fits (uploadText args (h.md5 []))) :
    ∃ v, uploadRun h args w =
      onFiles (renameReplacing h (typedPath args w ++ temporarySuffix) (typedPath args w)) v := by
  obtain ⟨w₁, hsame, hlive, hrun⟩ := upload_locked hc hs hl
  obtain ⟨temporary, g, happend⟩ : Returns (openAppend h (typedPath args w ++ temporarySuffix)
      ((w₁.files.record .read (typedPath args w)).record .read (typedPath args w))) :=
    FileSystem.openAppend_returns
  have hdigested := uploadLocked_digested hlive ((hsame.content _).trans hc) hd happend
  rw [hr, if_pos rfl] at hdigested
  exact ⟨_, hrun.trans (hdigested.trans (uploadOpened_empty h _ _ hf temporary))⟩

end Reaching

end OfClient

theorem upload_misreports (h : Host) {args : Text} {w : Client.ClientState}
    (hn : nul ∉ OfClient.typedPath args w) (ht : OfClient.ComesToRename h args w) :
    ¬ ReportsRename Client.ClientState.files (OfClient.typedPath args w) (OfClient.uploadDraft h args w) w
      (OfClient.uploadRun h args w) := by
  obtain ⟨v, ⟨-, log, hlog, -⟩, hdraft, hrun⟩ := OfClient.upload_renames ht
  rw [hrun]
  intro hreports
  have hfiles := (reports_zoom (h := h) .upload (renameReplacing h
    (OfClient.typedPath args w ++ temporarySuffix) (OfClient.typedPath args w)) w v).mp hreports
  refine renameReplacing_misreports hn ?_ hdraft hfiles
  show w.files.accesses.length ≤ v.files.accesses.length
  rw [hlog, List.length_append]
  exact Nat.le_add_right _ _

/-- A handler reports right only where it raises before it comes to the renaming, the end of an
upload never. -/
theorem renaming_reported_iff (h : Host) :
    (∀ (k : Receiver) (args checksum : Text) (buffer : Packet) (w : (k.handler h).State),
      checksum ≠ txt "fail" → buffer.Exact → buffer.isLast = true →
      nul ∉ (k.handler h).directory w ++ args →
      (ReportsRename (k.handler h).files ((k.handler h).directory w ++ args)
        (some ((((k.handler h).files w).content
          ((k.handler h).directory w ++ args ++ temporarySuffix)).getD [] ++ buffer.bytes)) w
        ((k.handler h).call args checksum buffer w) ↔ RaisesBefore h k args w)) ∧
      ∀ (args : Text) (w : Client.ClientState), nul ∉ OfClient.typedPath args w →
        OfClient.ComesToRename h args w →
        ¬ ReportsRename Client.ClientState.files (OfClient.typedPath args w)
          (OfClient.uploadDraft h args w) w (OfClient.uploadRun h args w) :=
  ⟨fun k _ _ _ _ hc hb hlast hn => handler_reports_iff k hc hb hlast hn,
    fun _ _ hn ht => upload_misreports h hn ht⟩

def diaryPacket : Packet :=
  { Packet.init with expectedPackets := 1, payloadSize := 1, payload := some [7] }

def diaryClient (lock : Option Lock) : Client.ClientState :=
  ⟨⟨3, 0, fun _ => [], fun _ => [], fun _ => true⟩,
    ⟨[], AList.singleton [⟨txt "sync_diary", by decide⟩] (.file [1, 2]), []⟩, txt "./sync_", txt "./",
    fun _ => lock, [], true, true, true⟩

/-- Without a mutex the handler raises, and the file is as it was; an empty file is replaced in spite of
the exception. -/
theorem lockless_diary_reported :
    ReportsRename Client.ClientState.files (txt "./sync_diary") (some [7]) (diaryClient none)
        (Client.serverUploadCommand pageHost.1 (txt "diary")
          (txt "digest") diaryPacket (diaryClient none)) ∧
      ¬ ReportsRename Client.ClientState.files (txt "./sync_notes")
        (OfClient.uploadDraft pageHost.1 (txt "notes") clientOfAna) clientOfAna
        (OfClient.uploadRun pageHost.1 (txt "notes") clientOfAna) := by
  obtain ⟨hhandlers, huploads⟩ := renaming_reported_iff pageHost.1
  refine ⟨?_, huploads (txt "notes") clientOfAna (by decide) ?_⟩
  · exact (hhandlers .upload (txt "diary") (txt "digest") diaryPacket (diaryClient none)
      (by decide) rfl (by decide) (by decide)).mpr (.inr (.inl rfl))
  · have hfits : Packet.Fits (OfClient.uploadText (txt "notes") (pageHost.1.md5 [])) := by decide
    obtain ⟨v, hrun⟩ := OfClient.upload_of_empty (h := pageHost.1) rfl
      (show clientOfAna.files.content (OfClient.typedPath (txt "notes") clientOfAna) = some [] by decide)
      (.inr ⟨rfl, by decide⟩) rfl rfl hfits
    show _ ∈ List.drop 0 _
    rw [hrun, Client.onFiles, final_zoom]
    show _ ∈ (final (renameReplacing _ _ _ _)).accesses
    rw [FileSystem.renameReplacing_accesses]
    exact List.mem_append_right _ List.mem_cons_self

theorem replaced_diary_misreported :
    ¬ ∀ (h : Host) (k : Receiver) (args checksum : Text) (buffer : Packet) (w : (k.handler h).State),
      checksum ≠ txt "fail" → buffer.Exact → buffer.isLast = true →
      nul ∉ (k.handler h).directory w ++ args →
      ReportsRename (k.handler h).files ((k.handler h).directory w ++ args)
        (some ((((k.handler h).files w).content
          ((k.handler h).directory w ++ args ++ temporarySuffix)).getD [] ++ buffer.bytes)) w
        ((k.handler h).call args checksum buffer w) := by
  intro hall
  have hdigest : txt "digest" ≠ txt "fail" := by decide
  have hexact : diaryPacket.Exact := rfl
  have hlast : diaryPacket.isLast = true := by decide
  have hreports := hall pageHost.1 .upload (txt "diary") (txt "digest") diaryPacket
    (diaryClient (some .live)) hdigest hexact hlast (by decide)
  have hbefore : RaisesBefore pageHost.1 .upload (txt "diary") (diaryClient (some .live)) :=
    (handler_reports_iff .upload hdigest hexact hlast (by decide)).mp hreports
  rcases hbefore with hno | hno | ⟨-, hno⟩
  · exact hno [⟨txt "sync_diary.swizdownload", by decide⟩] ⟨by decide, rfl, by decide⟩
  · cases hno
  · cases hno

end SyncWizard.Properties
