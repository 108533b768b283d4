import SyncWizard.Client.Effects
import SyncWizard.Client.Outcomes
import SyncWizard.Properties.DeletedFiles

/-! Deletions that the server orders. The client takes a file's name for a word of the protocol where
it is one. -/

namespace SyncWizard.Properties
open Foundation Common Client

section Orders
variable (h : Host) (name : Text) (p : Packet) (w : ClientState)

def syncedPath : Text := w.syncDirPath ++ name

structure Deletable : Prop where
  file : ∃ c, w.files.content (syncedPath name w) = some c
  lock : w.fileMtx name ≠ none
  tested : h.statError (syncedPath name w) = none
  removable : Removable h w.files (syncedPath name w)

structure DeletedAlone (w' : ClientState) : Prop where
  file : w'.files.lookup (syncedPath name w) = none
  otherFiles : ∀ q, w.files.locate (syncedPath name w) ≠ some q →
    w'.files.node q = w.files.node q
  locks : w'.fileMtx = w.fileMtx
  queue : w'.senderBuffer = w.senderBuffer

def handleOrder : ClientExec Unit := do
  let fields ← splitBuffer p.memory
  perform h p (receiverRoute fields)

def DeletesByOrder : Prop := ∃ w', handleOrder h p w = .ok () w' ∧ DeletedAlone name w w'

end Orders

section OrderRuns
variable {h : Host} {name : Text} {p : Packet} {w w' : ClientState}

theorem delete_fields (hbar : bar ∉ name) :
    splitScan [] (txt "delete|" ++ name) = [txt "delete", name] := by
  have hjoin : txt "delete|" ++ name = joinFields [txt "delete", name] := by
    rw [joinFields, List.intercalate_cons_cons, List.intercalate_singleton,
      show txt "delete|" = txt "delete" ++ [bar] by decide, List.append_assoc]
  have hfields : ∀ f ∈ [txt "delete", name], bar ∉ f :=
    List.forall_mem_cons.mpr ⟨by decide, List.forall_mem_singleton.mpr hbar⟩
  rw [hjoin, splitScan_join hfields (List.cons_ne_nil _ _)]

theorem handleOrder_run (hp : Packet.Reads (txt "delete|" ++ name) p) (hbar : bar ∉ name)
    (hnul : nul ∉ name) (w : ClientState) :
    handleOrder h p w = serverDeleteFileCommand h name p [] w := by
  have hcommand : nul ∉ txt "delete|" ++ name := by
    rw [List.mem_append, not_or]
    exact ⟨by decide, hnul⟩
  obtain ⟨hend, hfields⟩ := hp.fields hcommand
  rw [handleOrder, run_bind_ok (Packet.splitBuffer_terminated hend w), hfields, delete_fields hbar]
  rfl

theorem serverDeleteFileCommand_run (hd : Deletable h name w) :
    serverDeleteFileCommand h name p [] w =
      (if name = txt "fail" then
        if 0 < p.payloadSize.toNat then reportReason p else pure ()
      else attempt (deleteLocked h name (syncedPath name w)) fun what =>
        answerWith (txt "delete|" ++ name ++ txt "|fail") what)
      { w with files := w.files.record .test (syncedPath name w) } := by
  obtain ⟨c, hc⟩ := hd.file
  have hvalid : onFiles (isValidPath h (syncedPath name w)) w =
      .ok true { w with files := w.files.record .test (syncedPath name w) } :=
    run_zoom_ok (FileSystem.isValidPath_file hd.tested hc)
  rw [serverDeleteFileCommand, run_bind_ok (run_get w), if_neg (by decide)]
  exact run_bind_ok hvalid _

theorem mayRemove_of {f : FileSystem} {path : Text} (hr : Removable h f path) :
    h.mayRemove path = true := by
  obtain ⟨u, g, hrun⟩ := hr
  exact FileSystem.deleteFile_inv hrun

theorem reported_state :
    Kept Eq (if 0 < p.payloadSize.toNat then reportReason p else pure ()) := by
  split_ifs
  · exact reportReason_kept p
  · exact Kept.pure _

theorem deletable_lock (hd : Deletable h name w) :
    w.fileMtx name = some .live ∨ w.fileMtx name = some .null := by
  cases hl : w.fileMtx name with
  | none => exact absurd hl hd.lock
  | some lock =>
    cases lock with
    | null => exact .inr rfl
    | live => exact .inl rfl

theorem deletes_live (hd : Deletable h name w) (hf : name ≠ txt "fail")
    (hl : w.fileMtx name = some .live) :
    ∃ w', serverDeleteFileCommand h name p [] w = .ok () w' ∧ DeletedAlone name w w' := by
  obtain ⟨c, hc⟩ := hd.file
  obtain ⟨q, hq, hnode⟩ := Option.bind_eq_some_iff.mp (FileSystem.lookup_of_content hc)
  let tested : ClientState := { w with files := w.files.record .test (syncedPath name w) }
  have hdelete : onFiles (deleteFile h (syncedPath name w)) tested =
      .ok () { w with files := (tested.files.drop q).record .delete (syncedPath name w) } :=
    run_zoom_ok (FileSystem.deleteFile_run hq hnode (mayRemove_of hd.removable))
  have hlocked : deleteLocked h name (syncedPath name w) tested =
      .ok () { w with files := (tested.files.drop q).record .delete (syncedPath name w) } := by
    rw [deleteLocked, run_bind_ok (fileMutex_run name tested),
      show tested.fileMtx name = some .live from hl]
    dsimp only
    rw [run_bind_ok (lockFile_live (w := tested) hl)]
    exact hdelete
  obtain ⟨hgone, hothers⟩ := FileSystem.drop_alone hq hnode
  have hrun : serverDeleteFileCommand h name p [] w =
      .ok () { w with files := (tested.files.drop q).record .delete (syncedPath name w) } := by
    rw [serverDeleteFileCommand_run hd, if_neg hf]
    exact run_attempt_ok hlocked _
  exact ⟨_, hrun, hgone, hothers, rfl, rfl⟩

theorem not_deletes_fail (hd : Deletable h name w) (hf : name = txt "fail") :
    ¬ ∃ w', serverDeleteFileCommand h name p [] w = .ok () w' ∧ DeletedAlone name w w' := by
  rintro ⟨w', hrun, hgone⟩
  rw [serverDeleteFileCommand_run hd, if_pos hf] at hrun
  have hsame := reported_state (p := p) { w with files := w.files.record .test (syncedPath name w) }
  rw [hrun] at hsame
  obtain ⟨c, hc⟩ := hd.file
  have hthere : w'.files.lookup (syncedPath name w) = some (.file c) := by
    rw [← show _ = w' from hsame]
    exact FileSystem.lookup_of_content hc
  cases hthere.symm.trans hgone.file

theorem not_deletes_null (hd : Deletable h name w) (hf : name ≠ txt "fail")
    (hl : w.fileMtx name = some .null) :
    ¬ ∃ w', serverDeleteFileCommand h name p [] w = .ok () w' ∧ DeletedAlone name w w' := by
  rintro ⟨w', hrun, -⟩
  let tested : ClientState := { w with files := w.files.record .test (syncedPath name w) }
  have hlocked : deleteLocked h name (syncedPath name w) tested =
      .error (.crashed .nullLock) tested := by
    rw [deleteLocked, run_bind_ok (fileMutex_run name tested),
      show tested.fileMtx name = some .null from hl]
    dsimp only
    exact run_bind_error (lockIn_null (s := tested) hl) _
  rw [serverDeleteFileCommand_run hd, if_neg hf, run_attempt_crashed hlocked] at hrun
  cases hrun

end OrderRuns

/-- An order is carried out unless the file is called as the marker of a failure, or the entry for its
lock is a null pointer. -/
theorem order_obeyed_iff {h : Host} {name : Text} {p : Packet} {w : ClientState}
    (hp : Packet.Reads (txt "delete|" ++ name) p) (hbar : bar ∉ name) (hnul : nul ∉ name)
    (hd : Deletable h name w) :
    DeletesByOrder h name p w ↔ name ≠ txt "fail" ∧ w.fileMtx name ≠ some .null := by
  unfold DeletesByOrder
  rw [handleOrder_run hp hbar hnul]
  constructor
  · intro hdeletes
    have hf : name ≠ txt "fail" := fun hf => not_deletes_fail hd hf hdeletes
    exact ⟨hf, fun hl => not_deletes_null hd hf hl hdeletes⟩
  · rintro ⟨hf, hnull⟩
    exact deletes_live hd hf ((deletable_lock hd).resolve_right hnull)

def folderOf (name : Name) : ClientState :=
  ⟨⟨3, 0, fun _ => [], fun _ => [], fun _ => true⟩,
    ⟨[], AList.singleton [name] (.file [7]), []⟩, txt "./", txt "./",
    fun _ => some .live, [], true, true, true⟩

theorem folderOf_deletable {name : Name} {q : Path}
    (hq : (folderOf name).files.locate (syncedPath name.1 (folderOf name)) = some q)
    (hc : (folderOf name).files.node q = some (.file [7])) :
    Deletable pageHost.1 name.1 (folderOf name) where
  file := ⟨_, FileSystem.content_of_node hq hc⟩
  lock := Option.some_ne_none _
  tested := rfl
  removable := removable_of hq hc rfl

def leaflet : Name := ⟨txt "leaflet", by decide⟩

theorem leaflet_deleted : DeletesByOrder pageHost.1 leaflet.1
    (Packet.ofCommand (txt "delete|leaflet")) (folderOf leaflet) :=
  (order_obeyed_iff (Packet.ofCommand_carries (by decide)).toReads (by decide) (by decide)
    (folderOf_deletable (q := [leaflet]) (by decide) (by decide))).mpr ⟨by decide, by decide⟩

def failName : Name := ⟨txt "fail", by decide⟩

theorem fail_undeleted : Deletable pageHost.1 failName.1 (folderOf failName) ∧
    ¬ DeletesByOrder pageHost.1 failName.1 (Packet.ofCommand (txt "delete|fail"))
      (folderOf failName) := by
  have hd : Deletable pageHost.1 failName.1 (folderOf failName) :=
    folderOf_deletable (q := [failName]) (by decide) (by decide)
  have hp : Packet.Reads (txt "delete|" ++ failName.1) (Packet.ofCommand (txt "delete|fail")) :=
    (Packet.ofCommand_carries (by decide)).toReads
  refine ⟨hd, ?_⟩
  rintro ⟨w', hrun, hgone⟩
  rw [handleOrder_run hp (by decide) (by decide)] at hrun
  exact not_deletes_fail hd rfl ⟨w', hrun, hgone⟩

end SyncWizard.Properties
