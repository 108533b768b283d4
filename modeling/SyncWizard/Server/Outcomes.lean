import SyncWizard.Common.Storage
import SyncWizard.Server.Network

/-! How the handlers of a session end, and in which state, when what they ask of the files and of
the lock table is known beforehand. -/

namespace SyncWizard.Server
open Foundation Common

section Answers
variable {self : SessionId} {name command : Text} {w : ServerState}

theorem answer_run (hf : Packet.Fits command) (w : ServerState) :
    answer self command w =
      .ok () (w.push self (Packet.init.withCommand (Packet.commandArray command))) :=
        Packet.mount_run hf

theorem answerWith_nil (hf : Packet.Fits command) (w : ServerState) :
    Returns (answerWith self command [] w) := ⟨_, _, Packet.mountWith_nil hf⟩

theorem lockFile_live (hl : (w.session self).fileMtx name = some .live) :
    lockFile self name w = .ok () w := lockIn_live hl

theorem fileMutex_run (name : Text) (w : ServerState) :
    fileMutex self name w = .ok ((w.session self).fileMtx name) w := rfl

end Answers

section Listings
variable {h : Host} {me : Identity} {line : Text → Text → Text → Text} {w w' : ServerState}

variable (line) in
theorem listFiles_listable (hl : Listable h w.files me.directoryPath) :
    ∃ f, listFiles h me line w = .ok [] { w with files := f } := by
  obtain ⟨f, hf⟩ := listFolder_listable _ _ line hl
  exact ⟨f, onFiles_ok hf⟩

theorem listFiles_yields (hn : nul ∉ me.directoryPath) {output : Text}
    (hr : listFiles h me line w = .ok output w') : output = [] := by
  obtain ⟨f, hf⟩ := onFiles_inv hr
  exact listFolder_yields hn hf

end Listings

/-! ## Uploads to the server -/

section Uploads
variable {h : Host} {self : SessionId} {me : Identity} {args checksum : Text} {buffer : Packet}
variable {w : ServerState} {p q : Path} {c : Text}

theorem writePayload_run (hb : buffer.Exact) (hp : w.files.node p = some (.file c)) :
    ∃ f, writePayload p buffer w = .ok () { w with files := f } ∧ f.cwd = w.files.cwd ∧
      f.accesses = w.files.accesses ∧
      f.node = Function.update w.files.node p (some (.file (c ++ buffer.bytes))) := by
  obtain ⟨f, hf, hrest⟩ := FileSystem.streamWrite_exact hb hp
  exact ⟨f, onFiles_ok hf, hrest⟩

variable (h self me args) in
def finishUpload (buffer : Packet) : ServerExec Unit :=
  if buffer.isLast then completeTransfer h self me args else pure ()

variable (self buffer) in
theorem clientSentSdownload_unopened (hc : checksum ≠ txt "fail")
    (hno : ∀ p, ¬ FileSystem.Opens h w.files (me.directoryPath ++ args ++ temporarySuffix) p) :
    ∃ what, clientSentSdownload h self me args buffer checksum w =
      .error (.raised what)
        { w with files := w.files.record .append (me.directoryPath ++ args ++ temporarySuffix) } := by
  rw [clientSentSdownload, if_neg hc, run_bind_ok (onFiles_ok (FileSystem.openAppend_refused hno))]
  exact Packet.mountWith_raises (by decide)

variable (self) in
theorem clientSentSdownload_opened (hc : checksum ≠ txt "fail") (hb : buffer.Exact)
    (ho : FileSystem.Opens h w.files (me.directoryPath ++ args ++ temporarySuffix) p) :
    ∃ f, clientSentSdownload h self me args buffer checksum w =
        finishUpload h self me args buffer { w with files := f } ∧
      f.cwd = w.files.cwd ∧
      f.accesses = w.files.accesses ++ [⟨.append, me.directoryPath ++ args ++ temporarySuffix⟩] ∧
      f.node = Function.update w.files.node p (some (.file (w.files.contentAt p ++ buffer.bytes))) := by
  obtain ⟨g, hg, hcwd, hacc, hnode⟩ := FileSystem.openAppend_opens ho
  have hp : ({ w with files := g } : ServerState).files.node p =
      some (.file (w.files.contentAt p)) := by
    rw [hnode, Function.update_self]
  obtain ⟨f, hf, hcwd', hacc', hnode'⟩ := writePayload_run hb hp
  refine ⟨f, ?_, hcwd'.trans hcwd, hacc'.trans hacc, ?_⟩
  · rw [clientSentSdownload, if_neg hc, run_bind_ok (onFiles_ok hg)]
    exact run_bind_ok hf _
  · rw [hnode', hnode, Function.update_idem]

variable (h me) in
theorem completeTransfer_none (hm : (w.session self).fileMtx args = none) :
    ∃ what, completeTransfer h self me args w = .error (.raised what) w := by
  rw [completeTransfer, run_bind_ok (fileMutex_run args w), hm]
  exact ⟨_, rfl⟩

theorem completeTransfer_null (hm : (w.session self).fileMtx args = some .null) :
    completeTransfer h self me args w = .error (.crashed .nullLock) w := by
  have hlock : lockFile self args w = .error (.crashed .nullLock) w := lockIn_null hm
  rw [completeTransfer, run_bind_ok (fileMutex_run args w), hm]
  exact run_bind_error hlock _

theorem completeTransfer_live (hm : (w.session self).fileMtx args = some .live)
    (hc : w.files.content (me.directoryPath ++ args ++ temporarySuffix) = some c)
    (hd : h.mayDigest (me.directoryPath ++ args ++ temporarySuffix) = true) :
    completeTransfer h self me args w =
      onFiles (renameReplacing h (me.directoryPath ++ args ++ temporarySuffix)
        (me.directoryPath ++ args))
        { w with files := w.files.record .read (me.directoryPath ++ args ++ temporarySuffix) } := by
  have hdigest := FileSystem.calculateMd5Checksum_run (f := w.files) hc hd
  rw [completeTransfer, run_bind_ok (fileMutex_run args w), hm]
  exact (run_bind_ok (lockFile_live hm) _).trans (run_bind_ok (onFiles_ok hdigest) _)

theorem completeTransfer_undigested (hm : (w.session self).fileMtx args = some .live)
    (hd : h.mayDigest (me.directoryPath ++ args ++ temporarySuffix) = false) :
    ∃ what, completeTransfer h self me args w = .error (.raised what)
      { w with files := w.files.record .read (me.directoryPath ++ args ++ temporarySuffix) } := by
  have hdigest : ∃ what, calculateMd5Checksum h (me.directoryPath ++ args ++ temporarySuffix) w.files =
      .error (.raised what) (w.files.record .read (me.directoryPath ++ args ++ temporarySuffix)) := by
    unfold calculateMd5Checksum
    split
    · rw [hd]
      exact ⟨_, rfl⟩
    · exact ⟨_, rfl⟩
  obtain ⟨what, hwhat⟩ := hdigest
  refine ⟨what, ?_⟩
  rw [completeTransfer, run_bind_ok (fileMutex_run args w), hm]
  exact (run_bind_ok (lockFile_live hm) _).trans (run_bind_error (onFiles_error hwhat) _)

end Uploads

end SyncWizard.Server
