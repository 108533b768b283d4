import SyncWizard.Common.Chunks
import SyncWizard.Common.Listing
import SyncWizard.Common.Locks
import SyncWizard.Common.Receiving
import SyncWizard.Foundation.Safety

/-! What handlers call that has nothing to do with locks: the files, and the building of packets. -/

namespace SyncWizard.Common
open Foundation

section Files
variable {bad : Crash} {h : Host} {path : Text}

theorem isValidPath_safe : Safe bad (fun _ => True) (isValidPath h path) := by
  intro f _
  unfold isValidPath
  split
  · exact sane_raised trivial
  · exact sane_ok trivial

theorem openAppend_safe : Safe bad (fun _ => True) (openAppend h path) := by
  intro f _
  unfold openAppend
  split
  · exact sane_ok trivial
  · split_ifs
    · split <;> exact sane_ok trivial
    · exact sane_ok trivial

theorem streamWrite_safe (p : Path) (payload : Option Text) (size : ℕ) :
    Safe .nullLock (fun _ => True) (streamWrite p payload size) := by
  unfold streamWrite
  split
  · exact Safe.pure ()
  · split
    · split
      exacts [Safe.crash (by decide), Safe.pure ()]
    · split
      · exact Safe.crash (by decide)
      · intro f _
        unfold writeEnd
        split <;> exact sane_ok trivial

theorem calculateMd5Checksum_safe : Safe bad (fun _ => True) (calculateMd5Checksum h path) := by
  intro f _
  unfold calculateMd5Checksum
  split
  · split_ifs
    · exact sane_ok trivial
    · exact sane_raised trivial
  · exact sane_raised trivial

theorem openRead_safe : Safe bad (fun _ => True) (openRead h path) := fun _ _ => sane_ok trivial

theorem deleteFile_safe : Safe bad (fun _ => True) (deleteFile h path) := by
  intro f _
  unfold deleteFile
  split
  · dsimp only
    split_ifs
    · exact sane_ok trivial
    · exact sane_raised trivial
  · exact sane_raised trivial

theorem renameReplacing_safe (newPath : Text) :
    Safe bad (fun _ => True) (renameReplacing h path newPath) := by
  intro f _
  unfold renameReplacing
  split
  · exact sane_raised trivial
  · exact sane_ok trivial

theorem listFolder_safe (noFolder noListing : Text) (line : Text → Text → Text → Text) :
    Safe bad (fun _ => True) (listFolder h path noFolder noListing line) := by
  have hlist : Safe bad (fun _ => True) (listDirectory h path) := by
    intro f _
    unfold listDirectory
    split <;> exact sane_ok trivial
  have hentries : ∀ (entries : List (Name × Node)) (output : Text),
      Safe bad (fun _ => True) (listEntries path line entries output) := by
    intro entries
    induction entries with
    | nil => exact fun output => Safe.pure output
    | cons entry entries ih =>
      intro output
      obtain ⟨name, node⟩ := entry
      cases node with
      | file c =>
        refine Safe.bind (fun _ _ => sane_ok trivial) fun found => ?_
        split_ifs
        exacts [ih _, ih _]
      | directory => exact ih output
  have hrest {rest : Option (List (Name × Node)) → Exec FileSystem Text}
      (hnone : rest none = raise noListing)
      (hsome : ∀ entries, rest (some entries) = listEntries path line entries []) :
      Safe bad (fun _ => True) (listDirectory h path >>= rest) := by
    refine Safe.bind hlist fun second => ?_
    cases second with
    | none =>
      rw [hnone]
      exact Safe.raise _
    | some entries =>
      rw [hsome]
      exact hentries entries []
  refine Safe.bind hlist fun first => ?_
  cases first with
  | none => exact Safe.bind (Safe.raise _) fun _ => hrest rfl fun _ => rfl
  | some _ => exact hrest rfl fun _ => rfl

end Files

section Packets
variable {bad : Crash} {σ : Type} {I : σ → Prop} {push : Packet → Exec σ Unit}

theorem splitBuffer_safe (memory : Text) :
    Safe .nullLock I (splitBuffer memory : Exec σ (List Text)) := by
  unfold splitBuffer
  split_ifs
  exacts [Safe.pure _, Safe.crash (by decide)]

theorem splitPayload_safe (p : Packet) : Safe .nullLock I (splitPayload p : Exec σ (List Text)) := by
  unfold splitPayload
  split
  · exact Safe.crash (by decide)
  · exact splitBuffer_safe _

theorem charraystr_safe (array : Option Text) (size : ℕ) :
    Safe .nullLock I (charraystr array size : Exec σ Text) := by
  unfold charraystr
  split
  · split_ifs
    exacts [Safe.pure _, Safe.raise _]
  · split_ifs
    exacts [Safe.crash (by decide), Safe.pure _]

theorem setCommand_safe (p : Packet) (s : Text) :
    Safe bad I (p.setCommand s : Exec σ Packet) := by
  unfold Packet.setCommand
  split
  exacts [Safe.raise _, Safe.pure _]

theorem mount_safe (hpush : ∀ p, Safe bad I (push p)) (command : Text) :
    Safe bad I (Packet.mount push command) :=
  Safe.bind (setCommand_safe _ _) hpush

theorem mountWith_safe (hpush : ∀ p, Safe .nullLock I (push p)) (command payload : Text) :
    Safe .nullLock I (Packet.mountWith push command payload) := by
  refine Safe.bind (setCommand_safe _ _) fun p => Safe.bind ?_ hpush
  unfold Packet.setReason
  split
  · exact Safe.raise _
  · exact Safe.pure _
  · split
    · exact Safe.crash (by decide)
    · split_ifs
      exacts [Safe.crash (by decide), Safe.pure _]

theorem chunkLoop_safe (hbad : .hang ≠ bad) {copy : Packet → Exec σ Unit}
    (hcopy : ∀ p, Safe bad I (copy p))
    (hpush : ∀ p, Safe bad I (push p)) (command content : Text) :
    Safe bad I (chunkLoop command copy push content) := by
  have hrounds (expected : BitVec 64) (rounds : ℕ) : ∀ (index : BitVec 32) (file : FileStream),
      Safe bad I (chunkRounds command copy push expected rounds index file) := by
    induction rounds with
    | zero => exact fun _ _ => Safe.crash hbad
    | succ rounds ih =>
      intro index file s hs
      cases he : file.eof with
      | true =>
        rw [chunkRounds, if_pos he]
        exact sane_ok hs
      | false =>
        by_cases hf : Packet.Fits command
        · rw [chunkRounds_succ hf he]
          exact Safe.bind (hcopy _) (fun _ => Safe.bind (hpush _) fun _ => ih _ _) s hs
        · obtain ⟨what, hw⟩ : ∃ what, chunkRounds command copy push expected (rounds + 1) index file s =
              .error (.raised what) s := chunkRounds_long hf he rounds index s
          rw [hw]
          exact sane_raised hs
  exact hrounds _ _ _ _

end Packets

theorem receiveIn_safe {σ : Type} {I : σ → Prop} {view : σ → FileSystem} {put : FileSystem → σ → σ}
    {h : Host} {path : Text} {buffer : Packet} {refuse complete : Exec σ Unit}
    (hfiles : ∀ {α : Type} {p : Exec FileSystem α}, Safe .nullLock (fun _ => True) p →
      Safe .nullLock I (zoom view put p))
    (hrefuse : Safe .nullLock I refuse) (hcomplete : Safe .nullLock I complete) :
    Safe .nullLock I (receiveIn view put h path buffer refuse complete) := by
  refine Safe.bind (hfiles openAppend_safe) fun opened => ?_
  cases opened with
  | none => exact hrefuse
  | some p =>
    refine Safe.bind (hfiles (streamWrite_safe _ _ _)) fun _ => ?_
    split_ifs
    exacts [hcomplete, Safe.pure ()]

section Locking
variable {σ : Type} {I : σ → Prop} {table : σ → LockTable}
  {put : LockTable → σ → σ} {name : Text} {s : σ}

theorem lockIn_safe {bad : Crash} (hbad : .nullLock ≠ bad)
    (hput : ∀ s table, I s → I (put table s)) : Safe bad I (lockIn table put name) := by
  intro s hs
  unfold lockIn
  split
  exacts [sane_crashed hbad (hput s _ hs), sane_crashed hbad hs, sane_ok hs]

theorem lockIn_sane (hl : table s name = some .live) (hs : I s) :
    Sane .nullLock I (lockIn table put name s) := by
  rw [lockIn_live hl]
  exact sane_ok hs

end Locking

end SyncWizard.Common
