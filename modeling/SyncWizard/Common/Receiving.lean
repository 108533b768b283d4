import SyncWizard.Common.Packet
import SyncWizard.Common.Storage

/-! A packet of a file that is being received, on the files alone. All three handlers of such packets
append it to a temporary, and the last packet moves the temporary over the file. -/

namespace SyncWizard.Common
open Foundation

section Calls
variable (h : Host)

def completeFile (path : Text) : Exec FileSystem Unit := do
  let _ ← calculateMd5Checksum h (path ++ temporarySuffix)
  renameReplacing h (path ++ temporarySuffix) path

def receiveChunk (path : Text) (locked : Bool) (buffer : Packet) : Exec FileSystem Unit := do
  match ← openAppend h (path ++ temporarySuffix) with
  | none => pure ()
  | some p => do
    streamWrite p buffer.payload buffer.payloadSize.toNat
    if buffer.isLast && locked then completeFile h path else pure ()

end Calls

/-! ## On the files of a process -/

section Processes
variable {σ α : Type} (view : σ → FileSystem) (put : FileSystem → σ → σ) (h : Host)

def receiveIn (path : Text) (buffer : Packet) (refuse complete : Exec σ Unit) : Exec σ Unit := do
  match ← zoom view put (openAppend h (path ++ temporarySuffix)) with
  | none => refuse
  | some p => do
    zoom view put (streamWrite p buffer.payload buffer.payloadSize.toNat)
    if buffer.isLast then complete else pure ()

variable {view put h} {path : Text} {buffer : Packet} {locked : Bool}
  {refuse complete : Exec σ Unit} {w : σ}

theorem quiet_bind_ok {p : Exec σ α} {f : α → Exec σ Unit} {a : α} {w' : σ} (hp : p w = .ok a w') :
    quiet (p >>= f) w = quiet (f a) w' := by
  unfold quiet attempt
  rw [run_bind_ok hp]

theorem quiet_bind_error {p : Exec σ α} {f : α → Exec σ Unit} {e : Fault Text Crash} {w' : σ}
    (hp : p w = .error e w') : quiet (p >>= f) w = quiet (fun s => .error e s) w' := by
  unfold quiet attempt
  rw [run_bind_error hp]

theorem quiet_receiveIn {β : Type} (seen : EStateM.Result (Fault Text Crash) σ Unit → β)
    (hview : ∀ f w, view (put f w) = f) (hput : ∀ f g w, put f (put g w) = put f w)
    (hrefuse : ∀ f, quiet refuse (put f w) = .ok () (put f w))
    (hcomplete : buffer.isLast = true → ∀ f, seen (quiet complete (put f w)) =
      seen (zoom view put (quiet (if locked then completeFile h path else pure ())) (put f w))) :
    seen (quiet (receiveIn view put h path buffer refuse complete) w) =
      seen (zoom view put (quiet (receiveChunk h path locked buffer)) w) := by
  unfold receiveIn receiveChunk
  rw [run_zoom]
  cases hopen : openAppend h (path ++ temporarySuffix) (view w) with
  | error e f =>
    rw [quiet_bind_error hopen, quiet_bind_error (run_zoom_error hopen)]
    cases e <;> rfl
  | ok opened f =>
    rw [quiet_bind_ok hopen, quiet_bind_ok (run_zoom_ok hopen)]
    cases opened with
    | none => exact congrArg seen (hrefuse f)
    | some p =>
      dsimp only
      cases hwrite : streamWrite p buffer.payload buffer.payloadSize.toNat f with
      | error e g =>
        have hzoom : zoom view put (streamWrite p buffer.payload buffer.payloadSize.toNat) (put f w) =
            .error e (put g w) := by
          rw [run_zoom, hview, hwrite]
          exact congrArg (EStateM.Result.error e) (hput g f w)
        rw [quiet_bind_error hwrite, quiet_bind_error hzoom]
        cases e <;> rfl
      | ok _ g =>
        have hzoom : zoom view put (streamWrite p buffer.payload buffer.payloadSize.toNat) (put f w) =
            .ok () (put g w) := by
          rw [run_zoom, hview, hwrite]
          exact congrArg (EStateM.Result.ok ()) (hput g f w)
        rw [quiet_bind_ok hwrite, quiet_bind_ok hzoom]
        by_cases hlast : buffer.isLast = true
        · rw [if_pos hlast, hcomplete hlast g, run_zoom, hview, hlast, Bool.true_and]
          cases quiet (if locked then completeFile h path else pure ()) g with
          | ok _ g' => exact congrArg (fun v => seen (.ok () v)) (hput g' g w)
          | error e g' => exact congrArg (fun v => seen (.error e v)) (hput g' g w)
        · rw [if_neg hlast, Bool.eq_false_iff.mpr hlast, Bool.false_and]
          rfl

theorem receiveIn_unopened (hno : ∀ p, ¬ FileSystem.Opens h (view w) (path ++ temporarySuffix) p) :
    receiveIn view put h path buffer refuse complete w =
      refuse (put ((view w).record .append (path ++ temporarySuffix)) w) :=
  run_bind_ok (run_zoom_ok (FileSystem.openAppend_refused hno)) _

theorem receiveIn_opened (hview : ∀ f w, view (put f w) = f)
    (hput : ∀ f g w, put f (put g w) = put f w) {p : Path} (hb : buffer.Exact)
    (ho : FileSystem.Opens h (view w) (path ++ temporarySuffix) p) :
    ∃ g, receiveIn view put h path buffer refuse complete w =
        (if buffer.isLast then complete else pure () : Exec σ Unit) (put g w) ∧
      g.cwd = (view w).cwd ∧
      g.accesses = (view w).accesses ++ [⟨.append, path ++ temporarySuffix⟩] ∧
      g.node = Function.update (view w).node p
        (some (.file ((view w).contentAt p ++ buffer.bytes))) := by
  obtain ⟨g, hg, hcwd, hacc, hnode⟩ := FileSystem.openAppend_opens ho
  have hp : g.node p = some (.file ((view w).contentAt p)) := by rw [hnode, Function.update_self]
  obtain ⟨g', hg', hcwd', hacc', hnode'⟩ := FileSystem.streamWrite_exact (f := g) hb hp
  have hwrite : zoom view put (streamWrite p buffer.payload buffer.payloadSize.toNat) (put g w) =
      .ok () (put g' w) := by
    rw [run_zoom, hview, hg']
    exact congrArg (EStateM.Result.ok ()) (hput g' g w)
  refine ⟨g', ?_, hcwd'.trans hcwd, hacc'.trans hacc, ?_⟩
  · rw [receiveIn, run_bind_ok (run_zoom_ok hg)]
    exact run_bind_ok hwrite _
  · rw [hnode', hnode, Function.update_idem]
    rfl

end Processes

namespace FileSystem

structure Completes (h : Host) (f : FileSystem) (path : Text) (q : Path) : Prop where
  digested : h.mayDigest (path ++ temporarySuffix) = true
  renames : Renames h f (path ++ temporarySuffix) path q

section Receiving
variable {h : Host} {f g : FileSystem} {path : Text} {p q : Path} {buffer : Packet} {locked : Bool}

theorem temporary_ne (hn : nul ∉ path) (hp : f.locate (path ++ temporarySuffix) = some p)
    (hq : f.locate path = some q) : q ≠ p := by
  have hsuffix : IsSuffix temporarySuffix := ⟨by decide, by decide, by decide⟩
  have hne : path ≠ [] := by
    rintro rfl
    cases hq
  obtain ⟨q', hq', hqp⟩ := locate_extend hsuffix hn hne hp
  obtain rfl := Option.some.inj (hq.symm.trans hq')
  exact hqp

theorem content_beside (hn : nul ∉ path) (ho : Opens h f (path ++ temporarySuffix) p) {text : Text}
    (hcwd : g.cwd = f.cwd) (hnode : g.node = Function.update f.node p (some (.file text))) :
    g.content path = f.content path := by
  obtain ⟨hlocate, -⟩ := ho.content hcwd hnode
  rw [content, content, lookup, lookup, hlocate]
  cases hq : f.locate path with
  | none => rfl
  | some q =>
    have hqp := temporary_ne hn ho.located hq
    rw [Option.bind_some, Option.bind_some, hnode, Function.update_of_ne hqp]

theorem receiveChunk_appends (locked : Bool) (hb : buffer.Exact)
    (ho : Opens h f (path ++ temporarySuffix) p) :
    ∃ g, receiveChunk h path locked buffer f =
        (if buffer.isLast && locked then completeFile h path else pure () : Exec FileSystem Unit) g ∧
      g.cwd = f.cwd ∧ g.accesses = f.accesses ++ [⟨.append, path ++ temporarySuffix⟩] ∧
      g.node = Function.update f.node p (some (.file (f.contentAt p ++ buffer.bytes))) := by
  obtain ⟨g, hg, hcwd, hacc, hnode⟩ := openAppend_opens ho
  have hp : g.node p = some (.file (f.contentAt p)) := by rw [hnode, Function.update_self]
  obtain ⟨g', hg', hcwd', hacc', hnode'⟩ := streamWrite_exact (f := g) hb hp
  refine ⟨g', ?_, hcwd'.trans hcwd, hacc'.trans hacc, ?_⟩
  · rw [receiveChunk, run_bind_ok hg]
    exact run_bind_ok hg' _
  · rw [hnode', hnode, Function.update_idem]
    rfl

theorem receiveChunk_completes (hn : nul ∉ path) (hb : buffer.Exact) (hlast : buffer.isLast = true)
    (ho : Opens h f (path ++ temporarySuffix) p) (hc : Completes h f path q) :
    ∃ g, quiet (receiveChunk h path true buffer) f = .ok () g ∧ g.cwd = f.cwd ∧
      ⟨.rename, path⟩ ∈ g.accesses.drop f.accesses.length ∧
      g.node = Function.update (Function.update f.node p none) q
        (some (.file (f.contentAt p ++ buffer.bytes))) := by
  obtain ⟨g, hrun, hcwd, hacc, hnode⟩ := receiveChunk_appends true hb ho
  obtain ⟨hlocate, hcontent⟩ := ho.content hcwd hnode
  have hqp := temporary_ne hn ho.located hc.renames.located
  rw [hlast, Bool.and_true, if_pos rfl, completeFile,
    run_bind_ok (calculateMd5Checksum_run hcontent hc.digested)] at hrun
  have hnode_p : g.node p = some (.file (f.contentAt p ++ buffer.bytes)) := by
    rw [hnode, Function.update_self]
  have hrenames : Renames h (g.record .read (path ++ temporarySuffix))
      (path ++ temporarySuffix) path q := by
    refine ⟨?_, hc.renames.allowed, ?_⟩
    · rw [record_locate, hlocate]
      exact hc.renames.located
    · rw [record_node, hnode, Function.update_of_ne hqp]
      exact hc.renames.noDirectory
  have hlocated : g.locate (path ++ temporarySuffix) = some p := by
    rw [hlocate]
    exact ho.located
  obtain ⟨what, g', hmove, hcwd', hacc', hnode'⟩ := renameReplacing_moves
    (f := g.record .read (path ++ temporarySuffix)) hlocated hnode_p hrenames
  refine ⟨g', run_quiet_raised (hrun.trans hmove), hcwd'.trans hcwd, ?_, ?_⟩
  · rw [hacc', record, hacc, List.append_assoc, List.append_assoc, List.drop_left]
    simp
  · rw [hnode', record_node, hnode, Function.update_idem]

theorem moved_locate {text : Text} (hp : f.node p ≠ some .directory) (hq : f.node q ≠ some .directory)
    (hc : g.cwd = f.cwd)
    (hn : g.node = Function.update (Function.update f.node p none) q (some (.file text))) :
    g.locate = f.locate := by
  have hgone (r : Path) : Function.update f.node p none r = some .directory ↔
      f.node r = some .directory := update_directory hp (fun he => by cases he) r
  refine locate_of_directories hc fun r => ?_
  rw [hn, update_directory (mt (hgone q).mp hq) (file_ne_directory text), hgone]

theorem receiveChunk_gathers (locked : Bool) (hn : nul ∉ path) (hb : buffer.Exact)
    (ho : Opens h f (path ++ temporarySuffix) p)
    (hno : buffer.isLast = true → locked = true → ∀ q, ¬ Completes h f path q) :
    ∃ g, quiet (receiveChunk h path locked buffer) f = .ok () g ∧ g.cwd = f.cwd ∧
      g.node = Function.update f.node p (some (.file (f.contentAt p ++ buffer.bytes))) := by
  obtain ⟨g, hrun, hcwd, -, hnode⟩ := receiveChunk_appends locked hb ho
  by_cases hlast : (buffer.isLast && locked) = true
  · rw [if_pos hlast, completeFile] at hrun
    rw [Bool.and_eq_true] at hlast
    obtain ⟨hlocate, hcontent⟩ := ho.content hcwd hnode
    by_cases hdigest : h.mayDigest (path ++ temporarySuffix) = true
    · rw [run_bind_ok (calculateMd5Checksum_run hcontent hdigest)] at hrun
      have hstays : ∀ q, ¬ Renames h (g.record .read (path ++ temporarySuffix))
          (path ++ temporarySuffix) path q := by
        rintro q ⟨hq, hallowed, hdir⟩
        rw [record_locate, hlocate] at hq
        have hqp := temporary_ne hn ho.located hq
        rw [record_node, hnode, Function.update_of_ne hqp] at hdir
        exact hno hlast.1 hlast.2 q ⟨hdigest, hq, hallowed, hdir⟩
      exact ⟨_, run_quiet_ok (hrun.trans (renameReplacing_stays hstays)), hcwd, hnode⟩
    · have hraise : calculateMd5Checksum h (path ++ temporarySuffix) g =
          .error (.raised (txt "FileStore: error opening file for reading: " ++
            (path ++ temporarySuffix)))
            (g.record .read (path ++ temporarySuffix)) := by
        rw [calculateMd5Checksum, hcontent]
        exact if_neg hdigest
      exact ⟨_, run_quiet_raised (hrun.trans (run_bind_error hraise _)), hcwd, hnode⟩
  · rw [if_neg hlast] at hrun
    exact ⟨g, run_quiet_ok hrun, hcwd, hnode⟩

theorem receiveChunk_unopened (locked : Bool) (buffer : Packet)
    (hno : ∀ p, ¬ Opens h f (path ++ temporarySuffix) p) :
    quiet (receiveChunk h path locked buffer) f =
      .ok () (f.record .append (path ++ temporarySuffix)) := by
  refine run_quiet_ok (u := ()) ?_
  rw [receiveChunk, run_bind_ok (openAppend_refused hno)]
  rfl

end Receiving

end FileSystem

end SyncWizard.Common
