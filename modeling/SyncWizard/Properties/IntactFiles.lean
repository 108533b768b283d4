import SyncWizard.Properties.ChunkHandlers

/-! Whether a received file replaces the old one only if it is intact. All three handlers work out
the digest of the temporary, and none of them lets the rename depend on it. -/

namespace SyncWizard.Properties
open Foundation Common

structure Chunk where
  name : Text
  checksum : Text
  buffer : Packet
  noNul : nul ∉ name
  exact : buffer.Exact

def assembled (f : FileSystem) (path : Text) (buffer : Packet) : Text :=
  (f.content (path ++ temporarySuffix)).getD [] ++ buffer.bytes

def Overwrites (f g : FileSystem) (path : Text) : Prop :=
  ⟨.rename, path⟩ ∈ g.accesses.drop f.accesses.length ∧ g.lookup (path ++ temporarySuffix) = none

/-- The file is overwritten only by a text with the right digest, and otherwise stays as it is. -/
def OnlyIntact (h : Host) (checksum path text : Text) (f g : FileSystem) : Prop :=
  (Overwrites f g path → h.md5 text = checksum) ∧
    (h.md5 text ≠ checksum → g.content path = f.content path)

section Calls
variable {h : Host} (k : Receiver) (c : Chunk) (w : (k.handler h).State)

def chunkPath : Text := (k.handler h).directory w ++ c.name

def chunkCall : Exec (k.handler h).State Unit := quiet ((k.handler h).call c.name c.checksum c.buffer)

def Guarded : Prop :=
  OnlyIntact h c.checksum (chunkPath k c w)
    (assembled ((k.handler h).files w) (chunkPath k c w) c.buffer)
    ((k.handler h).files w) ((k.handler h).files (final (chunkCall k c w)))

structure Replaces : Prop where
  accepted : c.checksum ≠ txt "fail"
  last : c.buffer.isLast = true
  locked : (k.handler h).lock w c.name = some .live
  opens : ∃ p, FileSystem.Opens h ((k.handler h).files w) (chunkPath k c w ++ temporarySuffix) p
  completes : ∃ q, FileSystem.Completes h ((k.handler h).files w) (chunkPath k c w) q

end Calls

section Files
variable {h : Host} {f g : FileSystem} {path : Text} {p q : Path} {buffer : Packet}

theorem appended_same (hn : nul ∉ path)
    (ho : FileSystem.Opens h f (path ++ temporarySuffix) p) {text : Text}
    (hc : g.cwd = f.cwd) (hnode : g.node = Function.update f.node p (some (.file text))) :
    g.lookup (path ++ temporarySuffix) = some (.file text) ∧ g.content path = f.content path := by
  have hlocate := (ho.content hc hnode).1
  constructor
  · rw [FileSystem.lookup, hlocate, ho.located, Option.bind_some, hnode, Function.update_self]
  · exact FileSystem.content_beside hn ho hc hnode

theorem onlyIntact_unmoved {checksum text : Text} (hno : ¬ Overwrites f g path)
    (hsame : g.content path = f.content path) : OnlyIntact h checksum path text f g :=
  ⟨fun ho => absurd ho hno, fun _ => hsame⟩

end Files

section Guarding
variable {h : Host} {k : Receiver} {c : Chunk} {w : (k.handler h).State}

theorem chunkPath_noNul (hd : nul ∉ (k.handler h).directory w) : nul ∉ chunkPath k c w := by
  rw [chunkPath, List.mem_append, not_or]
  exact ⟨hd, c.noNul⟩

theorem guarded_of_not_replaces (hd : nul ∉ (k.handler h).directory w) (hno : ¬ Replaces k c w) :
    Guarded k c w := by
  have hn := chunkPath_noNul (c := c) hd
  rw [Guarded, chunkCall, final_quiet]
  by_cases hc : c.checksum = txt "fail"
  · rw [hc, handler_failed]
    refine onlyIntact_unmoved ?_ rfl
    rintro ⟨hmem, -⟩
    rw [List.drop_length] at hmem
    cases hmem
  rw [handler_final k hc, handler_files, ← chunkPath]
  by_cases ho : ∃ p, FileSystem.Opens h ((k.handler h).files w) (chunkPath k c w ++ temporarySuffix) p
  · obtain ⟨p, ho⟩ := ho
    obtain ⟨g, hrun, hcwd, hnode⟩ := FileSystem.receiveChunk_gathers
      ((k.handler h).lock w c.name == some .live) hn c.exact ho
      fun hlast hlock q hq => hno ⟨hc, hlast, beq_iff_eq.mp hlock, ⟨p, ho⟩, q, hq⟩
    obtain ⟨htemporary, hsame⟩ := appended_same hn ho hcwd hnode
    rw [hrun]
    refine onlyIntact_unmoved ?_ hsame
    rintro ⟨-, hgone⟩
    rw [final_ok, htemporary] at hgone
    cases hgone
  · rw [FileSystem.receiveChunk_unopened _ _ (not_exists.mp ho)]
    refine onlyIntact_unmoved ?_ rfl
    rintro ⟨hmem, -⟩
    rw [final_ok, FileSystem.record, List.drop_left, List.mem_singleton] at hmem
    cases hmem

theorem overwrites_of_replaces (hd : nul ∉ (k.handler h).directory w) (hr : Replaces k c w) :
    Overwrites ((k.handler h).files w)
      ((k.handler h).files (final (chunkCall k c w))) (chunkPath k c w) := by
  have hn := chunkPath_noNul (c := c) hd
  obtain ⟨p, ho⟩ := hr.opens
  obtain ⟨q, hq⟩ := hr.completes
  obtain ⟨g, hrun, hcwd, hacc, hnode⟩ := FileSystem.receiveChunk_completes hn c.exact hr.last ho hq
  rw [chunkCall, final_quiet, handler_final k hr.accepted, handler_files, ← chunkPath, hr.locked,
    show (some Lock.live == some Lock.live) = true from rfl, hrun]
  have hdir := hq.renames.noDirectory
  have hqp := FileSystem.temporary_ne hn ho.located hq.renames.located
  refine ⟨hacc, ?_⟩
  rw [final_ok, FileSystem.lookup, FileSystem.moved_locate ho.noDirectory hdir hcwd hnode, ho.located,
    Option.bind_some, hnode, Function.update_of_ne hqp.symm, Function.update_self]

variable (c) in
theorem guarded_iff (hd : nul ∉ (k.handler h).directory w) : Guarded k c w ↔
    (Replaces k c w →
      h.md5 (assembled ((k.handler h).files w) (chunkPath k c w) c.buffer) = c.checksum) := by
  constructor
  · exact fun hg hr => hg.1 (overwrites_of_replaces hd hr)
  · intro hdigest
    by_cases hr : Replaces k c w
    · exact ⟨fun _ => hdigest hr, fun hne => absurd (hdigest hr) hne⟩
    · exact guarded_of_not_replaces hd hr

theorem chunkCall_directory {w' : (k.handler h).State} (hrun : chunkCall k c w = .ok () w') :
    (k.handler h).directory w' = (k.handler h).directory w := by
  have hfinal := final_quiet ((k.handler h).call c.name c.checksum c.buffer) w
  rw [← chunkCall, hrun, final_ok] at hfinal
  rw [hfinal, handler_final_directory]

end Guarding

/-- In a run over any chunks every file is replaced only by an intact one exactly when, at each
chunk that gets as far as the rename, the digest is the one in the command. -/
theorem run_guarded_iff (h : Host) (k : Receiver) (chunks : List Chunk) {w : (k.handler h).State}
    (hd : nul ∉ (k.handler h).directory w) :
    Along (chunkCall k) (Guarded k) chunks w ↔
      Along (chunkCall k) (fun c w => Replaces k c w →
        h.md5 (assembled ((k.handler h).files w) (chunkPath k c w) c.buffer) = c.checksum)
        chunks w := by
  refine along_congr (I := fun _ w => nul ∉ (k.handler h).directory w) (fun c v v' hrun hv _ => ?_)
    (fun c v hv => guarded_iff c hv) fun _ => hd
  rw [chunkCall_directory hrun]
  exact hv

def oneByteChunk (checksum : Text) : Chunk where
  name := txt "a"
  checksum := checksum
  buffer := { Packet.init with expectedPackets := 1, payloadSize := 1, payload := some [7] }
  noNul := by decide
  exact := rfl

def clientWithFile : Client.ClientState :=
  ⟨⟨3, 0, fun _ => [], fun _ => [], fun _ => true⟩,
    ⟨[], AList.singleton [⟨txt "sync_a", by decide⟩] (.file [1, 2]), []⟩, txt "./sync_", txt "./",
    fun _ => some .live, [], true, true, true⟩

theorem right_digest_guarded :
    Along (chunkCall (h := pageHost.1) .upload) (Guarded .upload) [oneByteChunk [7]] clientWithFile :=
  (run_guarded_iff pageHost.1 .upload [oneByteChunk [7]] (w := clientWithFile) (by decide)).mpr
    ⟨fun _ => rfl, fun _ _ => trivial⟩

theorem wrong_digest_overwrites :
    ¬ ∀ (h : Host) (k : Receiver) (c : Chunk) (w : (k.handler h).State),
      nul ∉ (k.handler h).directory w → Guarded k c w := by
  intro hall
  have hg := hall pageHost.1 .upload (oneByteChunk (txt "digest")) clientWithFile (by decide)
  have hdigest := (guarded_iff (h := pageHost.1) (k := .upload) (w := clientWithFile)
    (oneByteChunk (txt "digest")) (by decide)).mp hg
  refine absurd (hdigest ⟨by decide, by decide, rfl, ?_, ?_⟩) (by decide)
  · exact ⟨[⟨txt "sync_a.swizdownload", by decide⟩], by decide, rfl, by decide⟩
  · exact ⟨[⟨txt "sync_a", by decide⟩], rfl, by decide, rfl, by decide⟩

end SyncWizard.Properties
