import SyncWizard.Common.Transfer
import SyncWizard.Foundation.Drafts
import SyncWizard.Properties.BroadcastDelivery
import SyncWizard.Server.Outcomes
import SyncWizard.Server.Sessions

/-! Two sessions of one user that upload the same file. Both append to one temporary under no lock,
which makes it a draft with two writers; a session's own lock table decides whether the last chunk
of its transfer publishes the draft, and no such table ever has an entry. -/

namespace SyncWizard.Properties
open Foundation Common Server

structure Uploader where
  session : SessionId
  me : Identity
  checksum : Text
  content : Text
  packets : List Packet
  directory : me.directoryPath = syncDir
  accepted : checksum ≠ txt "fail"
  nonempty : packets ≠ []
  size : packets.length ≤ 2 ^ 31
  exact : ∀ p ∈ packets, p.Exact
  numbered : ∀ before p after, packets = before ++ p :: after →
    p.sequenceNumber = BitVec.ofNat 32 before.length
  announced : ∀ p ∈ packets, p.expectedPackets = BitVec.ofNat 64 packets.length
  whole : packets.flatMap Packet.bytes = content

def Interleaves (u : Bool → Uploader) (calls : List (Bool × Packet)) : Prop :=
  ∀ b, (calls.filter fun c => c.1 == b).map Prod.snd = (u b).packets

def filePath (args : Text) : Text := syncDir ++ args

def temporaryPath (args : Text) : Text := filePath args ++ temporarySuffix

section Calls
variable (h : Host) (args : Text)

def uploadCall (u : Uploader) (p : Packet) : ServerExec Unit :=
  attempt (clientSentSdownload h u.session u.me args p u.checksum) fun _ => pure ()

def uploadRun (u : Bool → Uploader) (calls : List (Bool × Packet)) : ServerExec Unit :=
  forEach (fun c => uploadCall h args (u c.1) c.2) calls

/-- In the end the file is that of one client, and nothing is left of the temporary. -/
def EndsUnmixed (u : Bool → Uploader) (calls : List (Bool × Packet)) (w : ServerState) : Prop :=
  ∃ w', uploadRun h args u calls w = .ok () w' ∧
    (∃ b, w'.files.content (filePath args) = some (u b).content) ∧
    w'.files.lookup (temporaryPath args) = none

def mayPublish (w : ServerState) (u : Uploader) : Bool :=
  (w.session u.session).fileMtx args == some .live && h.mayDigest (temporaryPath args) &&
    h.mayRename (temporaryPath args) (filePath args) &&
    (w.files.lookup (filePath args) != some .directory)

def pieceOf (w : ServerState) (u : Bool → Uploader) (c : Bool × Packet) : Piece Byte :=
  ⟨c.2.bytes, c.2.isLast && mayPublish h args w (u c.1)⟩

end Calls

/-! ## Transfers -/

theorem Uploader.isLast_of_last (u : Uploader) {before : List Packet} {p : Packet}
    (hp : u.packets = before ++ [p]) : p.isLast = true := by
  have hmem : p ∈ u.packets := hp ▸ List.mem_append_right _ (List.mem_singleton_self _)
  exact (Packet.isLast_iff u.size (u.numbered before p [] hp) (u.announced p hmem) hp).mpr rfl

section Interleavings
variable {u : Bool → Uploader} {calls : List (Bool × Packet)}

theorem Interleaves.mem (hi : Interleaves u calls) {c : Bool × Packet} (hc : c ∈ calls) :
    c.2 ∈ (u c.1).packets := by
  rw [← hi c.1]
  exact List.mem_map.mpr ⟨c, List.mem_filter.mpr ⟨hc, beq_self_eq_true _⟩, rfl⟩

theorem Interleaves.last (hi : Interleaves u calls) (b : Bool) :
    ∃ p, (b, p) ∈ calls ∧ p.isLast = true := by
  obtain ⟨before, p, hp⟩ := (List.eq_nil_or_concat (u b).packets).resolve_left (u b).nonempty
  rw [List.concat_eq_append] at hp
  have hmem : p ∈ (calls.filter fun c => c.1 == b).map Prod.snd := by
    rw [hi b, hp]
    exact List.mem_append_right _ (List.mem_singleton_self _)
  obtain ⟨⟨b', p'⟩, hc, rfl⟩ := List.mem_map.mp hmem
  obtain ⟨hcall, hb⟩ := List.mem_filter.mp hc
  obtain rfl : b' = b := beq_iff_eq.mp hb
  exact ⟨p', hcall, (u b').isLast_of_last hp⟩

theorem Interleaves.concat (hi : Interleaves u calls) : ∃ before c, calls = before ++ [c] := by
  obtain ⟨p, hp, -⟩ := hi.last true
  obtain ⟨before, c, hc⟩ := (List.eq_nil_or_concat calls).resolve_left (List.ne_nil_of_mem hp)
  exact ⟨before, c, by rw [hc, List.concat_eq_append]⟩

theorem Interleaves.concat_isLast {before : List (Bool × Packet)} {c : Bool × Packet}
    (hi : Interleaves u (before ++ [c])) : c.2.isLast = true := by
  have hc := hi c.1
  rw [List.filter_append, List.filter_singleton, beq_self_eq_true, cond_true, List.map_append] at hc
  exact (u c.1).isLast_of_last hc.symm

end Interleavings

/-! ## One call -/

/-- The tree is that of `f₀`, except that the draft is in the places of the temporary `p` and of the
file `q`. -/
structure Holds (f₀ : FileSystem) (p q : Path) (d : Draft Byte) (f : FileSystem) : Prop where
  cwd : f.cwd = f₀.cwd
  node : f.node = Function.update (Function.update f₀.node p (d.pending.map Node.file)) q
    (d.published.elim (f₀.node q) fun c => some (.file c))
  replaced : d.published ≠ none → f₀.node q ≠ some .directory

section Holding
variable {h : Host} {args : Text} {f₀ f g : FileSystem} {p q : Path} {d : Draft Byte}

theorem Holds.node_temporary (hf : Holds f₀ p q d f) (hpq : q ≠ p) :
    f.node p = d.pending.map Node.file := by
  rw [hf.node, Function.update_of_ne hpq.symm, Function.update_self]

theorem Holds.node_file (hf : Holds f₀ p q d f) :
    f.node q = d.published.elim (f₀.node q) fun c => some (.file c) := by
  rw [hf.node, Function.update_self]

theorem Holds.locate (hf : Holds f₀ p q d f) (hpq : q ≠ p) (hp : f₀.node p ≠ some .directory) :
    f.locate = f₀.locate := by
  refine FileSystem.locate_of_directories hf.cwd fun x => ?_
  rcases eq_or_ne x q with rfl | hxq
  · rw [hf.node_file]
    cases hpub : d.published with
    | none => exact Iff.rfl
    | some c =>
      have hdir := hf.replaced (hpub ▸ Option.some_ne_none c)
      exact iff_of_false (FileSystem.file_ne_directory c) hdir
  rcases eq_or_ne x p with rfl | hxp
  · rw [hf.node_temporary hpq]
    exact iff_of_false (FileSystem.map_file_ne_directory _) hp
  · rw [hf.node, Function.update_of_ne hxq, Function.update_of_ne hxp]

theorem Holds.opens (hf : Holds f₀ p q d f) (hpq : q ≠ p)
    (ho : FileSystem.Opens h f₀ (temporaryPath args) p) :
      FileSystem.Opens h f (temporaryPath args) p where
  located := by
    rw [hf.locate hpq ho.noDirectory]
    exact ho.located
  allowed := ho.allowed
  noDirectory := hf.node_temporary hpq ▸ FileSystem.map_file_ne_directory _

theorem Holds.contentAt (hf : Holds f₀ p q d f) (hpq : q ≠ p) : f.contentAt p = d.pending.getD [] := by
  rw [FileSystem.contentAt, hf.node_temporary hpq]
  cases d.pending <;> rfl

theorem Holds.append (hf : Holds f₀ p q d f) (hpq : q ≠ p) {bs : Text} (hc : g.cwd = f.cwd)
    (hn : g.node = Function.update f.node p (some (.file (f.contentAt p ++ bs)))) :
    Holds f₀ p q (d.add ⟨bs, false⟩) g := by
  rw [d.add_keeps rfl]
  refine ⟨hc.trans hf.cwd, ?_, hf.replaced⟩
  rw [hn, hf.contentAt hpq, hf.node, Function.update_comm hpq, Function.update_idem]
  rfl

theorem Holds.publish (hf : Holds f₀ p q d f) (hpq : q ≠ p) {bs : Text}
    (hdir : f₀.node q ≠ some .directory)
    (hc : g.cwd = f.cwd)
    (hn : g.node = Function.update (Function.update f.node p none) q
      (some (.file (f.contentAt p ++ bs)))) :
    Holds f₀ p q (d.add ⟨bs, true⟩) g := by
  rw [d.add_publishes rfl]
  refine ⟨hc.trans hf.cwd, ?_, fun _ => hdir⟩
  rw [hn, hf.contentAt hpq, hf.node, Function.update_comm hpq,
    Function.update_idem, Function.update_idem]
  rfl

theorem Holds.congr (hf : Holds f₀ p q d f) (hc : g.cwd = f.cwd)
    (hn : g.node = f.node) : Holds f₀ p q d g :=
  ⟨hc.trans hf.cwd, hn.trans hf.node, hf.replaced⟩

theorem Holds.directory_iff (hf : Holds f₀ p q d f) :
    f.node q = some .directory ↔ f₀.node q = some .directory := by
  rw [hf.node_file]
  cases hpub : d.published with
  | none => exact Iff.rfl
  | some c =>
    refine iff_of_false (FileSystem.file_ne_directory c) (hf.replaced ?_)
    rw [hpub]
    exact Option.some_ne_none c

end Holding

section Calling
variable {h : Host} {args : Text} {v : Uploader} {packet : Packet} {w : ServerState} {p q : Path}
variable {d : Draft Byte} {f : FileSystem}

theorem temporaryPath_eq (v : Uploader) :
    v.me.directoryPath ++ args ++ temporarySuffix = temporaryPath args := by
  rw [temporaryPath, filePath, v.directory]

theorem filePath_eq (v : Uploader) : v.me.directoryPath ++ args = filePath args := by
  rw [filePath, v.directory]

theorem locate_filePath (hn : nul ∉ args) (hp : w.files.locate (temporaryPath args) = some p) :
    ∃ q, w.files.locate (filePath args) = some q ∧ q ≠ p := by
  have hsuffix : FileSystem.IsSuffix temporarySuffix := ⟨by decide, by decide, by decide⟩
  have hall : nul ∉ filePath args := by
    rw [filePath, List.mem_append, not_or]
    exact ⟨by decide, hn⟩
  exact FileSystem.locate_extend hsuffix hall (List.append_ne_nil_of_left_ne_nil (by decide) args) hp

theorem mayPublish_iff (hq : w.files.locate (filePath args) = some q) :
    mayPublish h args w v = true ↔ (w.session v.session).fileMtx args = some .live ∧
      h.mayDigest (temporaryPath args) = true ∧
        h.mayRename (temporaryPath args) (filePath args) = true ∧
      w.files.node q ≠ some .directory := by
  rw [mayPublish, FileSystem.lookup, hq, Option.bind_some]
  simp only [Bool.and_eq_true, beq_iff_eq, bne_iff_ne, and_assoc]

theorem renames_iff {g : FileSystem} (hg : Holds w.files p q d g)
    (hloc : g.locate (filePath args) = some q) (r : Path) :
    FileSystem.Renames h (g.record .read (temporaryPath args)) (temporaryPath args) (filePath args) r ↔
      r = q ∧ h.mayRename (temporaryPath args) (filePath args) = true ∧
        w.files.node q ≠ some .directory := by
  rw [Ne, ← hg.directory_iff]
  constructor
  · rintro ⟨hr, hallowed, hdir⟩
    rw [FileSystem.record_locate, hloc] at hr
    obtain rfl := Option.some.inj hr
    exact ⟨rfl, hallowed, hdir⟩
  · rintro ⟨rfl, hallowed, hdir⟩
    exact ⟨hloc, hallowed, hdir⟩

theorem uploadCall_live (hb : packet.Exact) (ho : FileSystem.Opens h w.files (temporaryPath args) p)
    (hq : w.files.locate (filePath args) = some q) (hqp : q ≠ p) (hf : Holds w.files p q d f)
    (hlast : packet.isLast = true) (hlock : (w.session v.session).fileMtx args = some .live)
    (hdigest : h.mayDigest (temporaryPath args) = true) :
    ∃ g, uploadCall h args v packet { w with files := f } = .ok () { w with files := g } ∧
      Holds w.files p q (d.add ⟨packet.bytes, mayPublish h args w v⟩) g := by
  have hov := hf.opens hqp ho
  rw [← temporaryPath_eq v] at hov hdigest
  obtain ⟨g, hrun, hcwd, -, hnode⟩ := clientSentSdownload_opened v.session (w := { w with files := f })
    v.accepted hb hov
  have hkept := hf.append hqp hcwd hnode
  obtain ⟨hloc, hcontent⟩ := hov.content hcwd hnode
  rw [finishUpload, if_pos hlast,
    completeTransfer_live (w := { w with files := g }) hlock hcontent hdigest] at hrun
  rw [temporaryPath_eq v] at hov hdigest
  rw [temporaryPath_eq v, filePath_eq v] at hrun
  have hq' : g.locate (filePath args) = some q := by
    rw [hloc, hf.locate hqp ho.noDirectory]
    exact hq
  have hrenames := renames_iff (h := h) hkept hq'
  by_cases hmove : h.mayRename (temporaryPath args) (filePath args) = true ∧
    w.files.node q ≠ some .directory
  · rw [(mayPublish_iff hq).mpr ⟨hlock, hdigest, hmove⟩]
    have hfile := congrFun hnode p
    rw [Function.update_self] at hfile
    have hlocated : g.locate (temporaryPath args) = some p := by
      rw [hloc]
      exact hov.located
    obtain ⟨what, g', hrename, hcwd', -, hnode'⟩ := FileSystem.renameReplacing_moves
      (f := g.record .read (temporaryPath args)) hlocated hfile ((hrenames q).mpr ⟨rfl, hmove⟩)
    refine ⟨g', run_attempt_raised (hrun.trans (onFiles_error hrename)) _, ?_⟩
    refine hf.publish hqp hmove.2 (hcwd'.trans hcwd) ?_
    rw [hnode', FileSystem.record_node, hnode, Function.update_idem]
  · have hnot : mayPublish h args w v = false := by
      rw [← Bool.not_eq_true, mayPublish_iff hq]
      exact fun hall => hmove hall.2.2
    have hstays := FileSystem.renameReplacing_stays fun r hr => hmove ((hrenames r).mp hr).2
    rw [hnot]
    exact ⟨_, run_attempt_ok (hrun.trans (onFiles_ok hstays)) _, hkept.congr rfl rfl⟩

theorem uploadCall_refines (hb : packet.Exact) (ho : FileSystem.Opens h w.files (temporaryPath args) p)
    (hq : w.files.locate (filePath args) = some q) (hqp : q ≠ p) (hf : Holds w.files p q d f)
    (hnull : packet.isLast = true → (w.session v.session).fileMtx args ≠ some .null) :
    ∃ g, uploadCall h args v packet { w with files := f } = .ok () { w with files := g } ∧
      Holds w.files p q (d.add ⟨packet.bytes, packet.isLast && mayPublish h args w v⟩) g := by
  have hov := hf.opens hqp ho
  rw [← temporaryPath_eq v] at hov
  obtain ⟨g, hrun, hcwd, -, hnode⟩ := clientSentSdownload_opened v.session (w := { w with files := f })
    v.accepted hb hov
  have hkept := hf.append hqp hcwd hnode
  by_cases hlast : packet.isLast = true
  · have hnot (hne : ¬ ((w.session v.session).fileMtx args = some .live ∧
        h.mayDigest (temporaryPath args) = true)) : mayPublish h args w v = false := by
      rw [← Bool.not_eq_true, mayPublish_iff hq]
      exact fun hall => hne ⟨hall.1, hall.2.1⟩
    rw [finishUpload, if_pos hlast] at hrun
    rw [hlast, Bool.true_and]
    cases hlock : (w.session v.session).fileMtx args with
    | none =>
      obtain ⟨what, hend⟩ := completeTransfer_none h v.me (w := { w with files := g }) hlock
      rw [hnot fun hall => by rw [hlock] at hall; exact nomatch hall.1]
      exact ⟨g, run_attempt_raised (hrun.trans hend) _, hkept⟩
    | some l =>
      cases l with
      | null => exact absurd hlock (hnull hlast)
      | live =>
        by_cases hdigest : h.mayDigest (temporaryPath args) = true
        · exact uploadCall_live hb ho hq hqp hf hlast hlock hdigest
        · rw [hnot fun hall => hdigest hall.2]
          rw [Bool.not_eq_true, ← temporaryPath_eq v] at hdigest
          obtain ⟨what, hend⟩ := completeTransfer_undigested (w := { w with files := g }) hlock hdigest
          exact ⟨_, run_attempt_raised (hrun.trans hend) _, hkept.congr rfl rfl⟩
  · rw [finishUpload, if_neg hlast] at hrun
    rw [Bool.eq_false_iff.mpr hlast, Bool.false_and]
    exact ⟨g, run_attempt_ok hrun _, hkept⟩

theorem uploadCall_null (hb : packet.Exact) (ho : FileSystem.Opens h f (temporaryPath args) p)
    (hlast : packet.isLast = true) (hnull : (w.session v.session).fileMtx args = some .null) :
    ∃ e s, uploadCall h args v packet { w with files := f } = .error e s := by
  rw [← temporaryPath_eq v] at ho
  obtain ⟨g, hrun, -⟩ := clientSentSdownload_opened v.session (w := { w with files := f })
    v.accepted hb ho
  rw [finishUpload, if_pos hlast, completeTransfer_null (w := { w with files := g }) hnull] at hrun
  exact ⟨_, _, by rw [uploadCall, attempt, hrun]⟩

theorem Holds.gone_iff (hf : Holds w.files p q d f) (hqp : q ≠ p)
    (ho : FileSystem.Opens h w.files (temporaryPath args) p) :
    f.lookup (temporaryPath args) = none ↔ d.pending = none := by
  rw [FileSystem.lookup, hf.locate hqp ho.noDirectory, ho.located,
    Option.bind_some, hf.node_temporary hqp,
    Option.map_eq_none_iff]

theorem Holds.content_published (hf : Holds w.files p q d f) (hqp : q ≠ p)
    (ho : FileSystem.Opens h w.files (temporaryPath args) p)
    (hq : w.files.locate (filePath args) = some q)
    {text : Text} (ht : d.published = some text) : f.content (filePath args) = some text := by
  refine FileSystem.content_of_node (p := q) ?_ ?_
  · rwa [hf.locate hqp ho.noDirectory]
  · rw [hf.node_file, ht]
    rfl

end Calling

/-! ## Runs -/

section Running
variable {h : Host} {args : Text} {u : Bool → Uploader} {w : ServerState} {p q : Path}
variable {calls : List (Bool × Packet)}

def NoNull (args : Text) (u : Bool → Uploader) (w : ServerState) : Prop :=
  ∀ b, (w.session (u b).session).fileMtx args ≠ some .null

theorem uploadRun_refines (hb : ∀ c ∈ calls, c.2.Exact)
    (ho : FileSystem.Opens h w.files (temporaryPath args) p)
    (hq : w.files.locate (filePath args) = some q) (hqp : q ≠ p) (hnull : NoNull args u w) :
    ∀ {d : Draft Byte} {f : FileSystem}, Holds w.files p q d f →
      ∃ g, uploadRun h args u calls { w with files := f } = .ok () { w with files := g } ∧
        Holds w.files p q (d.addAll (calls.map (pieceOf h args w u))) g := by
  induction calls with
  | nil => exact fun hf => ⟨_, rfl, hf⟩
  | cons c calls ih =>
    intro d f hf
    obtain ⟨g, hcall, hg⟩ :=
      uploadCall_refines (hb c List.mem_cons_self) ho hq hqp hf fun _ => hnull c.1
    obtain ⟨g', hrun, hg'⟩ := ih (fun c' hc' => hb c' (List.mem_cons_of_mem c hc')) hg
    exact ⟨g', (run_bind_ok hcall _).trans hrun, hg'⟩

theorem uploadRun_noNull (hb : ∀ c ∈ calls, c.2.Exact)
    (ho : FileSystem.Opens h w.files (temporaryPath args) p)
    (hq : w.files.locate (filePath args) = some q) (hqp : q ≠ p) :
    ∀ {d : Draft Byte} {f : FileSystem}, Holds w.files p q d f →
      Returns (uploadRun h args u calls { w with files := f }) →
      ∀ c ∈ calls, c.2.isLast = true → (w.session (u c.1).session).fileMtx args ≠ some .null := by
  induction calls with
  | nil => exact fun _ _ c hc => nomatch hc
  | cons c calls ih =>
    intro d f hf hr
    have hb₁ := hb c List.mem_cons_self
    have hfirst : c.2.isLast = true → (w.session (u c.1).session).fileMtx args ≠ some .null := by
      intro hlast hnull
      obtain ⟨e, s, hcrash⟩ := uploadCall_null (v := u c.1) (w := w) hb₁ (hf.opens hqp ho) hlast hnull
      rw [uploadRun, forEach, run_bind_error hcrash] at hr
      exact not_returns_error _ _ hr
    obtain ⟨g, hcall, hg⟩ := uploadCall_refines hb₁ ho hq hqp hf hfirst
    rw [uploadRun, forEach, run_bind_ok hcall] at hr
    intro c' hc'
    rcases List.mem_cons.mp hc' with rfl | hc'
    exacts [hfirst, ih (fun c' hc' => hb c' (List.mem_cons_of_mem c hc')) hg hr c' hc']

def draftAt (f : FileSystem) (p : Path) : Draft Byte where
  pending := match f.node p with
    | some (.file c) => some c
    | _ => none
  published := none

theorem holds_draftAt {f : FileSystem} (hp : f.node p ≠ some .directory) :
    Holds f p q (draftAt f p) f := by
  have hmap : (draftAt f p).pending.map Node.file = f.node p := by
    rw [draftAt]
    cases hn : f.node p with
    | none => rfl
    | some n =>
      cases n with
      | file c => rfl
      | directory => exact absurd hn hp
  refine ⟨rfl, ?_, fun hne => absurd rfl hne⟩
  rw [hmap, Function.update_eq_self]
  exact (Function.update_eq_self q f.node).symm

theorem draftAt_pending (f : FileSystem) (p : Path) :
    (draftAt f p).pending.getD [] = f.contentAt p := by
  rw [draftAt, FileSystem.contentAt]
  cases f.node p with
  | none => rfl
  | some n => cases n <;> rfl

def LastGathers (h : Host) (args : Text) (u : Bool → Uploader)
    (calls : List (Bool × Packet)) (w : ServerState)
    (p : Path) : Prop :=
  ∃ before c b, calls = before ++ [c] ∧ mayPublish h args w (u c.1) = true ∧
    Draft.gathered (before.map (pieceOf h args w u)) (w.files.contentAt p) ++ c.2.bytes = (u b).content

theorem endsUnmixed_opened (hn : nul ∉ args) (hi : Interleaves u calls)
    (ho : FileSystem.Opens h w.files (temporaryPath args) p) :
    EndsUnmixed h args u calls w ↔ NoNull args u w ∧ LastGathers h args u calls w p := by
  obtain ⟨q, hq, hqp⟩ := locate_filePath hn ho.located
  have hb : ∀ c ∈ calls, c.2.Exact := fun c hc => (u c.1).exact c.2 (hi.mem hc)
  have hstart := holds_draftAt (q := q) ho.noDirectory
  obtain ⟨before, c, rfl⟩ := hi.concat
  let pieces := before.map (pieceOf h args w u)
  have hpieces : (before ++ [c]).map (pieceOf h args w u) = pieces ++ [pieceOf h args w u c] := by
    rw [List.map_append, List.map_singleton]
  have hpublishes : (pieceOf h args w u c).publishes = mayPublish h args w (u c.1) := by
    rw [pieceOf, hi.concat_isLast, Bool.true_and]
  constructor
  · rintro ⟨w', hrun, ⟨b, hcontent⟩, hgone⟩
    have hnull : NoNull args u w := by
      intro b
      obtain ⟨last, hmem, hlast⟩ := hi.last b
      exact uploadRun_noNull hb ho hq hqp hstart ⟨_, _, hrun⟩ (b, last) hmem hlast
    obtain ⟨g, hrefines, hg⟩ := uploadRun_refines hb ho hq hqp hnull hstart
    rw [hpieces] at hg
    obtain rfl : w' = { w with files := g } := by
      rw [show ({ w with files := w.files } : ServerState) = w from rfl, hrun] at hrefines
      cases hrefines
      rfl
    have hpub := (Draft.addAll_concat_pending _ _ _).mp ((hg.gone_iff hqp ho).mp hgone)
    have htext := Draft.addAll_concat_published (draftAt w.files p) pieces hpub
    rw [draftAt_pending] at htext
    rw [hg.content_published hqp ho hq htext] at hcontent
    exact ⟨hnull, before, c, b, rfl, hpublishes ▸ hpub, Option.some.inj hcontent⟩
  · rintro ⟨hnull, before', c', b, heq, hmay, htext⟩
    obtain ⟨rfl, hc⟩ := List.append_inj' heq rfl
    obtain rfl := List.singleton_inj.mp hc
    obtain ⟨g, hrefines, hg⟩ := uploadRun_refines hb ho hq hqp hnull hstart
    rw [hpieces] at hg
    have hpub := hpublishes.trans hmay
    refine ⟨_, hrefines, ⟨b, ?_⟩,
      (hg.gone_iff hqp ho).mpr ((Draft.addAll_concat_pending _ _ _).mpr hpub)⟩
    refine hg.content_published hqp ho hq
      ((Draft.addAll_concat_published (draftAt w.files p) pieces hpub).trans ?_)
    rw [draftAt_pending]
    exact congrArg some htext

variable (u calls) in
theorem uploadRun_unopened (hno : ∀ p, ¬ FileSystem.Opens h w.files (temporaryPath args) p) :
    ∀ {f : FileSystem}, f.cwd = w.files.cwd → f.node = w.files.node →
      ∃ g, uploadRun h args u calls { w with files := f } = .ok () { w with files := g } ∧
        g.cwd = w.files.cwd ∧ g.node = w.files.node := by
  induction calls with
  | nil => exact fun hc hn => ⟨_, rfl, hc, hn⟩
  | cons c calls ih =>
    intro f hc hn
    have hno' : ∀ p, ¬ FileSystem.Opens h f
        ((u c.1).me.directoryPath ++ args ++ temporarySuffix) p := by
      rintro p ⟨hp, hallowed, hdir⟩
      have hloc := FileSystem.locate_of_node hc hn
      rw [temporaryPath_eq] at hp hallowed
      exact hno p ⟨hloc ▸ hp, hallowed, hn ▸ hdir⟩
    obtain ⟨what, hcall⟩ := clientSentSdownload_unopened (u c.1).session c.2
      (w := { w with files := f }) (u c.1).accepted hno'
    obtain ⟨g, hrun, hg⟩ :=
      ih (f := f.record .append ((u c.1).me.directoryPath ++ args ++ temporarySuffix)) hc hn
    exact ⟨g, (run_bind_ok (run_attempt_raised hcall _) _).trans hrun, hg⟩

theorem endsUnmixed_unopened (hno : ∀ p, ¬ FileSystem.Opens h w.files (temporaryPath args) p) :
    EndsUnmixed h args u calls w ↔
      (∃ b, w.files.content (filePath args) = some (u b).content) ∧
        w.files.lookup (temporaryPath args) = none := by
  obtain ⟨g, hrun, hc, hn⟩ := uploadRun_unopened u calls hno (f := w.files) rfl rfl
  have hlookup : g.lookup = w.files.lookup := FileSystem.lookup_of_node hc hn
  have hcontent : g.content = w.files.content := funext fun path => by
    rw [FileSystem.content, hlookup, FileSystem.content]
  rw [← hlookup, ← hcontent]
  constructor
  · rintro ⟨w', hrun', hrest⟩
    rw [show ({ w with files := w.files } : ServerState) = w from rfl, hrun'] at hrun
    cases hrun
    exact hrest
  · exact fun hrest => ⟨_, hrun, hrest⟩

end Running

/-- Two uploads of one file end as they should exactly when they cannot write and the file is
already there, or when the chunk that comes last publishes one client's content. -/
theorem endsUnmixed_iff (h : Host) {args : Text} (hn : nul ∉ args) {u : Bool → Uploader}
    {calls : List (Bool × Packet)} (hi : Interleaves u calls) (w : ServerState) :
    EndsUnmixed h args u calls w ↔
      (∃ p, FileSystem.Opens h w.files (temporaryPath args) p ∧ NoNull args u w ∧
        LastGathers h args u calls w p) ∨
      (∀ p, ¬ FileSystem.Opens h w.files (temporaryPath args) p) ∧
        (∃ b, w.files.content (filePath args) = some (u b).content) ∧
        w.files.lookup (temporaryPath args) = none := by
  by_cases ho : ∃ p, FileSystem.Opens h w.files (temporaryPath args) p
  · obtain ⟨p, ho⟩ := ho
    rw [endsUnmixed_opened hn hi ho]
    constructor
    · exact fun hends => .inl ⟨p, ho, hends⟩
    · rintro (⟨p', ho', hends⟩ | ⟨hno, -⟩)
      · obtain rfl := Option.some.inj (ho'.located.symm.trans ho.located)
        exact hends
      · exact absurd ho (hno p)
  · rw [endsUnmixed_unopened (not_exists.mp ho)]
    constructor
    · exact fun hends => .inr ⟨not_exists.mp ho, hends⟩
    · rintro (⟨p, ho', -⟩ | ⟨-, hends⟩)
      · exact absurd ⟨p, ho'⟩ ho
      · exact hends

def oneByte (session : SessionId) (fd : ℤ) (byte : Byte) : Uploader where
  session := session
  me := registeredAs fd (txt "ana") (txt "laptop") 0
  checksum := txt "digest"
  content := [byte]
  packets := [{ Packet.init with expectedPackets := 1, payloadSize := 1, payload := some [byte] }]
  directory := rfl
  accepted := by decide
  nonempty := List.cons_ne_nil _ _
  size := (by decide : 1 ≤ 2 ^ 31)
  exact p hp := by
    rw [List.mem_singleton.mp hp]
    rfl
  numbered _ _ _ he := Packet.numbered_single rfl he
  announced p hp := by
    rw [List.mem_singleton.mp hp]
    rfl
  whole := rfl

def bothUpload : Bool → Uploader
  | false => oneByte 0 4 1
  | true => oneByte 1 5 2

def oneAfterTheOther : List (Bool × Packet) :=
  (bothUpload false).packets.map (Prod.mk false) ++ (bothUpload true).packets.map (Prod.mk true)

theorem oneAfterTheOther_interleaves : Interleaves bothUpload oneAfterTheOther := by
  intro b
  cases b <;> rfl

def notesTemporary : Path := [⟨txt "sync_dir_servernotes.swizdownload", by decide⟩]

theorem notes_opens (w : ServerState) (hf : w.files = ⟨[], ∅, []⟩) :
    FileSystem.Opens pageHost.1 w.files (temporaryPath (txt "notes")) notesTemporary := by
  rw [hf]
  exact ⟨by decide, rfl, by decide⟩

theorem endsUnmixed_with_locks :
    EndsUnmixed pageHost.1 (txt "notes") bothUpload oneAfterTheOther
      ((twoDevices.setLock 0 (txt "notes") (some .live)).setLock 1 (txt "notes") (some .live)) := by
  refine (endsUnmixed_iff _ (by decide) oneAfterTheOther_interleaves _).mpr
    (.inl ⟨notesTemporary, notes_opens _ rfl, fun b => ?_, ?_⟩)
  · cases b <;> decide
  · exact ⟨[_], _, true, rfl, by decide, by decide⟩

/-- In the tables that sessions really have there is none, and the temporary stays. -/
theorem uploads_leave_temporary :
    ¬ ∀ (h : Host) (args : Text) (u : Bool → Uploader) (calls : List (Bool × Packet)) (w : ServerState),
      nul ∉ args → Interleaves u calls → EndsUnmixed h args u calls w := by
  intro hall
  have hends := hall pageHost.1 (txt "notes") bothUpload oneAfterTheOther twoDevices
    (by decide) oneAfterTheOther_interleaves
  rw [endsUnmixed_opened (by decide) oneAfterTheOther_interleaves (notes_opens twoDevices rfl)] at hends
  obtain ⟨-, before, c, -, -, hmay, -⟩ := hends
  have hnot : ∀ b, mayPublish pageHost.1 (txt "notes") twoDevices (bothUpload b) = false := by
    intro b
    cases b <;> rfl
  rw [hnot] at hmay
  exact Bool.false_ne_true hmay

end SyncWizard.Properties
