import SyncWizard.Properties.LockTables

/-! What an upload does to the file it reads. The copy it writes beside the file never gets any bytes. It is
renamed over an empty file, and left behind wherever else it could be made. -/

namespace SyncWizard.Properties
open Foundation Common

namespace OfClient
open Client

section Uploads
variable (h : Host) (args : Text) (w : ClientState)

def typedPath : Text := w.syncDirPath ++ args

def uploadRun : EStateM.Result (Fault Text Crash) ClientState Unit := uploadCommand h args w

/-- The upload comes to an end, the file has its content, there is no temporary, and no other file is
different. -/
structure KeepsCopy (content : Text) : Prop where
  finishes : ∀ how w', uploadRun h args w ≠ .error (.crashed how) w'
  original : (final (uploadRun h args w)).files.content (typedPath args w) = some content
  noTemporary : (final (uploadRun h args w)).files.lookup (typedPath args w ++ temporarySuffix) = none
  others : ∀ q, w.files.locate (typedPath args w) ≠ some q →
    w.files.locate (typedPath args w ++ temporarySuffix) ≠ some q →
      (final (uploadRun h args w)).files.node q = w.files.node q

/-- The mutex that the upload locks is there, or it is the one the upload adds. -/
def Lockable : Prop :=
  w.fileMtx (unquoted args) = some .live ∨ w.fileMtx (unquoted args) = none ∧ unquoted args = args

def Creates : Prop := ∃ p, FileSystem.Opens h w.files (typedPath args w ++ temporarySuffix) p

abbrev uploadText (checksum : Text) : Text := txt "upload|" ++ unquoted args ++ txt "|" ++ checksum

/-- The upload stops before it makes a temporary, or cannot make one and then reads no byte. -/
def StopsEarly (content : Text) : Prop :=
  (∃ what, h.statError (typedPath args w) = some what) ∨
    Lockable args w ∧ (h.mayDigest (typedPath args w) = false ∨
      ¬ Creates h args w ∧ (h.mayRead (typedPath args w) = false ∨ content = [] ∨
        ¬ Packet.Fits (uploadText args (h.md5 content))))

structure ReplacesEmpty (content : Text) : Prop where
  tested : h.statError (typedPath args w) = none
  lockable : Lockable args w
  digested : h.mayDigest (typedPath args w) = true
  creates : Creates h args w
  read : h.mayRead (typedPath args w) = true
  empty : content = []
  fits : Packet.Fits (uploadText args (h.md5 content))
  renamed : h.mayRename (typedPath args w ++ temporarySuffix) (typedPath args w) = true

end Uploads

def SameTree (w w' : ClientState) : Prop := w'.files.node = w.files.node ∧ w'.files.cwd = w.files.cwd

section Trees
variable {h : Host} {args text : Text} {w w' w'' : ClientState} {f : FileSystem}

theorem SameTree.trans (hs : SameTree w w') (hs' : SameTree w' w'') : SameTree w w'' :=
  ⟨hs'.1.trans hs.1, hs'.2.trans hs.2⟩

theorem SameTree.locate (hs : SameTree w w') : w'.files.locate = w.files.locate :=
  FileSystem.locate_of_node hs.2 hs.1

theorem SameTree.lookup (hs : SameTree w w') (path : Text) :
    w'.files.lookup path = w.files.lookup path :=
  congrFun (FileSystem.lookup_of_node hs.2 hs.1) path

theorem SameTree.content (hs : SameTree w w') (path : Text) :
    w'.files.content path = w.files.content path := by
  rw [FileSystem.content, FileSystem.content, hs.lookup]

theorem SameTree.opens (hs : SameTree w w') (path : Text) (p : Path) :
    FileSystem.Opens h w'.files path p ↔ FileSystem.Opens h w.files path p := by
  have hl := hs.locate
  constructor
  · rintro ⟨hp, ha, hd⟩
    exact ⟨by rw [← hl, hp], ha, by rw [← hs.1]; exact hd⟩
  · rintro ⟨hp, ha, hd⟩
    exact ⟨by rw [hl, hp], ha, by rw [hs.1]; exact hd⟩

theorem keepsCopy_of (hc : w.files.content (typedPath args w) = some text)
    (hno : w.files.lookup (typedPath args w ++ temporarySuffix) = none)
    (hend : (∃ u, uploadRun h args w = .ok u w') ∨
      ∃ what, uploadRun h args w = .error (.raised what) w') (hs : SameTree w w') :
    KeepsCopy h args w text := by
  have hfinal : final (uploadRun h args w) = w' := by
    rcases hend with ⟨u, hr⟩ | ⟨what, hr⟩
    · rw [hr, final_ok]
    · rw [hr, final_error]
  refine ⟨fun how w'' hr => ?_, ?_, ?_, fun q _ _ => ?_⟩
  · rcases hend with ⟨u, hend⟩ | ⟨what, hend⟩
    · cases hend.symm.trans hr
    · cases hend.symm.trans hr
  · rw [hfinal, hs.content, hc]
  · rw [hfinal, hs.lookup, hno]
  · rw [hfinal, hs.1]

theorem renameReplacing_missing {oldPath newPath : Text} (hno : f.lookup oldPath = none) :
    renameReplacing h oldPath newPath f =
      .ok () ((f.record .rename oldPath).record .rename newPath) := by
  refine FileSystem.renameReplacing_unmoved fun p q c hp hc _ => ?_
  rw [FileSystem.lookup, hp, Option.bind_some, hc] at hno
  cases hno

end Trees

/-! ## The stages of an upload -/

section Stages
variable (h : Host) (args filePath path checksum : Text)

def uploadFound : ClientExec Unit := do
  if (← fileMutex (unquoted args)).isNone then emplaceLock args
  uploadLocked h (unquoted args) path

def uploadOpened (file : Option Text) (temporary : Option Path) : ClientExec Unit :=
  match file with
  | none => pure ()
  | some content => do
    chunkLoop (txt "upload|" ++ filePath ++ txt "|" ++ checksum) (copyTo temporary) pushPacket content
    onFiles (renameReplacing h (path ++ temporarySuffix) path)

end Stages

section Runs
variable {h : Host} {args text path filePath checksum : Text} {w w' : ClientState} {p : Path}

theorem upload_untested {what : Text} (hs : h.statError (typedPath args w) = some what) :
    uploadRun h args w = .error (.raised what)
      { w with files := w.files.record .test (typedPath args w) } := by
  have hvalid : isValidPath h (typedPath args w) w.files =
      .error (.raised what) (w.files.record .test (typedPath args w)) := by
    simp only [isValidPath, hs]
  rw [uploadRun, uploadCommand, run_bind_ok (run_get w)]
  exact run_bind_error (run_zoom_error hvalid) _

theorem upload_found (hs : h.statError (typedPath args w) = none)
    (hc : w.files.content (typedPath args w) = some text) :
    uploadRun h args w = uploadFound h args (typedPath args w)
      { w with files := w.files.record .test (typedPath args w) } := by
  have hvalid := FileSystem.isValidPath_file hs hc
  rw [uploadRun, uploadCommand, run_bind_ok (run_get w)]
  exact run_bind_ok (run_zoom_ok hvalid) _

variable (h path) in
theorem uploadFound_lockable (hl : Lockable args w) :
    ∃ w', SameTree w w' ∧ w'.fileMtx (unquoted args) = some .live ∧
      uploadFound h args path w = uploadLocked h (unquoted args) path w' := by
  rw [uploadFound, run_bind_ok (fileMutex_run _ w)]
  rcases hl with hlive | ⟨hnone, hplain⟩
  · refine ⟨w, ⟨rfl, rfl⟩, hlive, ?_⟩
    rw [hlive]
    rfl
  · refine ⟨w.setLock args (some .live), ⟨rfl, rfl⟩, ?_, ?_⟩
    · rw [hplain]
      exact Function.update_self ..
    · rw [hplain] at hnone
      rw [hplain, hnone, if_pos Option.isNone_none, run_bind_ok (emplaceLock_run hnone)]

variable (h path) in
theorem uploadFound_unlockable (hl : ¬ Lockable args w) :
    ∃ w', uploadFound h args path w = .error (.crashed .nullLock) w' := by
  rw [uploadFound, run_bind_ok (fileMutex_run _ w)]
  cases hlock : w.fileMtx (unquoted args) with
  | some l =>
    have hnull : w.fileMtx (unquoted args) = some .null := by
      cases l with
      | null => exact hlock
      | live => exact absurd (.inl hlock) hl
    have hcrash : lockFile (unquoted args) w = .error (.crashed .nullLock) w := lockIn_null hnull
    exact ⟨w, run_bind_error hcrash _⟩
  | none =>
    have hquoted : unquoted args ≠ args := fun he => hl (.inr ⟨hlock, he⟩)
    obtain ⟨w₁, hadded, habsent⟩ :
        ∃ w₁, emplaceLock args w = .ok () w₁ ∧ w₁.fileMtx (unquoted args) = none := by
      cases htyped : w.fileMtx args with
      | none => exact ⟨_, emplaceLock_run htyped, (Function.update_of_ne hquoted ..).trans hlock⟩
      | some l =>
        refine ⟨w, ?_, hlock⟩
        rw [emplaceLock, run_bind_ok (fileMutex_run args w), htyped]
        rfl
    obtain ⟨w', hcrash⟩ : ∃ w', lockFile (unquoted args) w₁ = .error (.crashed .nullLock) w' :=
      ⟨_, lockIn_absent habsent⟩
    refine ⟨w', ?_⟩
    rw [if_pos Option.isNone_none, run_bind_ok hadded]
    exact run_bind_error hcrash _

theorem uploadLocked_undigested (hl : w.fileMtx filePath = some .live)
    (hc : w.files.content path = some text) (hd : h.mayDigest path = false) :
    ∃ what, uploadLocked h filePath path w = .error (.raised what)
      { w with files := w.files.record .read path } := by
  have hdigest : calculateMd5Checksum h path w.files =
      .error (.raised (txt "FileStore: error opening file for reading: " ++ path))
        (w.files.record .read path) := by
    rw [calculateMd5Checksum, hc]
    exact if_neg (by rw [hd]; exact Bool.false_ne_true)
  refine ⟨txt "FileStore: error opening file for reading: " ++ path, ?_⟩
  rw [uploadLocked, run_bind_ok (lockFile_live hl)]
  exact run_bind_error (run_zoom_error hdigest) _

theorem uploadLocked_digested (hl : w.fileMtx filePath = some .live)
    (hc : w.files.content path = some text) (hd : h.mayDigest path = true)
    {temporary : Option Path} {g : FileSystem} (ho : openAppend h (path ++ temporarySuffix)
      ((w.files.record .read path).record .read path) = .ok temporary g) :
    uploadLocked h filePath path w =
      uploadOpened h filePath path (h.md5 text) (if h.mayRead path then some text else none)
        temporary { w with files := g } := by
  let w₁ : ClientState := { w with files := w.files.record .read path }
  let w₂ : ClientState := { w with files := (w.files.record .read path).record .read path }
  have hdigest : onFiles (calculateMd5Checksum h path) w = .ok (h.md5 text) w₁ :=
    run_zoom_ok (FileSystem.calculateMd5Checksum_run hc hd)
  have hread : onFiles (openRead h path) w₁ = .ok (if h.mayRead path then some text else none) w₂ := by
    have hrun : openRead h path w₁.files =
        .ok (if h.mayRead path then some text else none) (w₁.files.record .read path) := by
      rw [openRead, show w₁.files.content path = some text from hc]
    exact run_zoom_ok hrun
  have hopen : onFiles (openAppend h (path ++ temporarySuffix)) w₂ =
      .ok temporary { w with files := g } := run_zoom_ok ho
  rw [uploadLocked, run_bind_ok (lockFile_live hl), run_bind_ok hdigest, run_bind_ok hread,
    run_bind_ok hopen]
  rfl

section Opened
variable (hlong : ¬ Packet.Fits (txt "upload|" ++ filePath ++ txt "|" ++ checksum))
  (hfits : Packet.Fits (txt "upload|" ++ filePath ++ txt "|" ++ checksum))

variable (h path text w) in
include hlong in
theorem uploadOpened_long (temporary : Option Path) :
    ∃ what, uploadOpened h filePath path checksum (some text) temporary w =
      .error (.raised what) w := by
  obtain ⟨what, hw⟩ := chunkLoop_long hlong (copyTo temporary) pushPacket text w
  exact ⟨what, run_bind_error hw _⟩

include hfits

variable (h path w) in
theorem uploadOpened_nonempty (hne : text ≠ []) (temporary : Option Path) : ∃ w',
    uploadOpened h filePath path checksum (some text) temporary w = .error (.crashed .hang) w' := by
  have hcopy (p : Packet) (hp : Blank p) (v : ClientState) : Returns (copyTo temporary p v) :=
    ⟨(), v, copyTo_blank hp temporary v⟩
  have hpush (p : Packet) (v : ClientState) : Returns (pushPacket p v) := ⟨(), v.push p, rfl⟩
  obtain ⟨w', hhangs⟩ := chunkLoop_hangs hfits hcopy hpush hne w
  exact ⟨w', run_bind_error hhangs _⟩

variable (h path w) in
theorem uploadOpened_empty (temporary : Option Path) :
    uploadOpened h filePath path checksum (some []) temporary w =
      onFiles (renameReplacing h (path ++ temporarySuffix) path)
        (w.push (emptyChunk (txt "upload|" ++ filePath ++ txt "|" ++ checksum))) := by
  have hcopied := copyTo_blank (chunk_blank (txt "upload|" ++ filePath ++ txt "|" ++ checksum) 0 0)
    temporary w
  have hloop := (chunkLoop_empty hfits (copyTo temporary) pushPacket w).trans (run_bind_ok hcopied _)
  exact run_bind_ok hloop _

variable (h) in
theorem uploadOpened_uncopied (hno : w.files.lookup (path ++ temporarySuffix) = none) :
    ∃ w', uploadOpened h filePath path checksum (some []) none w = .ok () w' ∧ SameTree w w' := by
  have hrename : renameReplacing h (path ++ temporarySuffix) path w.files =
      .ok () ((w.files.record .rename (path ++ temporarySuffix)).record .rename path) :=
    renameReplacing_missing hno
  exact ⟨_, (uploadOpened_empty h path w hfits none).trans (run_zoom_ok hrename), rfl, rfl⟩

end Opened

end Runs

/-! ## The temporary of an upload -/

structure Made (args text : Text) (w : ClientState) (p q : Path) (g : FileSystem) : Prop where
  temporary : w.files.locate (typedPath args w ++ temporarySuffix) = some p
  original : w.files.locate (typedPath args w) = some q
  apart : q ≠ p
  file : w.files.node q = some (.file text)
  fresh : w.files.node p = none
  cwd : g.cwd = w.files.cwd
  node : g.node = Function.update w.files.node p (some (.file []))

section Making
variable {h : Host} {args text : Text} {w w₂ w' : ClientState} {p q : Path} {g g' : FileSystem}

theorem openAppend_made (hc : w.files.content (typedPath args w) = some text)
    (hno : w.files.lookup (typedPath args w ++ temporarySuffix) = none)
    (ho : FileSystem.Opens h w.files (typedPath args w ++ temporarySuffix) p) (hsame : SameTree w w₂) :
    ∃ q g, openAppend h (typedPath args w ++ temporarySuffix) w₂.files = .ok (some p) g ∧
      Made args text w p q g := by
  obtain ⟨q, hq, hfile⟩ := FileSystem.content_inv hc
  have hfresh : w.files.node p = none := by
    rw [FileSystem.lookup, ho.located, Option.bind_some] at hno
    exact hno
  obtain ⟨g, happend, hcwd, -, hnode⟩ := FileSystem.openAppend_opens ((hsame.opens _ p).mpr ho)
  rw [FileSystem.contentAt, hsame.1, hfresh] at hnode
  refine ⟨q, g, happend, ho.located, hq, ?_, hfile, hfresh, hcwd.trans hsame.2, hnode⟩
  rintro rfl
  cases hfresh.symm.trans hfile

variable (hm : Made args text w p q g)
include hm

theorem Made.locate : g.locate = w.files.locate :=
  FileSystem.locate_update (hm.fresh ▸ (Option.some_ne_none _).symm) (FileSystem.file_ne_directory _)
    hm.cwd hm.node

theorem Made.node_temporary : g.node p = some (.file []) := by rw [hm.node, Function.update_self]

theorem Made.left (hfinal : (final (uploadRun h args w)).files = g') (hcwd : g'.cwd = g.cwd)
    (hnode : g'.node = g.node) : ¬ KeepsCopy h args w text := by
  intro hk
  have hgone := hk.noTemporary
  rw [hfinal, FileSystem.lookup, FileSystem.locate_of_node hcwd hnode, hm.locate, hm.temporary,
    Option.bind_some, hnode, hm.node_temporary] at hgone
  cases hgone

theorem Made.moves (hr : h.mayRename (typedPath args w ++ temporarySuffix) (typedPath args w) = true) :
    ∃ what g', renameReplacing h (typedPath args w ++ temporarySuffix) (typedPath args w) g =
        .error (.raised what) g' ∧ g'.cwd = g.cwd ∧
      g'.accesses = g.accesses ++ [⟨.rename, typedPath args w ++ temporarySuffix⟩,
        ⟨.rename, typedPath args w⟩] ∧
      g'.node = Function.update (Function.update g.node p none) q (some (.file [])) := by
  have hq : g.node q ≠ some .directory := by
    rw [hm.node, Function.update_of_ne hm.apart, hm.file]
    exact FileSystem.file_ne_directory text
  exact FileSystem.renameReplacing_moves (hm.locate ▸ hm.temporary) hm.node_temporary
    ⟨hm.locate ▸ hm.original, hr, hq⟩

theorem Made.moved {what : Text} (hempty : text = []) (hcwd : g'.cwd = g.cwd)
    (hnode : g'.node = Function.update (Function.update g.node p none) q (some (.file [])))
    (hrun : uploadRun h args w = .error (.raised what) w') (hfiles : w'.files = g') :
    KeepsCopy h args w text := by
  have hq : g.node q ≠ some .directory := by
    rw [hm.node, Function.update_of_ne hm.apart, hm.file]
    exact FileSystem.file_ne_directory text
  have hlocate : g'.locate = w.files.locate := (FileSystem.moved_locate
    (hm.node_temporary ▸ FileSystem.file_ne_directory _) hq hcwd hnode).trans hm.locate
  have hfinal : (final (uploadRun h args w)).files = g' := by rw [hrun, final_error, hfiles]
  refine ⟨fun how v hr => ?_, ?_, ?_, fun r hrq hrp => ?_⟩
  · cases hrun.symm.trans hr
  · rw [hfinal, hempty]
    refine FileSystem.content_of_node (hlocate ▸ hm.original) ?_
    rw [hnode, Function.update_self]
  · rw [hfinal, FileSystem.lookup, hlocate, hm.temporary, Option.bind_some, hnode,
      Function.update_of_ne hm.apart.symm, Function.update_self]
  · have hrq' : r ≠ q := fun he => hrq (he ▸ hm.original)
    have hrp' : r ≠ p := fun he => hrp (he ▸ hm.temporary)
    rw [hfinal, hnode, Function.update_of_ne hrq', Function.update_of_ne hrp', hm.node,
      Function.update_of_ne hrp']

end Making

/-! ## Whole uploads -/

section Whole
variable {h : Host} {args text : Text} {w w' : ClientState}
  (hc : w.files.content (typedPath args w) = some text)
  (hno : w.files.lookup (typedPath args w ++ temporarySuffix) = none)
include hc hno

section Locked
variable {w₁ : ClientState} (hsame : SameTree w w₁)
  (hlive : w₁.fileMtx (unquoted args) = some .live)
  (hrun : uploadRun h args w = uploadLocked h (unquoted args) (typedPath args w) w₁)
include hsame hlive hrun

theorem keepsCopy_created_iff (hd : h.mayDigest (typedPath args w) = true)
    (hcreates : Creates h args w) :
    KeepsCopy h args w text ↔ h.mayRead (typedPath args w) = true ∧ text = [] ∧
      Packet.Fits (uploadText args (h.md5 text)) ∧
      h.mayRename (typedPath args w ++ temporarySuffix) (typedPath args w) = true := by
  obtain ⟨p, hopens⟩ := hcreates
  let w₂ : ClientState :=
    { w₁ with files := (w₁.files.record .read (typedPath args w)).record .read (typedPath args w) }
  have hsame' : SameTree w w₂ := hsame.trans ⟨rfl, rfl⟩
  obtain ⟨q, g, happend, hmade⟩ := openAppend_made hc hno hopens hsame'
  have hrun' := hrun.trans (uploadLocked_digested hlive ((hsame.content _).trans hc) hd happend)
  cases hread : h.mayRead (typedPath args w) with
  | false =>
    rw [hread] at hrun'
    refine iff_of_false (hmade.left ?_ rfl rfl) fun hall => Bool.false_ne_true hall.1
    rw [hrun']
    rfl
  | true =>
    rw [hread, if_pos rfl] at hrun'
    let w₃ : ClientState := { w₁ with files := g }
    by_cases hfits : Packet.Fits (uploadText args (h.md5 text))
    swap
    · obtain ⟨what, hlong⟩ := uploadOpened_long h text (typedPath args w) w₃ hfits (some p)
      refine iff_of_false (hmade.left ?_ rfl rfl) fun hall => hfits hall.2.2.1
      rw [hrun', hlong, final_error]
    rcases eq_or_ne text [] with rfl | hne
    swap
    · obtain ⟨w', hhangs⟩ := uploadOpened_nonempty h (typedPath args w) w₃ hfits hne (some p)
      exact iff_of_false (fun hk => hk.finishes _ _ (hrun'.trans hhangs)) fun hall => hne hall.2.1
    rw [uploadOpened_empty h (typedPath args w) w₃ hfits (some p)] at hrun'
    by_cases hmay : h.mayRename (typedPath args w ++ temporarySuffix) (typedPath args w) = true
    · obtain ⟨what, g', hrename, hcwd, -, hnode⟩ := hmade.moves hmay
      exact iff_of_true (hmade.moved rfl hcwd hnode (hrun'.trans (run_zoom_error hrename)) rfl)
        ⟨rfl, rfl, hfits, hmay⟩
    · have hstays : renameReplacing h (typedPath args w ++ temporarySuffix) (typedPath args w) g = _ :=
        FileSystem.renameReplacing_stays fun r hr => hmay hr.allowed
      have hfinal : (final (uploadRun h args w)).files = (g.record .rename _).record .rename _ :=
        congrArg (fun r => (final r).files) (hrun'.trans (run_zoom_ok hstays))
      exact iff_of_false (hmade.left hfinal rfl rfl) fun hall => hmay hall.2.2.2

theorem keepsCopy_uncreated_iff (hd : h.mayDigest (typedPath args w) = true)
    (hcreates : ¬ Creates h args w) :
    KeepsCopy h args w text ↔ h.mayRead (typedPath args w) = false ∨ text = [] ∨
      ¬ Packet.Fits (txt "upload|" ++ unquoted args ++ txt "|" ++ h.md5 text) := by
  let w₂ : ClientState :=
    { w₁ with files := (w₁.files.record .read (typedPath args w)).record .read (typedPath args w) }
  have hsame' : SameTree w w₂ := hsame.trans ⟨rfl, rfl⟩
  have hrefused : openAppend h (typedPath args w ++ temporarySuffix) w₂.files =
      .ok none (w₂.files.record .append (typedPath args w ++ temporarySuffix)) :=
    FileSystem.openAppend_refused fun p hp => hcreates ⟨p, (hsame'.opens _ p).mp hp⟩
  have hdigested := hrun.trans (uploadLocked_digested hlive ((hsame.content _).trans hc) hd hrefused)
  let w₃ : ClientState :=
    { w₂ with files := w₂.files.record .append (typedPath args w ++ temporarySuffix) }
  have hsame₃ : SameTree w w₃ := hsame'.trans ⟨rfl, rfl⟩
  cases hread : h.mayRead (typedPath args w) with
  | false =>
    refine iff_of_true ?_ (.inl rfl)
    rw [hread] at hdigested
    exact keepsCopy_of hc hno (.inl ⟨(), hdigested⟩) hsame₃
  | true =>
    rw [hread, if_pos rfl] at hdigested
    by_cases hfits : Packet.Fits (txt "upload|" ++ unquoted args ++ txt "|" ++ h.md5 text)
    swap
    · refine iff_of_true ?_ (.inr (.inr hfits))
      obtain ⟨what, hlong⟩ := uploadOpened_long h text (typedPath args w) w₃ hfits none
      exact keepsCopy_of hc hno (.inr ⟨what, hdigested.trans hlong⟩) hsame₃
    rcases eq_or_ne text [] with rfl | hne
    · refine iff_of_true ?_ (.inr (.inl rfl))
      obtain ⟨w', hends, hsame₄⟩ := uploadOpened_uncopied h hfits ((hsame₃.lookup _).trans hno)
      exact keepsCopy_of hc hno (.inl ⟨(), hdigested.trans hends⟩) (hsame₃.trans hsame₄)
    · refine iff_of_false (fun hk => ?_) ?_
      · obtain ⟨w', hhangs⟩ := uploadOpened_nonempty h (typedPath args w) w₃ hfits hne none
        exact hk.finishes _ _ (hdigested.trans hhangs)
      · rintro (hunread | hempty | hlong)
        · cases hunread
        · exact hne hempty
        · exact hlong hfits

theorem keepsCopy_locked_iff : KeepsCopy h args w text ↔
    (h.mayDigest (typedPath args w) = false ∨
      ¬ Creates h args w ∧ (h.mayRead (typedPath args w) = false ∨ text = [] ∨
        ¬ Packet.Fits (uploadText args (h.md5 text)))) ∨
    h.mayDigest (typedPath args w) = true ∧ Creates h args w ∧
      h.mayRead (typedPath args w) = true ∧ text = [] ∧ Packet.Fits (uploadText args (h.md5 text)) ∧
      h.mayRename (typedPath args w ++ temporarySuffix) (typedPath args w) = true := by
  cases hd : h.mayDigest (typedPath args w) with
  | false =>
    refine iff_of_true ?_ (.inl (.inl rfl))
    obtain ⟨what, hraised⟩ := uploadLocked_undigested hlive ((hsame.content _).trans hc) hd
    exact keepsCopy_of hc hno (.inr ⟨what, hrun.trans hraised⟩) (hsame.trans ⟨rfl, rfl⟩)
  | true =>
    by_cases hcreates : Creates h args w
    · rw [keepsCopy_created_iff hc hno hsame hlive hrun hd hcreates]
      simp only [hcreates, Bool.true_eq_false, not_true_eq_false, false_and, or_self, false_or, true_and]
    · rw [keepsCopy_uncreated_iff hc hno hsame hlive hrun hd hcreates]
      simp only [hcreates, Bool.true_eq_false, not_false_eq_true, true_and, false_or, false_and, and_false,
        or_false]

end Locked

omit hno in
theorem upload_locked (hs : h.statError (typedPath args w) = none) (hl : Lockable args w) :
    ∃ w₁, SameTree w w₁ ∧ w₁.fileMtx (unquoted args) = some .live ∧
      uploadRun h args w = uploadLocked h (unquoted args) (typedPath args w) w₁ := by
  have hlocked : Lockable args { w with files := w.files.record .test (typedPath args w) } := hl
  obtain ⟨w₁, hsame, hlive, hrun⟩ :=
    uploadFound_lockable h (typedPath args w) hlocked
  exact ⟨w₁, ⟨hsame.1, hsame.2⟩, hlive, (upload_found hs hc).trans hrun⟩

theorem keepsCopy_iff : KeepsCopy h args w text ↔ StopsEarly h args w text ∨ ReplacesEmpty h args w text := by
  cases hs : h.statError (typedPath args w) with
  | some what =>
    refine iff_of_true ?_ (.inl (.inl ⟨what, hs⟩))
    exact keepsCopy_of hc hno (.inr ⟨what, upload_untested hs⟩) ⟨rfl, rfl⟩
  | none =>
    have htested : ¬ ∃ what, h.statError (typedPath args w) = some what := by
      rintro ⟨what, he⟩
      cases hs.symm.trans he
    by_cases hl : Lockable args w
    · obtain ⟨w₁, hsame, hlive, hrun⟩ := upload_locked hc hs hl
      rw [keepsCopy_locked_iff hc hno hsame hlive hrun, StopsEarly, or_iff_right htested,
        and_iff_right hl]
      refine or_congr_right ⟨?_, ?_⟩
      · exact fun ⟨hd, hcreates, hread, he, hf, hr⟩ => ⟨hs, hl, hd, hcreates, hread, he, hf, hr⟩
      · exact fun hr => ⟨hr.digested, hr.creates, hr.read, hr.empty, hr.fits, hr.renamed⟩
    · refine iff_of_false (fun hk => ?_) ?_
      · obtain ⟨w', hcrash⟩ := uploadFound_unlockable h (typedPath args w)
          (w := { w with files := w.files.record .test (typedPath args w) }) hl
        exact hk.finishes _ _ ((upload_found hs hc).trans hcrash)
      · rintro ((hstat | ⟨hlock, -⟩) | hr)
        exacts [htested hstat, hl hlock, hl hr.lockable]

end Whole

/-- An upload keeps the user's copy and tidies up after itself exactly when it stops before it has made a
temporary, or cannot make one and has no byte to read, or has an empty file to replace by an empty one. -/
theorem upload_keeps_copy_iff (h : Host) (args text : Text) (w : ClientState)
    (hc : w.files.content (typedPath args w) = some text)
    (hno : w.files.lookup (typedPath args w ++ temporarySuffix) = none) :
    KeepsCopy h args w text ↔ StopsEarly h args w text ∨ ReplacesEmpty h args w text :=
  keepsCopy_iff hc hno

theorem empty_notes_kept : KeepsCopy pageHost.1 (txt "notes") clientOfAna [] := by
  apply (upload_keeps_copy_iff pageHost.1 (txt "notes") [] clientOfAna (by decide) (by decide)).mpr
  have hopens : FileSystem.Opens pageHost.1 clientOfAna.files
      (typedPath (txt "notes") clientOfAna ++ temporarySuffix)
      [⟨txt "sync_notes.swizdownload", by decide⟩] := ⟨by decide, rfl, by decide⟩
  exact .inr ⟨rfl, .inr ⟨rfl, by decide⟩, rfl, ⟨_, hopens⟩, rfl, rfl, by decide, rfl⟩

def clientOfMemo : ClientState :=
  { clientOfAna with
    files := ⟨[], AList.singleton [⟨txt "sync_memo", by decide⟩] (.file [1, 2]), []⟩ }

theorem memo_not_kept :
    ¬ ∀ (h : Host) (args text : Text) (w : ClientState),
      w.files.content (typedPath args w) = some text →
        w.files.lookup (typedPath args w ++ temporarySuffix) = none → KeepsCopy h args w text := by
  intro hall
  have hc : clientOfMemo.files.content (typedPath (txt "memo") clientOfMemo) = some [1, 2] := by
    decide
  have hno : clientOfMemo.files.lookup (typedPath (txt "memo") clientOfMemo ++ temporarySuffix) =
      none := by decide
  have hkept := hall pageHost.1 (txt "memo") [1, 2] clientOfMemo hc hno
  rcases (keepsCopy_iff hc hno).mp hkept with (⟨what, hs⟩ | ⟨-, hd | ⟨huncreated, -⟩⟩) | hreplaces
  · cases hs
  · cases hd
  · exact huncreated ⟨[⟨txt "sync_memo.swizdownload", by decide⟩], by decide, rfl, by decide⟩
  · cases hreplaces.empty

end OfClient

end SyncWizard.Properties
