import SyncWizard.Common.FileSystem

/-! What deleting a file, appending to it and renaming it do to the tree, for paths that can be opened, and
where a path lies whose text is another path with something behind it. -/

namespace SyncWizard.Common
open Foundation

namespace FileSystem
variable {h : Host} {f g : FileSystem} {path : Text} {p q : Path}

theorem file_ne_directory (c : Text) : some (Node.file c) ≠ some .directory := by
  intro he
  cases he

theorem map_file_ne_directory (text : Option Text) : text.map Node.file ≠ some .directory := by
  cases text with
  | none => exact fun he => by cases he
  | some c => exact file_ne_directory c

theorem node_store (hp : p ≠ []) (n : Node) :
    (f.store p n).node = Function.update f.node p (some n) := by
  funext x
  rw [store_node hp, Function.update_apply]

theorem node_drop (hp : p ≠ []) : (f.drop p).node = Function.update f.node p none := by
  funext x
  rw [drop_node hp, Function.update_apply]

theorem not_root_of_node (hp : f.node p ≠ some .directory) : p ≠ [] := by
  rintro rfl
  exact hp node_nil

theorem locate_congr (hc : g.cwd = f.cwd) (hd : g.isDirectory = f.isDirectory) :
    g.locate = f.locate := by
  funext path
  rw [locate, locate, hd, startOf, startOf, hc]

theorem locate_of_directories (hc : g.cwd = f.cwd)
    (hd : ∀ q, g.node q = some .directory ↔ f.node q = some .directory) : g.locate = f.locate := by
  refine locate_congr hc (funext fun q => ?_)
  rw [isDirectory, isDirectory, Bool.eq_iff_iff, beq_iff_eq, beq_iff_eq, hd q]

theorem locate_of_node (hc : g.cwd = f.cwd) (hn : g.node = f.node) : g.locate = f.locate :=
  locate_of_directories hc fun q => by rw [hn]

theorem lookup_of_node (hc : g.cwd = f.cwd) (hn : g.node = f.node) : g.lookup = f.lookup := by
  funext path
  rw [lookup, lookup, locate_of_node hc hn, hn]

theorem update_directory {node : Path → Option Node} {n : Option Node}
    (hp : node p ≠ some .directory) (hn : n ≠ some .directory) (q : Path) :
    Function.update node p n q = some .directory ↔ node q = some .directory := by
  rw [Function.update_apply]
  split_ifs with hq
  · exact iff_of_false hn (hq ▸ hp)
  · exact Iff.rfl

theorem locate_update {n : Option Node} (hp : f.node p ≠ some .directory) (hn : n ≠ some .directory)
    (hc : g.cwd = f.cwd) (hg : g.node = Function.update f.node p n) : g.locate = f.locate :=
  locate_of_directories hc fun q => by rw [hg, update_directory hp hn]

/-! ## Deleting -/

theorem deleteFile_run {c : Text} (hp : f.locate path = some p) (hc : f.node p = some (.file c))
    (hr : h.mayRemove path = true) :
    deleteFile h path f = .ok () ((f.drop p).record .delete path) := by
  rw [deleteFile, hp]
  simp only [hc, hr, and_self, if_true]

theorem deleteFile_inv {u : Unit} (hr : deleteFile h path f = .ok u g) : h.mayRemove path = true := by
  unfold deleteFile at hr
  cases hp : f.locate path with
  | none =>
    rw [hp] at hr
    cases hr
  | some p =>
    rw [hp] at hr
    dsimp only at hr
    split_ifs at hr with hmay
    exact hmay.1

theorem drop_alone {c : Text} (hp : f.locate path = some p) (hc : f.node p = some (.file c)) :
    (f.drop p).lookup path = none ∧
      ∀ q, f.locate path ≠ some q → (f.drop p).node q = f.node q := by
  have hnodir : f.node p ≠ some .directory := hc ▸ file_ne_directory c
  have hdrop : (f.drop p).node = Function.update f.node p none :=
    node_drop (not_root_of_node hnodir)
  have hlocate : (f.drop p).locate = f.locate :=
    locate_update hnodir (fun he => by cases he) rfl hdrop
  constructor
  · rw [lookup, hlocate, hp, Option.bind_some, hdrop, Function.update_self]
  · intro q hne
    have hother : q ≠ p := by
      rintro rfl
      exact hne hp
    rw [hdrop, Function.update_of_ne hother]

/-! ## Testing, hashing and reading -/

theorem isValidPath_run (hs : h.statError path = none) :
    isValidPath h path f = .ok (f.lookup path).isSome (f.record .test path) := by
  simp only [isValidPath, hs]

theorem isValidPath_inv {found : Bool} (hr : isValidPath h path f = .ok found g) :
    g = f.record .test path := by
  unfold isValidPath at hr
  split at hr
  · cases hr
  · cases hr
    rfl

theorem calculateMd5Checksum_run {c : Text} (hc : f.content path = some c)
    (hd : h.mayDigest path = true) :
    calculateMd5Checksum h path f = .ok (h.md5 c) (f.record .read path) := by
  simp only [calculateMd5Checksum, hc, hd, if_true]

theorem calculateMd5Checksum_inv {digest : Text} (hr : calculateMd5Checksum h path f = .ok digest g) :
    ∃ c, f.content path = some c ∧ digest = h.md5 c ∧ g = f.record .read path := by
  unfold calculateMd5Checksum at hr
  cases hc : f.content path with
  | none =>
    rw [hc] at hr
    cases hr
  | some c =>
    rw [hc] at hr
    dsimp only at hr
    split_ifs at hr
    cases hr
    exact ⟨c, rfl, rfl, rfl⟩

theorem openRead_run {c : Text} (hc : f.content path = some c) (hr : h.mayRead path = true) :
    openRead h path f = .ok (some c) (f.record .read path) := by
  simp only [openRead, hc, hr, if_true]

theorem openRead_inv {opened : Option Text} (hr : openRead h path f = .ok opened g) :
    opened = (if h.mayRead path then f.content path else none) ∧ g = f.record .read path := by
  injection hr with hopened hg
  exact ⟨hopened.symm, hg.symm⟩

theorem lookup_of_content {c : Text} (hc : f.content path = some c) :
    f.lookup path = some (.file c) := by
  unfold content at hc
  split at hc
  · rename_i hl
    rw [hl, Option.some.inj hc]
  · cases hc

theorem isValidPath_there (hs : h.statError path = none) (hl : (f.lookup path).isSome = true) :
    isValidPath h path f = .ok true (f.record .test path) := by
  rw [isValidPath_run hs, hl]

theorem isValidPath_file {c : Text} (hs : h.statError path = none) (hc : f.content path = some c) :
    isValidPath h path f = .ok true (f.record .test path) :=
  isValidPath_there hs (Option.isSome_of_eq_some (lookup_of_content hc))

theorem isValidPath_missing (hs : h.statError path = none) (hl : f.lookup path = none) :
    isValidPath h path f = .ok false (f.record .test path) := by
  rw [isValidPath_run hs, hl]
  rfl

/-! ## Making a directory -/

structure Makes (h : Host) (f : FileSystem) (path : Text) : Prop where
  allowed : h.mayCreate path = true
  noFile : ∀ p ∈ (f.resolved path).inits, ∀ c, f.node p ≠ some (.file c)
  new : f.node (f.resolved path) = none

theorem isFile_iff {p : Path} : f.isFile p = true ↔ ∃ c, f.node p = some (.file c) := by
  unfold isFile
  split
  · rename_i c hp
    exact iff_of_true rfl ⟨c, hp⟩
  · rename_i hno
    refine iff_of_false Bool.false_ne_true ?_
    rintro ⟨c, hp⟩
    exact hno c hp

theorem createDirectory_iff : (∃ g, createDirectory h path f = .ok true g) ↔ Makes h f path := by
  have hany : ¬ (f.resolved path).inits.any f.isFile ↔
      ∀ p ∈ (f.resolved path).inits, ∀ c, f.node p ≠ some (.file c) := by
    simp only [List.any_eq_true, isFile_iff, not_exists, not_and]
  have hrun : createDirectory h path f =
      if h.mayCreate path ∧ ¬ (f.resolved path).inits.any f.isFile then
      .ok (f.node (f.resolved path)).isNone
        (((f.resolved path).inits.foldl (fun f p => f.store p .directory) f).record .create path)
      else .error (.raised (txt "filesystem error: cannot create directories [" ++ path ++ txt "]"))
        (f.record .create path) := rfl
  rw [hrun]
  by_cases hc : h.mayCreate path ∧ ¬ (f.resolved path).inits.any f.isFile
  · rw [if_pos hc]
    constructor
    · rintro ⟨g, hg⟩
      injection hg with hnone
      exact ⟨hc.1, hany.mp hc.2, Option.isNone_iff_eq_none.mp hnone⟩
    · intro hm
      rw [Option.isNone_iff_eq_none.mpr hm.new]
      exact ⟨_, rfl⟩
  · rw [if_neg hc]
    constructor
    · rintro ⟨g, hg⟩
      cases hg
    · exact fun hm => absurd ⟨hm.allowed, hany.mpr hm.noFile⟩ hc

/-! ## Appending -/

def contentAt (f : FileSystem) (p : Path) : Text :=
  match f.node p with
  | some (.file c) => c
  | _ => []

structure Opens (h : Host) (f : FileSystem) (path : Text) (p : Path) : Prop where
  located : f.locate path = some p
  allowed : h.mayAppend path = true
  noDirectory : f.node p ≠ some .directory

theorem Opens.not_root (ho : Opens h f path p) : p ≠ [] := not_root_of_node ho.noDirectory

theorem openAppend_opens (ho : Opens h f path p) :
    ∃ g, openAppend h path f = .ok (some p) g ∧ g.cwd = f.cwd ∧
      g.accesses = f.accesses ++ [⟨.append, path⟩] ∧
      g.node = Function.update f.node p (some (.file (f.contentAt p))) := by
  have hdir := ho.noDirectory
  unfold openAppend
  rw [ho.located]
  dsimp only
  rw [if_pos ho.allowed]
  cases hn : f.node p with
  | none =>
    refine ⟨_, rfl, rfl, rfl, ?_⟩
    rw [record_node, node_store ho.not_root, contentAt, hn]
  | some n =>
    cases n with
    | directory => exact absurd hn hdir
    | file c =>
      refine ⟨_, rfl, rfl, rfl, ?_⟩
      rw [record_node, contentAt, hn, ← hn, Function.update_eq_self]

theorem openAppend_refused (hno : ∀ p, ¬ Opens h f path p) :
    openAppend h path f = .ok none (f.record .append path) := by
  unfold openAppend
  split
  · rfl
  · rename_i p hp
    by_cases ha : h.mayAppend path = true
    · rw [if_pos ha]
      have hdir : f.node p = some .directory := by
        by_contra hdir
        exact hno p ⟨hp, ha, hdir⟩
      rw [hdir]
    · rw [if_neg ha]

theorem openAppend_returns : Returns (openAppend h path f) := by
  by_cases ho : ∃ p, Opens h f path p
  · obtain ⟨p, hp⟩ := ho
    obtain ⟨g, happend, -⟩ := openAppend_opens hp
    exact ⟨some p, g, happend⟩
  · exact ⟨none, _, openAppend_refused fun p hp => ho ⟨p, hp⟩⟩

theorem writeEnd_file {c : Text} (hp : f.node p = some (.file c)) (bs : Text) :
    ∃ g, writeEnd p bs f = .ok () g ∧ g.cwd = f.cwd ∧ g.accesses = f.accesses ∧
      g.node = Function.update f.node p (some (.file (c ++ bs))) := by
  have hroot : p ≠ [] := not_root_of_node (hp ▸ file_ne_directory c)
  refine ⟨f.store p (.file (c ++ bs)), ?_, rfl, rfl, node_store hroot _⟩
  unfold writeEnd
  rw [hp]

theorem streamWrite_exact {c : Text} {payload : Option Text} {size : ℕ}
    (hb : (payload.getD []).length = size) (hp : f.node p = some (.file c)) :
    ∃ g, streamWrite p payload size f = .ok () g ∧ g.cwd = f.cwd ∧ g.accesses = f.accesses ∧
      g.node = Function.update f.node p (some (.file (c ++ payload.getD []))) := by
  unfold streamWrite
  by_cases h0 : size = 0
  · rw [h0, List.length_eq_zero_iff] at hb
    refine ⟨f, by rw [if_pos h0]; rfl, rfl, rfl, ?_⟩
    rw [hb, List.append_nil, ← hp, Function.update_eq_self]
  · rw [if_neg h0]
    cases payload with
    | none => exact absurd hb.symm h0
    | some bytes =>
      rw [Option.getD_some] at hb ⊢
      dsimp only
      rw [← hb, if_neg (lt_irrefl _), List.take_length]
      exact writeEnd_file hp bytes

theorem content_of_node {c : Text} (hl : f.locate path = some p) (hn : f.node p = some (.file c)) :
    f.content path = some c := by
  rw [content, lookup, hl, Option.bind_some, hn]

theorem content_inv {c : Text} (hc : f.content path = some c) :
    ∃ p, f.locate path = some p ∧ f.node p = some (.file c) := by
  unfold content lookup at hc
  cases hl : f.locate path with
  | none =>
    rw [hl] at hc
    cases hc
  | some p =>
    rw [hl, Option.bind_some] at hc
    split at hc
    · rename_i c' hn
      cases hc
      exact ⟨p, rfl, hn⟩
    · cases hc

theorem Opens.content (ho : Opens h f path p) {c : Text} (hc : g.cwd = f.cwd)
    (hn : g.node = Function.update f.node p (some (.file c))) :
    g.locate = f.locate ∧ g.content path = some c := by
  have hl := locate_update ho.noDirectory (file_ne_directory c) hc hn
  refine ⟨hl, content_of_node (by rw [hl]; exact ho.located) ?_⟩
  rw [hn, Function.update_self]

/-! ## Renaming -/

structure Renames (h : Host) (f : FileSystem) (oldPath newPath : Text) (q : Path) : Prop where
  located : f.locate newPath = some q
  allowed : h.mayRename oldPath newPath = true
  noDirectory : f.node q ≠ some .directory

variable {oldPath newPath : Text} {c : Text}

theorem renameReplacing_moves (hp : f.locate oldPath = some p) (hc : f.node p = some (.file c))
    (hr : Renames h f oldPath newPath q) :
    ∃ what g, renameReplacing h oldPath newPath f = .error (.raised what) g ∧ g.cwd = f.cwd ∧
      g.accesses = f.accesses ++ [⟨.rename, oldPath⟩, ⟨.rename, newPath⟩] ∧
      g.node = Function.update (Function.update f.node p none) q (some (.file c)) := by
  have hp' : p ≠ [] := not_root_of_node (hc ▸ file_ne_directory c)
  have hrename : f.rename h oldPath newPath = some ((f.drop p).store q (.file c)) := by
    unfold rename
    rw [hp, hr.located]
    dsimp only
    rw [hc]
    exact if_pos ⟨hr.allowed, hr.noDirectory⟩
  have hrun : renameReplacing h oldPath newPath f =
      .error (.raised (txt "[UTILS] Could nome rename file " ++ oldPath))
        (((f.drop p).store q (.file c)).record .rename oldPath |>.record .rename newPath) := by
    rw [renameReplacing, hrename]
  refine ⟨_, _, hrun, rfl, ?_, ?_⟩
  · exact List.append_assoc f.accesses _ _
  · rw [record_node, record_node, node_store (not_root_of_node hr.noDirectory), node_drop hp']

theorem renameReplacing_accesses (h : Host) (f : FileSystem) (oldPath newPath : Text) :
    (final (renameReplacing h oldPath newPath f)).accesses =
      f.accesses ++ [⟨.rename, oldPath⟩, ⟨.rename, newPath⟩] := by
  unfold renameReplacing
  cases hr : f.rename h oldPath newPath with
  | none => exact List.append_assoc f.accesses _ _
  | some g =>
    rw [← (rename_record hr).1]
    exact List.append_assoc g.accesses _ _

theorem renameReplacing_unmoved (hno : ∀ p q c, f.locate oldPath = some p → f.node p = some (.file c) →
    ¬ Renames h f oldPath newPath q) :
    renameReplacing h oldPath newPath f =
      .ok () ((f.record .rename oldPath).record .rename newPath) := by
  have hrename : f.rename h oldPath newPath = none := by
    unfold rename
    split
    · rename_i p q hp hq
      split
      · rename_i c hc
        exact if_neg fun hr => hno p q c hp hc ⟨hq, hr.1, hr.2⟩
      · rfl
    · rfl
  rw [renameReplacing, hrename]

theorem renameReplacing_stays (hno : ∀ q, ¬ Renames h f oldPath newPath q) :
    renameReplacing h oldPath newPath f =
      .ok () ((f.record .rename oldPath).record .rename newPath) :=
  renameReplacing_unmoved fun _ q _ _ _ => hno q

/-! ## A path with something behind it -/

theorem splitOn_extend (s : Text) :
    ∃ init last, s.splitOn slash = init ++ [last] ∧ slash ∉ last ∧ last ⊆ s ∧
      ∀ t, slash ∉ t → (s ++ t).splitOn slash = init ++ [last ++ t] := by
  induction s with
  | nil =>
    exact ⟨[], [], rfl, List.not_mem_nil, List.Subset.refl _, fun t ht => List.splitOn_eq_singleton ht⟩
  | cons c s ih =>
    obtain ⟨init, last, hs, hslash, hsub, ht⟩ := ih
    by_cases hc : c = slash
    · subst hc
      have hb := beq_self_eq_true slash
      refine ⟨[] :: init, last, ?_, hslash, List.subset_cons_of_subset _ hsub, fun t htslash => ?_⟩
      · rw [List.splitOn_cons_eq_if_modifyHead, if_pos hb, hs, List.cons_append]
      · rw [List.cons_append, List.splitOn_cons_eq_if_modifyHead, if_pos hb,
          ht t htslash, List.cons_append]
    have hb : ¬ (c == slash) = true := by rwa [beq_iff_eq]
    cases init with
    | nil =>
      refine ⟨[], c :: last, ?_, ?_, List.cons_subset_cons c hsub, fun t htslash => ?_⟩
      · rw [List.splitOn_cons_eq_if_modifyHead, if_neg hb, hs]
        rfl
      · rw [List.mem_cons, not_or]
        exact ⟨Ne.symm hc, hslash⟩
      · rw [List.cons_append, List.splitOn_cons_eq_if_modifyHead, if_neg hb, ht t htslash]
        rfl
    | cons i init =>
      refine ⟨(c :: i) :: init, last, ?_, hslash,
        List.subset_cons_of_subset _ hsub, fun t htslash => ?_⟩
      · rw [List.splitOn_cons_eq_if_modifyHead, if_neg hb, hs]
        rfl
      · rw [List.cons_append, List.splitOn_cons_eq_if_modifyHead, if_neg hb, ht t htslash]
        rfl

structure IsSuffix (t : Text) : Prop where
  long : 2 < t.length
  noSlash : slash ∉ t
  noNul : nul ∉ t

theorem isName_extend {last t : Text} (ht : IsSuffix t) (hs : slash ∉ last) (hn : nul ∉ last) :
    IsName (last ++ t) := by
  have hlong := ht.long
  have hlen : 2 < (last ++ t).length := by
    rw [List.length_append]
    omega
  have hother : ∀ s : Text, s.length ≤ 2 → last ++ t ≠ s := by
    rintro s hs rfl
    omega
  refine ⟨hother _ (by decide), hother _ (by decide), hother _ (by decide), ?_, ?_⟩
  · rw [List.mem_append, not_or]
    exact ⟨hs, ht.noSlash⟩
  · rw [List.mem_append, not_or]
    exact ⟨hn, ht.noNul⟩

theorem stepsOf_extend {t : Text} (ht : IsSuffix t) (hn : nul ∉ path) :
    ∃ init s name, s ≠ .down name ∧ stepsOf path = init ++ [s] ∧
      stepsOf (path ++ t) = init ++ [.down name] := by
  obtain ⟨init, last, hs, hslash, hsub, hext⟩ := splitOn_extend path
  have hall : nul ∉ path ++ t := by
    rw [List.mem_append, not_or]
    exact ⟨hn, ht.noNul⟩
  have hname := isName_extend ht hslash fun hm => hn (hsub hm)
  refine ⟨init.map stepOf, stepOf last, ⟨last ++ t, hname⟩, ?_, ?_, ?_⟩
  · intro he
    unfold stepOf at he
    split_ifs at he with hd
    have htext : last = last ++ t := congrArg Subtype.val (PathStep.down.inj he)
    have hlen := congrArg List.length htext
    have hlong := ht.long
    rw [List.length_append] at hlen
    omega
  · rw [stepsOf, cstr_eq hn, hs, List.map_append, List.map_singleton]
  · rw [stepsOf, cstr_eq hall, hext t ht.noSlash, List.map_append, List.map_singleton]
    congr 2
    exact stepOf_name ⟨last ++ t, hname⟩

theorem locate_extend {t : Text} (ht : IsSuffix t) (hn : nul ∉ path) (hne : path ≠ [])
    (hp : f.locate (path ++ t) = some p) : ∃ q, f.locate path = some q ∧ q ≠ p := by
  obtain ⟨init, s, name, hs, hpath, hlong⟩ := stepsOf_extend ht hn
  have hall : nul ∉ path ++ t := by
    rw [List.mem_append, not_or]
    exact ⟨hn, ht.noNul⟩
  rw [locate, cstr_eq hall, if_neg (by simp [hne]), hlong, startOf_append hne hn ht.noNul] at hp
  obtain ⟨r, hr, hdir, rfl⟩ := PathStep.walk_concat hp
  refine ⟨PathStep.follow r s, ?_, PathStep.follow_ne_down hs⟩
  rw [locate, cstr_eq hn, if_neg hne, hpath, PathStep.walk_append, hr, Option.bind_some, PathStep.walk,
    if_pos hdir, PathStep.walk]

end FileSystem

end SyncWizard.Common
