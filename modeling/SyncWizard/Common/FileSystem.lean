import Mathlib.Data.List.AList
import Mathlib.Data.List.Infix
import SyncWizard.Common.FileStream
import SyncWizard.Common.Host
import SyncWizard.Foundation.LexicalPath

/-! The file system of one machine and the calls the programs make on it. A path is looked up
the way the kernel does it, one directory after the other; symbolic links and changes made by
other programs are left out. Every call leaves the path it was given in `accesses`, which no
program reads. -/

namespace SyncWizard.Common
open Foundation

def slash : Byte := 47

def IsName (s : Text) : Prop :=
  s ≠ [] ∧ s ≠ txt "." ∧ s ≠ txt ".." ∧ slash ∉ s ∧ nul ∉ s

instance (s : Text) : Decidable (IsName s) :=
  inferInstanceAs (Decidable (s ≠ [] ∧ s ≠ txt "." ∧ s ≠ txt ".." ∧ slash ∉ s ∧ nul ∉ s))

def Name := {s : Text // IsName s}

instance : DecidableEq Name := inferInstanceAs (DecidableEq {s : Text // IsName s})

abbrev Path := List Name

inductive Node where
  | file (content : Text)
  | directory
  deriving DecidableEq, Repr

inductive AccessKind where
  | test
  | read
  | append
  | rename
  | delete
  | list
  | create
  deriving DecidableEq, Repr

structure Access where
  kind : AccessKind
  path : Text
  deriving DecidableEq, Repr

structure FileSystem where
  cwd : Path
  nodes : AList fun _ : Path => Node
  accesses : List Access

def temporarySuffix : Text := txt ".swizdownload"

def cstr (s : Text) : Text := s.takeWhile (· != nul)

def stepOf (segment : Text) : PathStep Name :=
  if h : IsName segment then .down ⟨segment, h⟩
  else if segment = txt ".." then .up
  else .stay

def stepsOf (path : Text) : List (PathStep Name) := ((cstr path).splitOn slash).map stepOf

namespace FileSystem

def node (f : FileSystem) (p : Path) : Option Node :=
  if p = [] then some .directory else f.nodes.lookup p

def isDirectory (f : FileSystem) (p : Path) : Bool := f.node p == some .directory

def isFile (f : FileSystem) (p : Path) : Bool :=
  match f.node p with
  | some (.file _) => true
  | _ => false

def startOf (f : FileSystem) (path : Text) : Path :=
  if (cstr path).head? = some slash then [] else f.cwd

def resolved (f : FileSystem) (path : Text) : Path := PathStep.resolve (f.startOf path) (stepsOf path)

/-- Where the kernel finds a path, or would create its last entry. -/
def locate (f : FileSystem) (path : Text) : Option Path :=
  if cstr path = [] then none else PathStep.walk f.isDirectory (f.startOf path) (stepsOf path)

def lookup (f : FileSystem) (path : Text) : Option Node := (f.locate path).bind f.node

def content (f : FileSystem) (path : Text) : Option Text :=
  match f.lookup path with
  | some (.file c) => some c
  | _ => none

def record (f : FileSystem) (kind : AccessKind) (path : Text) : FileSystem :=
  { f with accesses := f.accesses ++ [⟨kind, path⟩] }

def store (f : FileSystem) (p : Path) (n : Node) : FileSystem := { f with nodes := f.nodes.insert p n }

def drop (f : FileSystem) (p : Path) : FileSystem := { f with nodes := f.nodes.erase p }

def children (f : FileSystem) (p : Path) : List (Name × Node) :=
  f.nodes.entries.filterMap fun e =>
    match e.1.getLast? with
    | some name => if e.1.dropLast = p then some (name, e.2) else none
    | none => none

/-- `std::rename` of a file; the programs rename nothing else. -/
def rename (f : FileSystem) (h : Host) (oldPath newPath : Text) : Option FileSystem :=
  match f.locate oldPath, f.locate newPath with
  | some p, some q =>
    match f.node p with
    | some (.file c) =>
      if h.mayRename oldPath newPath ∧ f.node q ≠ some .directory then
        some ((f.drop p).store q (.file c))
      else none
    | _ => none
  | _, _ => none

end FileSystem

section Calls
variable (h : Host)

def isValidPath (path : Text) : Exec FileSystem Bool := fun f =>
  match h.statError path with
  | some what => .error (.raised what) (f.record .test path)
  | none => .ok (f.lookup path).isSome (f.record .test path)

def openAppend (path : Text) : Exec FileSystem (Option Path) := fun f =>
  match f.locate path with
  | none => .ok none (f.record .append path)
  | some p =>
    if h.mayAppend path then
      match f.node p with
      | some .directory => .ok none (f.record .append path)
      | some (.file _) => .ok (some p) (f.record .append path)
      | none => .ok (some p) ((f.store p (.file [])).record .append path)
    else .ok none (f.record .append path)

def writeEnd (p : Path) (bs : Text) : Exec FileSystem Unit := fun f =>
  match f.node p with
  | some (.file c) => .ok () (f.store p (.file (c ++ bs)))
  | _ => .ok () f

/-- `write(payload, size)` on such a stream. From a null pointer nothing is written: what the stream's
buffer has no room for is given to the kernel, which refuses it. -/
def streamWrite (p : Path) (payload : Option Text) (size : ℕ) : Exec FileSystem Unit :=
  if size = 0 then pure ()
  else
    match payload with
    | none => if size < streamBuffer then crash .nullRead else pure ()
    | some bytes => if bytes.length < size then crash .outOfBounds else writeEnd p (bytes.take size)

def calculateMd5Checksum (path : Text) : Exec FileSystem Text := fun f =>
  match f.content path with
  | some c =>
    -- Crypto++ throws on what it cannot read
    if h.mayDigest path then .ok (h.md5 c) (f.record .read path)
    else .error (.raised (txt "FileStore: error opening file for reading: " ++ path))
      (f.record .read path)
  | none => .error (.raised (txt "FileStore: error opening file for reading: " ++ path))
      (f.record .read path)

def openRead (path : Text) : Exec FileSystem (Option Text) := fun f =>
  .ok (if h.mayRead path then f.content path else none) (f.record .read path)

def deleteFile (path : Text) : Exec FileSystem Unit := fun f =>
  match f.locate path with
  | some p =>
    let removable : Bool := match f.node p with
      | some (.file _) => true
      | some .directory => p ≠ [] ∧ f.children p = []
      | none => false
    if h.mayRemove path ∧ removable then .ok () ((f.drop p).record .delete path)
    else .error (.raised (txt "Could not delete file!")) (f.record .delete path)
  | none => .error (.raised (txt "Could not delete file!")) (f.record .delete path)

def renameReplacing (oldPath newPath : Text) : Exec FileSystem Unit := fun f =>
  match f.rename h oldPath newPath with
  -- the exception is on the wrong side of the test
  | some f' => .error (.raised (txt "[UTILS] Could nome rename file " ++ oldPath))
      ((f'.record .rename oldPath).record .rename newPath)
  | none => .ok () ((f.record .rename oldPath).record .rename newPath)

def listDirectory (path : Text) : Exec FileSystem (Option (List (Name × Node))) := fun f =>
  match f.locate path with
  | some p => .ok (if h.mayList path ∧ f.isDirectory p then some (f.children p) else none)
      (f.record .list path)
  | none => .ok none (f.record .list path)

def lstat (path : Text) : Exec FileSystem Bool := fun f =>
  .ok (f.lookup path).isSome (f.record .list path)

def createDirectory (path : Text) : Exec FileSystem Bool := fun f =>
  let target := f.resolved path
  if h.mayCreate path ∧ ¬ target.inits.any f.isFile then
    -- the answer is whether the last directory is a new one
    .ok (f.node target).isNone
      ((target.inits.foldl (fun f p => f.store p .directory) f).record .create path)
  else .error (.raised (txt "filesystem error: cannot create directories [" ++ path ++ txt "]"))
    (f.record .create path)

end Calls

/-! ## What a call leaves alone -/

/-- `f'` is `f` after calls on paths in `S` only. -/
def Touched (S : Access → Prop) (f f' : FileSystem) : Prop :=
  f'.cwd = f.cwd ∧ ∃ new, f'.accesses = f.accesses ++ new ∧ ∀ a ∈ new, S a

section Touching
variable {h : Host} {S : Access → Prop}

instance : Std.Refl (Touched S) := ⟨fun _ => ⟨rfl, [], (List.append_nil _).symm, fun _ h => nomatch h⟩⟩

instance : IsTrans FileSystem (Touched S) := ⟨by
  rintro f g k ⟨hc, as, hg, has⟩ ⟨hc', bs, hk, hbs⟩
  refine ⟨hc'.trans hc, as ++ bs, by rw [hk, hg, List.append_assoc], fun a ha => ?_⟩
  rcases List.mem_append.mp ha with ha | ha
  exacts [has a ha, hbs a ha]⟩

theorem touched_record (f : FileSystem) {kind : AccessKind} {path : Text} (hS : S ⟨kind, path⟩) :
    Touched S f (f.record kind path) :=
  ⟨rfl, _, rfl, fun _ ha => List.mem_singleton.mp ha ▸ hS⟩

theorem isValidPath_kept {path : Text} (hS : S ⟨.test, path⟩) :
    Kept (Touched S) (isValidPath h path) := by
  intro f
  unfold isValidPath
  split <;> exact touched_record f hS

theorem openAppend_kept {path : Text} (hS : S ⟨.append, path⟩) :
    Kept (Touched S) (openAppend h path) := by
  intro f
  unfold openAppend
  split
  · exact touched_record f hS
  · split_ifs
    · split <;> exact touched_record f hS
    · exact touched_record f hS

theorem writeEnd_kept (p : Path) (bs : Text) : Kept (Touched S) (writeEnd p bs) := by
  intro f
  unfold writeEnd
  split
  · exact ⟨rfl, [], (List.append_nil _).symm, fun _ h => nomatch h⟩
  · exact refl_of _ f

theorem streamWrite_kept (p : Path) (payload : Option Text) (size : ℕ) :
    Kept (Touched S) (streamWrite p payload size) := by
  unfold streamWrite
  split
  · exact Kept.pure _
  · split
    · split
      exacts [Kept.crash _, Kept.pure _]
    · split
      exacts [Kept.crash _, writeEnd_kept _ _]

theorem calculateMd5Checksum_kept {path : Text} (hS : S ⟨.read, path⟩) :
    Kept (Touched S) (calculateMd5Checksum h path) := by
  intro f
  unfold calculateMd5Checksum
  split
  · split_ifs <;> exact touched_record f hS
  · exact touched_record f hS

theorem openRead_kept {path : Text} (hS : S ⟨.read, path⟩) : Kept (Touched S) (openRead h path) :=
  fun f => touched_record f hS

theorem deleteFile_kept {path : Text} (hS : S ⟨.delete, path⟩) :
    Kept (Touched S) (deleteFile h path) := by
  intro f
  unfold deleteFile
  split
  · dsimp only
    split_ifs <;> exact touched_record f hS
  · exact touched_record f hS

theorem rename_record {f f' : FileSystem} {oldPath newPath : Text}
    (hr : f.rename h oldPath newPath = some f') : f'.accesses = f.accesses ∧ f'.cwd = f.cwd := by
  unfold FileSystem.rename at hr
  split at hr
  · split at hr
    · split_ifs at hr
      cases hr
      exact ⟨rfl, rfl⟩
    · cases hr
  · cases hr

theorem renameReplacing_kept {oldPath newPath : Text} (hold : S ⟨.rename, oldPath⟩)
    (hnew : S ⟨.rename, newPath⟩) : Kept (Touched S) (renameReplacing h oldPath newPath) := by
  intro f
  unfold renameReplacing
  cases hr : f.rename h oldPath newPath with
  | none => exact trans_of _ (touched_record f hold) (touched_record _ hnew)
  | some f' =>
    obtain ⟨haccesses, hcwd⟩ := rename_record hr
    have hsame : Touched S f f' := ⟨hcwd, [], by rw [haccesses, List.append_nil], fun _ h => nomatch h⟩
    exact trans_of _ hsame (trans_of _ (touched_record f' hold) (touched_record _ hnew))

theorem listDirectory_kept {path : Text} (hS : S ⟨.list, path⟩) :
    Kept (Touched S) (listDirectory h path) := by
  intro f
  unfold listDirectory
  split <;> exact touched_record f hS

theorem lstat_kept {path : Text} (hS : S ⟨.list, path⟩) : Kept (Touched S) (lstat path) :=
  fun f => touched_record f hS

end Touching

/-! ## Looking paths up -/

namespace FileSystem
variable {f : FileSystem}

@[simp] theorem record_node (kind : AccessKind) (path : Text) :
  (f.record kind path).node = f.node := rfl

@[simp] theorem record_locate (kind : AccessKind) (path : Text) :
    (f.record kind path).locate = f.locate := rfl

@[simp] theorem record_lookup (kind : AccessKind) (path : Text) :
    (f.record kind path).lookup = f.lookup := rfl

theorem store_node {p : Path} (hp : p ≠ []) (n : Node) (q : Path) :
    (f.store p n).node q = if q = p then some n else f.node q := by
  unfold store node
  by_cases hq : q = p
  · subst hq
    rw [if_neg hp, AList.lookup_insert, if_pos rfl]
  · rw [AList.lookup_insert_ne hq, if_neg hq]

theorem drop_node {p : Path} (hp : p ≠ []) (q : Path) :
    (f.drop p).node q = if q = p then none else f.node q := by
  unfold drop node
  by_cases hq : q = p
  · subst hq
    rw [if_neg hp, AList.lookup_erase, if_pos rfl]
  · rw [AList.lookup_erase_ne hq, if_neg hq]

theorem node_nil : f.node [] = some .directory := if_pos rfl

theorem mem_children {p : Path} {name : Name} {n : Node} (h : (name, n) ∈ f.children p) :
    f.node (p ++ [name]) = some n := by
  obtain ⟨⟨q, m⟩, hmem, he⟩ := List.mem_filterMap.mp h
  dsimp only at he
  split at he
  · rename_i last hlast
    split_ifs at he with hdrop
    obtain ⟨rfl, rfl⟩ := Prod.mk.inj (Option.some.inj he)
    have hq : q = p ++ [last] := by
      rw [← hdrop]
      exact (List.dropLast_append_getLast? last hlast).symm
    subst hq
    rw [node, if_neg (List.append_ne_nil_of_right_ne_nil _ (List.cons_ne_nil _ _))]
    exact AList.mem_lookup_iff.mpr hmem
  · cases he

/-! ## Longer paths -/

theorem cstr_eq {s : Text} (h : nul ∉ s) : cstr s = s := takeWhile_ne_nul h

theorem stepOf_name (name : Name) : stepOf name.1 = .down name := dif_pos name.2

theorem startOf_append {path : Text} (hne : path ≠ []) (hn : nul ∉ path)
    {rest : Text} (hr : nul ∉ rest) :
    f.startOf (path ++ rest) = f.startOf path := by
  have hall : nul ∉ path ++ rest := by
    rw [List.mem_append, not_or]
    exact ⟨hn, hr⟩
  rw [startOf, startOf, cstr_eq hall, cstr_eq hn, List.head?_append_of_ne_nil path hne]

theorem stepsOf_child {path : Text} (hn : nul ∉ path) (name : Name) :
    stepsOf (path ++ slash :: name.1) = stepsOf path ++ [.down name] := by
  have hall : nul ∉ path ++ slash :: name.1 := by
    rw [List.mem_append, List.mem_cons, not_or, not_or]
    exact ⟨hn, by decide, name.2.2.2.2.2⟩
  rw [stepsOf, stepsOf, cstr_eq hall, cstr_eq hn, List.splitOn_append_cons_self, List.map_append,
    List.splitOn_eq_singleton name.2.2.2.2.1, List.map_singleton, stepOf_name]

theorem locate_child {path : Text} (hn : nul ∉ path) {p : Path}
    (hp : f.locate path = some p) (name : Name) :
    f.locate (path ++ slash :: name.1) = if f.isDirectory p then some (p ++ [name]) else none := by
  have hne : path ≠ [] := by
    rintro rfl
    cases hp
  have hslash : nul ∉ slash :: name.1 := by
    rw [List.mem_cons, not_or]
    exact ⟨by decide, name.2.2.2.2.2⟩
  have hall : nul ∉ path ++ slash :: name.1 := by
    rw [List.mem_append, not_or]
    exact ⟨hn, hslash⟩
  rw [locate, cstr_eq hn, if_neg hne] at hp
  rw [locate, cstr_eq hall, if_neg (by simp [hne]), startOf_append hne hn hslash, stepsOf_child hn,
    PathStep.walk_append, hp]
  rfl

theorem lookup_below_file {path : Text} (hn : nul ∉ path) {p : Path} (hp : f.locate path = some p)
    {name : Name} {c : Text} (hmem : (name, .file c) ∈ f.children p) (other : Name) :
    f.lookup (path ++ slash :: name.1 ++ slash :: other.1) = none := by
  have hfile := mem_children hmem
  have hall : nul ∉ path ++ slash :: name.1 := by
    rw [List.mem_append, List.mem_cons, not_or, not_or]
    exact ⟨hn, by decide, name.2.2.2.2.2⟩
  have hchild := locate_child hn hp name
  by_cases hd : f.isDirectory p
  · rw [if_pos hd] at hchild
    have hnot : f.isDirectory (p ++ [name]) = false := by
      rw [isDirectory, hfile]
      rfl
    rw [lookup, locate_child hall hchild, hnot]
    rfl
  · rw [if_neg hd] at hchild
    rw [lookup, locate]
    rw [locate] at hchild
    split_ifs at hchild with hempty
    · rw [cstr_eq hall] at hempty
      simp at hempty
    have hmore : nul ∉ slash :: other.1 := by
      rw [List.mem_cons, not_or]
      exact ⟨by decide, other.2.2.2.2.2⟩
    split_ifs
    · rfl
    rw [startOf_append (by simp) hall hmore, stepsOf_child hall, PathStep.walk_append, hchild]
    rfl

end FileSystem

end SyncWizard.Common
