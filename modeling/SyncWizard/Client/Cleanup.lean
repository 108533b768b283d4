import Mathlib.Algebra.Order.Group.Nat
import SyncWizard.Client.State
import SyncWizard.Common.Storage

/-! The removal of the temporaries that earlier downloads left behind, as a recursion over the
folders below one. The number of them is an `int`. -/

namespace SyncWizard.Client
open Foundation Common

def dot : Byte := 46

def extension (name : Text) : Text :=
  let stem := name.length - ((name.reverse.takeWhile (· != dot)).length + 1)
  if stem = 0 then [] else name.drop stem

def entryPath (directory : Text) (name : Name) : Text :=
  if directory.getLast? = some slash then directory ++ name.1 else directory ++ slash :: name.1

def addInt (a b : ℤ) : ℤ := (a + b).bmod (2 ^ 32)

section Calls
variable (h : Host)

def status (path : Text) : Exec FileSystem (Option Node) := fun f =>
  match h.statError path with
  | some what => .error (.raised what) (f.record .test path)
  | none => .ok (f.lookup path) (f.record .test path)

def isRegularFile (path : Text) : Exec FileSystem Bool := do
  match ← status h path with
  | some (.file _) => pure true
  | _ => pure false

def isDirectory (path : Text) : Exec FileSystem Bool := do
  match ← status h path with
  | some .directory => pure true
  | _ => pure false

def removeFile (path : Text) : Exec FileSystem Unit := fun f =>
  match f.locate path with
  | some p =>
    if h.mayRemove path && f.isFile p then .ok () ((f.drop p).record .delete path)
    else .error (.raised (txt "filesystem error: cannot remove [" ++ path ++ txt "]"))
      (f.record .delete path)
  | none => .ok () (f.record .delete path)

def cleanEntry (clean : Text → Exec FileSystem ℤ) (directory : Text) (name : Name)
    (deletedFiles : ℤ) : Exec FileSystem ℤ := do
  let path := entryPath directory name
  if (← isRegularFile h path) && extension name.1 = temporarySuffix then do
    removeFile h path
    pure (addInt deletedFiles 1)
  else if ← isDirectory h path then do
    let deletedFilesSubfolder ← clean path
    pure (if 0 < deletedFilesSubfolder then addInt deletedFiles deletedFilesSubfolder
      else deletedFiles)
  else pure deletedFiles

def cleanEntries (clean : Text → Exec FileSystem ℤ) (directory : Text) :
    List (Name × Node) → ℤ → Exec FileSystem ℤ
  | [], deletedFiles => pure deletedFiles
  | entry :: entries, deletedFiles => do
    let deletedFiles ← cleanEntry h clean directory entry.1 deletedFiles
    cleanEntries clean directory entries deletedFiles

def cleanWithin : ℕ → Text → Exec FileSystem ℤ
  | 0, _ => crash .hang
  | depth + 1, directory => do
    if ← isDirectory h directory then
      if ← isValidPath h directory then
        match ← listDirectory h directory with
        | some entries => cleanEntries h (cleanWithin depth) directory entries 0
        | none => raise (txt "filesystem error: directory iterator cannot open directory: ["
            ++ directory ++ txt "]")
      else pure (-1)
    else pure (-1)

def longestPath (f : FileSystem) : ℕ := (f.nodes.keys.map List.length).foldr max 0

def deleteTemporaryDownloadFiles (directory : Text) : ClientExec ℤ := do
  onFiles (cleanWithin h (longestPath (← get).files + 1) directory)

end Calls

/-! ## Names -/

section Names
variable {name stem : Text}

theorem extension_eq (hstem : stem ≠ []) {rest : Text} (hrest : dot ∉ rest) :
    extension (stem ++ dot :: rest) = dot :: rest := by
  have hlast : (stem ++ dot :: rest).reverse.takeWhile (· != dot) = rest.reverse := by
    have hall : ∀ c ∈ rest.reverse, (c != dot) = true := by
      intro c hc
      rw [bne_iff_ne]
      rintro rfl
      exact hrest (List.mem_reverse.mp hc)
    rw [List.reverse_append, List.reverse_cons, List.append_assoc, List.takeWhile_append_of_pos hall,
      List.singleton_append, List.takeWhile_cons_of_neg (by simp), List.append_nil]
  have hlength : (stem ++ dot :: rest).length - (rest.reverse.length + 1) = stem.length := by
    rw [List.length_append, List.length_cons, List.length_reverse, Nat.add_sub_cancel]
  rw [extension, hlast, hlength, if_neg (List.length_pos_iff.mpr hstem).ne', List.drop_left]

theorem extension_cases (name : Text) : extension name = [] ∨
    ∃ stem, stem ≠ [] ∧ name = stem ++ extension name := by
  unfold extension
  dsimp only
  split_ifs with hstem
  · exact .inl rfl
  · refine .inr ⟨name.take _, fun hnil => hstem ?_, (List.take_append_drop _ name).symm⟩
    have hshort := congrArg List.length hnil
    rw [List.length_take, List.length_nil] at hshort
    omega

theorem extension_temporary :
    extension name = temporarySuffix ↔ ∃ stem, stem ≠ [] ∧ name = stem ++ temporarySuffix := by
  constructor
  · intro he
    rcases extension_cases name with hnil | ⟨stem, hstem, hname⟩
    · rw [hnil] at he
      exact absurd he (by decide)
    · exact ⟨stem, hstem, he ▸ hname⟩
  · rintro ⟨stem, hstem, rfl⟩
    exact extension_eq hstem (by decide)

example : extension (txt "memo.txt.swizdownload") = temporarySuffix := by decide

example : extension (txt ".swizdownload") = [] := by decide

end Names

/-! ## Calls -/

section Runs
variable {h : Host} {f : FileSystem} {path directory : Text} {p : Path}

theorem isRegularFile_run (hs : h.statError path = none) :
    isRegularFile h path f =
      .ok (match f.lookup path with | some (.file _) => true | _ => false) (f.record .test path) := by
  have hstatus : status h path f = .ok (f.lookup path) (f.record .test path) := by
    simp only [status, hs]
  rw [isRegularFile, run_bind_ok hstatus]
  cases f.lookup path with
  | none => rfl
  | some node => cases node <;> rfl

theorem isDirectory_run (hs : h.statError path = none) :
    isDirectory h path f = .ok (f.lookup path == some .directory) (f.record .test path) := by
  have hstatus : status h path f = .ok (f.lookup path) (f.record .test path) := by
    simp only [status, hs]
  rw [isDirectory, run_bind_ok hstatus]
  cases f.lookup path with
  | none => rfl
  | some node => cases node <;> rfl

theorem removeFile_run (hr : h.mayRemove path = true) (hp : f.locate path = some p)
    (hf : f.isFile p = true) :
    removeFile h path f = .ok () ((f.drop p).record .delete path) := by
  simp only [removeFile, hp, hr, hf, Bool.and_self, if_true]

theorem entryPath_prefix (directory : Text) (name : Name) : directory <+: entryPath directory name := by
  unfold entryPath
  split_ifs
  · exact List.prefix_append _ _
  · exact List.prefix_append _ _

theorem entryPath_noNul (hn : nul ∉ directory) (name : Name) : nul ∉ entryPath directory name := by
  unfold entryPath
  split_ifs
  · rw [List.mem_append, not_or]
    exact ⟨hn, name.2.2.2.2.2⟩
  · rw [List.mem_append, List.mem_cons, not_or, not_or]
    exact ⟨hn, by decide, name.2.2.2.2.2⟩

theorem locate_entryPath (hn : nul ∉ directory) (hp : f.locate directory = some p)
    (hd : f.isDirectory p = true) (name : Name) :
    f.locate (entryPath directory name) = some (p ++ [name]) := by
  unfold entryPath
  split_ifs with hslash
  · obtain ⟨parent, rfl⟩ : ∃ parent, directory = parent ++ [slash] :=
      ⟨directory.dropLast, (List.dropLast_append_getLast? slash hslash).symm⟩
    have hparent : nul ∉ parent := fun hmem => hn (List.mem_append_left _ hmem)
    have hname : nul ∉ name.1 := name.2.2.2.2.2
    have hall : nul ∉ parent ++ [slash] ++ name.1 := by
      rw [List.mem_append, not_or]
      exact ⟨hn, hname⟩
    have hne : parent ++ [slash] ≠ [] := List.append_ne_nil_of_right_ne_nil _ (List.cons_ne_nil _ _)
    have hsteps : stepsOf (parent ++ [slash]) = stepsOf parent ++ [.stay] := by
      rw [stepsOf, stepsOf, FileSystem.cstr_eq hn, FileSystem.cstr_eq hparent,
        List.splitOn_append_cons_self, List.map_append]
      rfl
    rw [FileSystem.locate, FileSystem.cstr_eq hn, if_neg hne, hsteps] at hp
    obtain ⟨r, hr, hdir, rfl⟩ := PathStep.walk_concat hp
    rw [FileSystem.locate, FileSystem.cstr_eq hall, if_neg (List.append_ne_nil_of_left_ne_nil hne _),
      FileSystem.startOf_append hne hn hname, List.append_assoc, List.singleton_append,
      FileSystem.stepsOf_child hparent, PathStep.walk_append, hr, Option.bind_some, PathStep.walk,
      if_pos hdir]
    rfl
  · rw [FileSystem.locate_child hn hp, if_pos hd]

/-! ## One entry -/

section Entries
variable {clean : Text → Exec FileSystem ℤ} {name : Name} {deleted : ℤ} {c : Text}
  (hs : h.statError (entryPath directory name) = none)
include hs

theorem cleanEntry_removes (hr : h.mayRemove (entryPath directory name) = true)
    (hp : f.locate (entryPath directory name) = some p) (hc : f.node p = some (.file c))
    (hext : extension name.1 = temporarySuffix) :
    cleanEntry h clean directory name deleted f = .ok (addInt deleted 1)
      (((f.record .test (entryPath directory name)).drop p).record .delete
        (entryPath directory name)) := by
  have hregular := isRegularFile_run (f := f) hs
  rw [FileSystem.lookup, hp, Option.bind_some, hc] at hregular
  have hremoved := removeFile_run (f := f.record .test (entryPath directory name)) hr hp
    (FileSystem.isFile_iff.mpr ⟨c, hc⟩)
  rw [cleanEntry, run_bind_ok hregular, if_pos (by simpa using hext), run_bind_ok hremoved]
  rfl

theorem cleanEntry_skips (hnodir : f.lookup (entryPath directory name) ≠ some .directory)
    (hno : ∀ c, f.lookup (entryPath directory name) = some (.file c) →
      extension name.1 ≠ temporarySuffix) :
    cleanEntry h clean directory name deleted f = .ok deleted
      ((f.record .test (entryPath directory name)).record .test (entryPath directory name)) := by
  have hregular := isRegularFile_run (f := f) hs
  have hfolder := isDirectory_run (f := f.record .test (entryPath directory name)) hs
  rw [FileSystem.record_lookup, beq_eq_false_iff_ne.mpr hnodir] at hfolder
  rw [cleanEntry, run_bind_ok hregular]
  cases hlookup : f.lookup (entryPath directory name) with
  | none => exact run_bind_ok hfolder _
  | some node =>
    cases node with
    | file c =>
      rw [if_neg (by simpa using hno c hlookup)]
      exact run_bind_ok hfolder _
    | directory => exact absurd hlookup hnodir

theorem cleanEntry_enters (hd : f.lookup (entryPath directory name) = some .directory) :
    cleanEntry h clean directory name deleted f =
      (do
        let sub ← clean (entryPath directory name)
        pure (if 0 < sub then addInt deleted sub else deleted))
      ((f.record .test (entryPath directory name)).record .test (entryPath directory name)) := by
  have hregular := isRegularFile_run (f := f) hs
  have hfolder := isDirectory_run (f := f.record .test (entryPath directory name)) hs
  rw [hd] at hregular
  rw [FileSystem.record_lookup, hd, beq_self_eq_true] at hfolder
  rw [cleanEntry, run_bind_ok hregular]
  exact run_bind_ok hfolder _

end Entries

end Runs

end SyncWizard.Client
