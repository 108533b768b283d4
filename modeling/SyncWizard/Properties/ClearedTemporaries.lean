import Mathlib.Data.List.MinMax
import Mathlib.Data.Nat.Digits.Lemmas
import Mathlib.Data.Set.Card
import SyncWizard.Client.Cleanup
import SyncWizard.Properties.CompleteListing

/-! What the cleanup removes: the temporaries of a tree, at any depth, and nothing else. The tree
changes while it is walked, but only where the walk has been. -/

namespace SyncWizard.Properties
open Foundation Common

/-! ## The temporaries of a tree -/

/-- The last dot of the name begins `.swizdownload`, and it is not the first character. -/
def NamedTemporary (q : Path) : Prop :=
  ∃ parent name stem, q = parent ++ [name] ∧ stem ≠ [] ∧ name.1 = stem ++ temporarySuffix

def leftovers (f : FileSystem) (root : Path) : Set Path :=
  {q | q ∈ regularFiles f root ∧ NamedTemporary q}

structure Swept (S : Set Path) (f g : FileSystem) : Prop where
  cwd : g.cwd = f.cwd
  gone : ∀ q ∈ S, g.node q = none
  kept : ∀ q ∉ S, g.node q = f.node q

section Trees
variable {f g k : FileSystem} {p q root : Path} {name : Name} {S T : Set Path}

theorem namedTemporary_iff : NamedTemporary (p ++ [name]) ↔
    Client.extension name.1 = temporarySuffix := by
  rw [Client.extension_temporary]
  constructor
  · rintro ⟨parent, other, stem, hq, hstem, hname⟩
    obtain ⟨-, hsame⟩ := List.append_inj' hq rfl
    rw [List.singleton_inj.mp hsame]
    exact ⟨stem, hstem, hname⟩
  · rintro ⟨stem, hstem, hname⟩
    exact ⟨p, name, stem, rfl, hstem, hname⟩

theorem mem_regularFiles : q ∈ regularFiles f root ↔
    f.isFile q = true ∧
      (q = root ∨ f.isDirectory root = true ∧ ∃ name, q ∈ regularFiles f (root ++ [name])) := by
  constructor
  · rintro ⟨hq, names, hwalk⟩
    refine ⟨hq, ?_⟩
    cases names with
    | nil => exact .inl (Option.some.inj hwalk).symm
    | cons name names =>
      rw [List.map_cons, PathStep.walk] at hwalk
      split_ifs at hwalk with hd
      exact .inr ⟨hd, name, hq, names, hwalk⟩
  · rintro ⟨hq, rfl | ⟨hd, name, -, names, hwalk⟩⟩
    · exact ⟨hq, [], rfl⟩
    · refine ⟨hq, name :: names, ?_⟩
      rw [List.map_cons, PathStep.walk, if_pos hd]
      exact hwalk

theorem isDirectory_of_file (hf : f.isFile p = true) : f.isDirectory p = false := by
  obtain ⟨c, hc⟩ := FileSystem.isFile_iff.mp hf
  rw [FileSystem.isDirectory, hc]
  rfl

theorem leftovers_file (hf : f.isFile root = true) :
    leftovers f root = {q | q = root ∧ NamedTemporary root} := by
  ext q
  constructor
  · rintro ⟨hq, hnamed⟩
    rcases (mem_regularFiles.mp hq).2 with rfl | ⟨hd, -⟩
    · exact ⟨rfl, hnamed⟩
    · rw [isDirectory_of_file hf] at hd
      cases hd
  · rintro ⟨rfl, hnamed⟩
    exact ⟨mem_regularFiles.mpr ⟨hf, .inl rfl⟩, hnamed⟩

theorem leftovers_nothing (hf : f.isFile root = false) (hd : f.isDirectory root = false) :
    leftovers f root = ∅ := by
  refine Set.eq_empty_of_forall_notMem fun q hq => ?_
  obtain ⟨hq, -⟩ := hq
  obtain ⟨hfile, rfl | ⟨hdir, -⟩⟩ := mem_regularFiles.mp hq
  · rw [hf] at hfile
    cases hfile
  · rw [hd] at hdir
    cases hdir

theorem mem_leftovers_directory (hd : f.isDirectory root = true) :
    q ∈ leftovers f root ↔ ∃ name, q ∈ leftovers f (root ++ [name]) := by
  constructor
  · rintro ⟨hq, hnamed⟩
    obtain ⟨hfile, rfl | ⟨-, name, hname⟩⟩ := mem_regularFiles.mp hq
    · rw [isDirectory_of_file hfile] at hd
      cases hd
    · exact ⟨name, hname, hnamed⟩
  · rintro ⟨name, hname, hnamed⟩
    exact ⟨mem_regularFiles.mpr ⟨hname.1, .inr ⟨hd, name, hname⟩⟩, hnamed⟩

theorem leftovers_isFile (hq : q ∈ leftovers f root) : f.isFile q = true := hq.1.1

theorem files_finite (f : FileSystem) : {q | f.isFile q = true}.Finite := by
  refine (List.finite_toSet f.nodes.keys).subset fun q hq => ?_
  obtain ⟨c, hc⟩ := FileSystem.isFile_iff.mp hq
  have hne : q ≠ [] := FileSystem.not_root_of_node (hc ▸ FileSystem.file_ne_directory c)
  rw [FileSystem.node, if_neg hne] at hc
  exact AList.mem_keys.mpr (AList.lookup_isSome.mp (Option.isSome_of_mem hc))

/-! ## Sweeping -/

theorem Swept.refl (hc : g.cwd = f.cwd) (hn : g.node = f.node) : Swept ∅ f g :=
  ⟨hc, fun _ hq => absurd hq (Set.notMem_empty _), fun q _ => congrFun hn q⟩

theorem Swept.trans (hS : Swept S f g) (hT : Swept (T \ S) g k) : Swept (S ∪ T) f k := by
  refine ⟨hT.cwd.trans hS.cwd, fun q hq => ?_, fun q hq => ?_⟩
  · by_cases hqT : q ∈ T \ S
    · exact hT.gone q hqT
    · have hqS : q ∈ S := by
        rcases hq with hq | hq
        · exact hq
        · by_contra hno
          exact hqT ⟨hq, hno⟩
      rw [hT.kept q hqT]
      exact hS.gone q hqS
  · rw [Set.mem_union, not_or] at hq
    rw [hT.kept q fun hqT => hq.2 hqT.1]
    exact hS.kept q hq.1

section
variable (hS : Swept S f g) (hfiles : ∀ q ∈ S, f.isFile q = true)
include hS

theorem Swept.isFile : g.isFile q = true ↔ f.isFile q = true ∧ q ∉ S := by
  by_cases hq : q ∈ S
  · refine iff_of_false ?_ fun hf => hf.2 hq
    rw [FileSystem.isFile, hS.gone q hq]
    exact Bool.false_ne_true
  · rw [FileSystem.isFile, FileSystem.isFile, hS.kept q hq]
    exact (and_iff_left hq).symm

include hfiles

theorem Swept.isDirectory : g.isDirectory = f.isDirectory := by
  funext q
  by_cases hq : q ∈ S
  · rw [isDirectory_of_file (hfiles q hq), FileSystem.isDirectory, hS.gone q hq]
    rfl
  · rw [FileSystem.isDirectory, FileSystem.isDirectory, hS.kept q hq]

theorem Swept.locate : g.locate = f.locate :=
  FileSystem.locate_congr hS.cwd (hS.isDirectory hfiles)

theorem Swept.leftovers (root : Path) : leftovers g root = leftovers f root \ S := by
  ext q
  constructor
  · rintro ⟨⟨hq, names, hwalk⟩, hnamed⟩
    obtain ⟨hf, hqS⟩ := hS.isFile.mp hq
    rw [hS.isDirectory hfiles] at hwalk
    exact ⟨⟨⟨hf, names, hwalk⟩, hnamed⟩, hqS⟩
  · rintro ⟨⟨⟨hf, names, hwalk⟩, hnamed⟩, hqS⟩
    rw [← hS.isDirectory hfiles] at hwalk
    exact ⟨⟨hS.isFile.mpr ⟨hf, hqS⟩, names, hwalk⟩, hnamed⟩

theorem Swept.removed : {q | f.node q ≠ none ∧ g.node q = none} = S := by
  ext q
  constructor
  · rintro ⟨hthere, hgone⟩
    by_contra hq
    exact hthere ((hS.kept q hq).symm.trans hgone)
  · intro hq
    refine ⟨fun hnone => ?_, hS.gone q hq⟩
    obtain ⟨c, hc⟩ := FileSystem.isFile_iff.mp (hfiles q hq)
    cases hnone.symm.trans hc

end

theorem Swept.drop (hf : f.isFile p = true) (path : Text) :
    Swept {p} f ((f.drop p).record .delete path) := by
  obtain ⟨c, hc⟩ := FileSystem.isFile_iff.mp hf
  have hne : p ≠ [] := FileSystem.not_root_of_node (hc ▸ FileSystem.file_ne_directory c)
  refine ⟨rfl, fun q hq => ?_, fun q hq => ?_⟩
  · rw [FileSystem.record_node, FileSystem.drop_node hne, if_pos (Set.mem_singleton_iff.mp hq)]
  · rw [FileSystem.record_node, FileSystem.drop_node hne, if_neg fun he =>
      hq (Set.mem_singleton_iff.mpr he)]

end Trees

/-! ## The cleanup -/

structure Accessible (h : Host) (directory : Text) : Prop where
  tested : ∀ path, directory <+: path → h.statError path = none
  listed : ∀ path, directory <+: path → h.mayList path = true
  removed : ∀ path, directory <+: path → h.mayRemove path = true

/-- The entries in `S` are removed, and counted on from `start` as long as an `int` holds the number. -/
def Clears (S : Set Path) (f : FileSystem) (start : ℤ)
    (r : EStateM.Result (Fault Text Crash) FileSystem ℤ) : Prop :=
  ∃ deleted g, r = .ok deleted g ∧ Swept S f g ∧ deleted < 2 ^ 31 ∧
    ∀ k : ℕ, start = k → k + S.ncard < 2 ^ 31 → deleted = k + S.ncard

def Shallow (f : FileSystem) (n : ℕ) (p : Path) : Prop := ∀ q, f.node q ≠ none → q.length < p.length + n

def ClearsBelow (h : Host) (n : ℕ) (clean : Text → Exec FileSystem ℤ) : Prop :=
  ∀ f directory p, Accessible h directory → nul ∉ directory → f.locate directory = some p →
    f.isDirectory p = true → Shallow f n p → Clears (leftovers f p) f 0 (clean directory f)

section Counts
variable {a b : ℤ}

theorem addInt_lt (a b : ℤ) : Client.addInt a b < 2 ^ 31 := by
  have hlt : (a + b).bmod (2 ^ 32) < ((2 ^ 32 : ℕ) + 1) / 2 := Int.bmod_lt (by norm_num)
  unfold Client.addInt
  omega

theorem addInt_eq (h0 : 0 ≤ a + b) (h : a + b < 2 ^ 31) : Client.addInt a b = a + b := by
  rw [Client.addInt, Int.bmod_def]
  omega

end Counts

section Cleanup
variable {h : Host} {n : ℕ} {f : FileSystem} {directory : Text} {p : Path} {deleted : ℤ}
  {clean : Text → Exec FileSystem ℤ}

theorem Accessible.below (hg : Accessible h directory) (name : Name) :
    Accessible h (Client.entryPath directory name) where
  tested _ hp := hg.tested _ ((Client.entryPath_prefix directory name).trans hp)
  listed _ hp := hg.listed _ ((Client.entryPath_prefix directory name).trans hp)
  removed _ hp := hg.removed _ ((Client.entryPath_prefix directory name).trans hp)

theorem Swept.shallow {g : FileSystem} {S : Set Path} (hS : Swept S f g) (hf : Shallow f n p) :
    Shallow g n p := by
  intro q hq
  refine hf q fun hnone => hq ?_
  by_cases hqS : q ∈ S
  · exact hS.gone q hqS
  · rw [hS.kept q hqS, hnone]

theorem Clears.nothing {g : FileSystem} (hg : Swept ∅ f g) (hstart : deleted < 2 ^ 31) :
    Clears ∅ f deleted (.ok deleted g) := by
  refine ⟨deleted, g, rfl, hg, hstart, fun k hk _ => ?_⟩
  rw [Set.ncard_empty, hk, Nat.cast_zero, add_zero]

theorem Clears.single {g : FileSystem} {q : Path} (hg : Swept {q} f g) :
    Clears {q} f deleted (.ok (Client.addInt deleted 1) g) := by
  refine ⟨_, g, rfl, hg, addInt_lt _ _, fun k hk hlt => ?_⟩
  rw [Set.ncard_singleton] at hlt ⊢
  rw [hk, addInt_eq (by omega) (by omega), Nat.cast_one]

theorem Clears.added {S : Set Path} {sub : ℤ} {g : FileSystem} (hsub : Clears S f 0 (.ok sub g))
    (hstart : deleted < 2 ^ 31) :
    Clears S f deleted (.ok (if 0 < sub then Client.addInt deleted sub else deleted) g) := by
  obtain ⟨_, _, ⟨⟩, hswept, -, hcount⟩ := hsub
  refine ⟨_, g, rfl, hswept, ?_, fun k hk hlt => ?_⟩
  · split_ifs
    · exact addInt_lt _ _
    · exact hstart
  · have hall : sub = (0 : ℕ) + S.ncard := hcount 0 rfl (by omega)
    rw [Nat.cast_zero, zero_add] at hall
    split_ifs with hpos
    · rw [hk, hall, addInt_eq (by omega) (by omega)]
    · rw [hk]
      omega

theorem Clears.bind {S T : Set Path} {first : Exec FileSystem ℤ} {rest : ℤ → Exec FileSystem ℤ}
    (hfirst : Clears S f deleted (first f))
    (hrest : ∀ d g, Swept S f g → d < 2 ^ 31 → Clears (T \ S) g d (rest d g))
    (hfiles : ∀ q ∈ S ∪ T, f.isFile q = true) : Clears (S ∪ T) f deleted ((first >>= rest) f) := by
  obtain ⟨d, g, hrun, hswept, hlt, hcount⟩ := hfirst
  obtain ⟨d', k, hrun', hswept', hlt', hcount'⟩ := hrest d g hswept hlt
  have hfinite : (S ∪ T).Finite := (files_finite f).subset hfiles
  have hcard : (S ∪ T).ncard = S.ncard + (T \ S).ncard := by
    rw [← Set.union_sdiff_self, Set.ncard_union_eq Set.disjoint_sdiff_right
      (hfinite.subset Set.subset_union_left)
        (hfinite.subset (Set.sdiff_subset.trans Set.subset_union_right))]
  refine ⟨d', k, (run_bind_ok hrun _).trans hrun', hswept.trans hswept', hlt', fun m hm hbound => ?_⟩
  rw [hcard, ← add_assoc] at hbound
  have hd : d = (m + S.ncard : ℕ) := hcount m hm (by omega)
  rw [hcount' (m + S.ncard) hd hbound, hcard, Nat.cast_add, Nat.cast_add, add_assoc]

theorem cleanEntry_run (hclean : ClearsBelow h n clean) (hg : Accessible h directory)
    (hn : nul ∉ directory) (hp : f.locate directory = some p) (hd : f.isDirectory p = true)
    (hf : Shallow f (n + 1) p) (hstart : deleted < 2 ^ 31) (name : Name) :
    Clears (leftovers f (p ++ [name])) f deleted
      (Client.cleanEntry h clean directory name deleted f) := by
  let path := Client.entryPath directory name
  have hlocate : f.locate path = some (p ++ [name]) := Client.locate_entryPath hn hp hd name
  have hlookup : f.lookup path = f.node (p ++ [name]) := by
    rw [FileSystem.lookup, hlocate, Option.bind_some]
  have htested : h.statError path = none := hg.tested path (Client.entryPath_prefix directory name)
  cases hnode : f.node (p ++ [name]) with
  | none =>
    rw [hnode] at hlookup
    have hnothing (node : Node) : f.lookup path ≠ some node := by
      rw [hlookup]
      exact (Option.some_ne_none node).symm
    rw [Client.cleanEntry_skips htested (hnothing _) fun c hc => absurd hc (hnothing _),
      leftovers_nothing (by rw [FileSystem.isFile, hnode]) (by rw [FileSystem.isDirectory, hnode]; rfl)]
    exact .nothing (.refl rfl rfl) hstart
  | some node =>
    cases node with
    | file c =>
      have hfile : f.isFile (p ++ [name]) = true := FileSystem.isFile_iff.mpr ⟨c, hnode⟩
      rw [leftovers_file hfile, namedTemporary_iff]
      by_cases hext : Client.extension name.1 = temporarySuffix
      · have hself : {q | q = p ++ [name] ∧ Client.extension name.1 = temporarySuffix} =
            {p ++ [name]} :=
          Set.ext fun q => and_iff_left hext
        have hswept := Swept.drop (f := f.record .test path) hfile path
        rw [Client.cleanEntry_removes htested
          (hg.removed path (Client.entryPath_prefix directory name)) hlocate hnode hext, hself]
        exact .single ⟨hswept.cwd, hswept.gone, hswept.kept⟩
      · have hnone : {q | q = p ++ [name] ∧ Client.extension name.1 = temporarySuffix} = ∅ :=
          Set.eq_empty_of_forall_notMem fun q hq => hext hq.2
        rw [Client.cleanEntry_skips htested
          (by rw [hlookup, hnode]; exact FileSystem.file_ne_directory c)
          fun _ _ => hext, hnone]
        exact .nothing (.refl rfl rfl) hstart
    | directory =>
      have hdir : f.isDirectory (p ++ [name]) = true := by
        rw [FileSystem.isDirectory, hnode]
        rfl
      have hshallow : Shallow f n (p ++ [name]) := fun q hq => by
        have hlength := hf q hq
        rw [List.length_append, List.length_singleton]
        omega
      obtain ⟨sub, g, hrun, hswept, hcount⟩ := hclean
        ((f.record .test path).record .test path) path (p ++ [name]) (hg.below name)
        (Client.entryPath_noNul hn name) hlocate hdir hshallow
      have hsub : Clears (leftovers f (p ++ [name])) f 0 (.ok sub g) :=
        ⟨sub, g, rfl, ⟨hswept.cwd, hswept.gone, hswept.kept⟩, hcount⟩
      rw [Client.cleanEntry_enters htested (hlookup.trans hnode), run_bind_ok hrun]
      exact hsub.added hstart

theorem cleanEntries_run (hclean : ClearsBelow h n clean) (hg : Accessible h directory)
    (hn : nul ∉ directory) (entries : List (Name × Node)) : ∀ (f : FileSystem) (deleted : ℤ),
    f.locate directory = some p → f.isDirectory p = true → Shallow f (n + 1) p → deleted < 2 ^ 31 →
    Clears {q | ∃ e ∈ entries, q ∈ leftovers f (p ++ [e.1])} f deleted
      (Client.cleanEntries h clean directory entries deleted f) := by
  induction entries with
  | nil =>
    intro f deleted _ _ _ hstart
    have hnone : {q | ∃ e ∈ ([] : List (Name × Node)), q ∈ leftovers f (p ++ [e.1])} = ∅ :=
      Set.eq_empty_of_forall_notMem fun q hq => by
        obtain ⟨e, he, -⟩ := hq
        cases he
    rw [hnone]
    exact .nothing (.refl rfl rfl) hstart
  | cons entry entries ih =>
    intro f deleted hp hd hf hstart
    let S := leftovers f (p ++ [entry.1])
    let T := {q | ∃ e ∈ entries, q ∈ leftovers f (p ++ [e.1])}
    have hS : ∀ q ∈ S, f.isFile q = true := fun q => leftovers_isFile
    have hall : {q | ∃ e ∈ entry :: entries, q ∈ leftovers f (p ++ [e.1])} = S ∪ T := by
      ext q
      simp only [List.mem_cons, exists_eq_or_imp]
      rfl
    rw [hall]
    refine Clears.bind (cleanEntry_run hclean hg hn hp hd hf hstart entry.1)
      (fun d g hswept hlt => ?_) ?_
    · have hleft : {q | ∃ e ∈ entries, q ∈ leftovers g (p ++ [e.1])} = T \ S := by
        ext q
        simp only [hswept.leftovers hS]
        exact ⟨fun ⟨e, he, hq, hno⟩ => ⟨⟨e, he, hq⟩, hno⟩, fun ⟨⟨e, he, hq⟩, hno⟩ => ⟨e, he, hq, hno⟩⟩
      rw [← hleft]
      exact ih g d (by rw [hswept.locate hS, hp]) (by rw [hswept.isDirectory hS, hd]) (hswept.shallow hf) hlt
    · rintro q (hq | ⟨e, -, hq⟩)
      · exact leftovers_isFile hq
      · exact leftovers_isFile hq

theorem mem_children_of_node {node : Node} {name : Name} (hnode : f.node (p ++ [name]) = some node) :
    (name, node) ∈ f.children p := by
  rw [FileSystem.node, if_neg (List.append_ne_nil_of_right_ne_nil _ (List.cons_ne_nil _ _))] at hnode
  refine List.mem_filterMap.mpr ⟨⟨p ++ [name], node⟩, AList.mem_lookup_iff.mp hnode, ?_⟩
  simp

theorem leftovers_children (hd : f.isDirectory p = true) :
    {q | ∃ e ∈ f.children p, q ∈ leftovers f (p ++ [e.1])} = leftovers f p := by
  ext q
  rw [mem_leftovers_directory hd]
  constructor
  · rintro ⟨e, -, hq⟩
    exact ⟨e.1, hq⟩
  · rintro ⟨name, hq⟩
    cases hnode : f.node (p ++ [name]) with
    | none =>
      rw [leftovers_nothing (by rw [FileSystem.isFile, hnode])
        (by rw [FileSystem.isDirectory, hnode]; rfl)] at hq
      exact absurd hq (Set.notMem_empty q)
    | some node => exact ⟨(name, node), mem_children_of_node hnode, hq⟩

/-- The induction is on the depth: the call for a folder is the loop over its entries, and the calls
for the folders among them have one level less below. -/
theorem cleanWithin_run (h : Host) (n : ℕ) : ClearsBelow h n (Client.cleanWithin h n) := by
  induction n with
  | zero =>
    intro f directory p _ _ _ hd hf
    rw [FileSystem.isDirectory, beq_iff_eq] at hd
    exact absurd (hf p (by rw [hd]; exact Option.some_ne_none _)) (lt_irrefl _)
  | succ n ih =>
    intro f directory p hg hn hp hd hf
    let g := ((f.record .test directory).record .test directory).record .list directory
    have htested := hg.tested directory (List.prefix_refl _)
    have hlookup : f.lookup directory = some .directory := by
      rw [FileSystem.lookup, hp, Option.bind_some]
      exact beq_iff_eq.mp hd
    have hfolder := Client.isDirectory_run (f := f) htested
    have hvalid := FileSystem.isValidPath_run (f := f.record .test directory) htested
    have hlist : listDirectory h directory ((f.record .test directory).record .test directory) =
        .ok (some (f.children p)) g := by
      simp only [listDirectory, FileSystem.record_locate, hp, hg.listed directory (List.prefix_refl _)]
      exact congrArg (fun opened => EStateM.Result.ok opened g) (if_pos ⟨trivial, hd⟩)
    rw [hlookup, beq_self_eq_true] at hfolder
    rw [FileSystem.record_lookup, hlookup] at hvalid
    have hrun : Client.cleanWithin h (n + 1) directory f =
        Client.cleanEntries h (Client.cleanWithin h n) directory (f.children p) 0 g := by
      rw [Client.cleanWithin, run_bind_ok hfolder, if_pos rfl, run_bind_ok hvalid]
      exact run_bind_ok hlist _
    obtain ⟨deleted, k, hclean, hswept, hcount⟩ :=
      cleanEntries_run ih hg hn (f.children p) g 0 hp hd hf (by norm_num)
    rw [hrun]
    refine ⟨deleted, k, hclean, ?_, ?_⟩
    · rw [← leftovers_children hd]
      exact ⟨hswept.cwd, hswept.gone, hswept.kept⟩
    · rw [← leftovers_children hd]
      exact hcount

theorem shallow_longest (f : FileSystem) (p : Path) : Shallow f (Client.longestPath f + 1) p := by
  intro q hq
  rw [FileSystem.node] at hq
  split_ifs at hq with hroot
  · rw [hroot, List.length_nil]
    omega
  · have hkey : q ∈ f.nodes.keys :=
      AList.mem_keys.mpr (AList.lookup_isSome.mp (Option.isSome_iff_ne_none.mpr hq))
    have hle : q.length ≤ Client.longestPath f :=
      List.le_max_of_le' 0 (List.mem_map_of_mem hkey) le_rfl
    omega

end Cleanup

/-! ## On a client -/

section Clients
variable {h : Host} {directory : Text} {w : Client.ClientState} {p : Path}

theorem deleteTemporaries_clears (hg : Accessible h directory) (hn : nul ∉ directory)
    (hp : w.files.locate directory = some p) (hd : w.files.isDirectory p = true) :
    ∃ deleted g, Client.deleteTemporaryDownloadFiles h directory w = .ok deleted { w with files := g } ∧
      Swept (leftovers w.files p) w.files g ∧ deleted < 2 ^ 31 ∧
      ((leftovers w.files p).ncard < 2 ^ 31 → deleted = (leftovers w.files p).ncard) := by
  obtain ⟨deleted, g, hrun, hswept, hlt, hcount⟩ := cleanWithin_run h (Client.longestPath w.files + 1)
    w.files directory p hg hn hp hd (shallow_longest w.files p)
  refine ⟨deleted, g, ?_, hswept, hlt, fun hbound => ?_⟩
  · rw [Client.deleteTemporaryDownloadFiles, run_bind_ok (run_get w)]
    exact run_zoom_ok hrun
  · rw [hcount 0 rfl (by omega), Nat.cast_zero, zero_add]

theorem deleteTemporaries_again (hg : Accessible h directory) (hn : nul ∉ directory)
    (hp : w.files.locate directory = some p) (hd : w.files.isDirectory p = true) {g : FileSystem}
    (hswept : Swept (leftovers w.files p) w.files g) :
    ∃ g', Client.deleteTemporaryDownloadFiles h directory { w with files := g } =
        .ok 0 { w with files := g' } ∧ g'.node = g.node := by
  have hfiles : ∀ q ∈ leftovers w.files p, w.files.isFile q = true := fun q => leftovers_isFile
  have hnone : leftovers g p = ∅ := by rw [hswept.leftovers hfiles, Set.sdiff_self]
  obtain ⟨deleted, g', hrun, hagain, -, hcount⟩ :=
    deleteTemporaries_clears (w := { w with files := g }) hg hn
      (by rw [hswept.locate hfiles, hp]) (by rw [hswept.isDirectory hfiles, hd])
  rw [hnone] at hagain hcount
  rw [Set.ncard_empty] at hcount
  obtain rfl : deleted = 0 := hcount (by norm_num)
  exact ⟨g', hrun, funext fun q => hagain.kept q (Set.notMem_empty q)⟩

theorem deleteTemporaries_elsewhere (hg : Accessible h directory)
    (hno : w.files.lookup directory ≠ some .directory) :
    ∃ g, Client.deleteTemporaryDownloadFiles h directory w = .ok (-1) { w with files := g } ∧
      g.node = w.files.node := by
  have hfolder := Client.isDirectory_run (f := w.files) (hg.tested directory (List.prefix_refl _))
  rw [beq_eq_false_iff_ne.mpr hno] at hfolder
  refine ⟨w.files.record .test directory, ?_, rfl⟩
  rw [Client.deleteTemporaryDownloadFiles, run_bind_ok (run_get w)]
  refine run_zoom_ok ?_
  rw [Client.cleanWithin, run_bind_ok hfolder]
  rfl

/-- The cleanup of a folder removes the temporaries of its tree and nothing else, and an `int` that can
hold their number returns it. -/
theorem leftovers_cleared (hg : Accessible h directory) (hn : nul ∉ directory)
    (w : Client.ClientState) :
    (∀ p, w.files.locate directory = some p → w.files.isDirectory p = true →
      ∃ deleted g, Client.deleteTemporaryDownloadFiles h directory w =
        .ok deleted { w with files := g } ∧
        Swept (leftovers w.files p) w.files g ∧
        ((leftovers w.files p).ncard < 2 ^ 31 → deleted = (leftovers w.files p).ncard) ∧
        ∃ g', Client.deleteTemporaryDownloadFiles h directory { w with files := g } =
          .ok 0 { w with files := g' } ∧ g'.node = g.node) ∧
    (w.files.lookup directory ≠ some .directory →
      ∃ g, Client.deleteTemporaryDownloadFiles h directory w = .ok (-1) { w with files := g } ∧
        g.node = w.files.node) := by
  refine ⟨fun p hp hd => ?_, deleteTemporaries_elsewhere hg⟩
  obtain ⟨deleted, g, hrun, hswept, -, hcount⟩ := deleteTemporaries_clears hg hn hp hd
  exact ⟨deleted, g, hrun, hswept, hcount, deleteTemporaries_again hg hn hp hd hswept⟩

end Clients

def folderName : Name := ⟨txt "sync", by decide⟩

def leftName : Name := ⟨txt "memo.swizdownload", by decide⟩

def bareName : Name := ⟨temporarySuffix, by decide⟩

def littered : Client.ClientState :=
  ⟨⟨3, 0, fun _ => [], fun _ => [], fun _ => true⟩,
    ⟨[], (((AList.singleton [folderName] .directory).insert [folderName, folderName] .directory).insert
      [folderName, folderName, leftName] (.file [7])).insert
        [folderName, folderName, bareName] (.file [8]),
      []⟩, txt "/sync/", txt "/", fun _ => none, [], true, true, true⟩

theorem littered_cleared : ∃ deleted g,
    Client.deleteTemporaryDownloadFiles pageHost.1 (txt "/sync/") littered =
      .ok deleted { littered with files := g } ∧
    g.node [folderName, folderName, leftName] = none ∧
    g.node [folderName, folderName, bareName] = some (.file [8]) := by
  have hgrants : Accessible pageHost.1 (txt "/sync/") :=
    ⟨fun _ _ => rfl, fun _ _ => rfl, fun _ _ => rfl⟩
  obtain ⟨hclears, -⟩ := leftovers_cleared hgrants (by decide) littered
  obtain ⟨deleted, g, hrun, hswept, -⟩ := hclears [folderName] (by decide) (by decide)
  refine ⟨deleted, g, hrun, hswept.gone _ ?_, hswept.kept _ fun hmem => ?_⟩
  · refine ⟨⟨by decide, [folderName, leftName], by decide⟩, ?_⟩
    exact ⟨[folderName, folderName], leftName, txt "memo", rfl, by decide, by decide⟩
  · have hnamed := (namedTemporary_iff (p := [folderName, folderName])).mp hmem.2
    exact absurd hnamed (by decide)

/-! ## A crowded folder -/

def numeral (i : ℕ) : Text := i.bits.map fun b => if b then 49 else 48

def draftName (i : ℕ) : Name :=
  ⟨102 :: numeral i ++ temporarySuffix, by
    have hdigit : ∀ c : Byte, c ∉ [48, 49] → c ∉ numeral i := by
      intro c hc hmem
      obtain ⟨b, -, rfl⟩ := List.mem_map.mp hmem
      revert hc
      cases b <;> decide
    have hmember : ∀ c : Byte, c ∉ 102 :: ([48, 49] ++ temporarySuffix) →
        c ∉ 102 :: numeral i ++ temporarySuffix := by
      intro c hc
      simp only [List.cons_append, List.mem_cons, List.mem_append, not_or] at hc ⊢
      exact ⟨hc.1, hdigit c (by simp [hc.2.1, hc.2.2.1]), hc.2.2.2.2⟩
    refine ⟨List.cons_ne_nil _ _, ?_, ?_, hmember slash (by decide), hmember nul (by decide)⟩
    · intro he
      exact absurd (List.cons.inj he).1 (by decide)
    · intro he
      exact absurd (List.cons.inj he).1 (by decide)⟩

theorem draftName_injective : Function.Injective draftName := by
  intro i j he
  have hnumeral : numeral i = numeral j :=
    (List.cons.inj (List.append_cancel_right (congrArg Subtype.val he))).2
  have hbits : i.bits = j.bits := by
    refine List.map_injective_iff.mpr ?_ hnumeral
    intro b b' hb
    revert hb
    cases b <;> cases b' <;> decide
  refine Nat.digits.injective 2 ?_
  rw [Nat.digits_two_eq_bits, Nat.digits_two_eq_bits, hbits]

def crowdedTree (n : ℕ) : FileSystem where
  cwd := []
  nodes :=
    { entries := (List.range n).map fun i => ⟨[draftName i], .file []⟩
      nodupKeys := by
        rw [List.NodupKeys, List.keys, List.map_map]
        refine (List.nodup_range).map fun i j he => ?_
        exact draftName_injective (List.singleton_inj.mp he) }
  accesses := []

theorem crowdedTree_temporary {n i : ℕ} (hi : i < n) :
    [draftName i] ∈ leftovers (crowdedTree n) [] := by
  have hentry : (crowdedTree n).node [draftName i] = some (.file []) := by
    rw [FileSystem.node, if_neg (List.cons_ne_nil _ _)]
    exact AList.mem_lookup_iff.mpr (List.mem_map_of_mem (List.mem_range.mpr hi))
  have hfile := FileSystem.isFile_iff.mpr ⟨[], hentry⟩
  refine ⟨mem_regularFiles.mpr ⟨hfile, .inr ⟨rfl, draftName i, ?_⟩⟩, [],
    draftName i, 102 :: numeral i, rfl,
    List.cons_ne_nil _ _, rfl⟩
  exact mem_regularFiles.mpr ⟨hfile, .inl rfl⟩

theorem crowdedTree_count (n : ℕ) : n ≤ (leftovers (crowdedTree n) []).ncard := by
  have hinjective : Function.Injective fun i => [draftName i] := fun i j he =>
    draftName_injective (List.singleton_inj.mp he)
  have hfinite : (leftovers (crowdedTree n) []).Finite :=
    (files_finite _).subset fun q => leftovers_isFile
  calc n = ((fun i => [draftName i]) '' Set.Iio n).ncard := by
        rw [Set.ncard_image_of_injective _ hinjective, ← Nat.card_coe_set_eq]
        simp
    _ ≤ (leftovers (crowdedTree n) []).ncard := by
        refine Set.ncard_le_ncard ?_ hfinite
        rintro q ⟨i, hi, rfl⟩
        exact crowdedTree_temporary hi

def crowdedClient : Client.ClientState :=
  ⟨⟨3, 0, fun _ => [], fun _ => [], fun _ => true⟩, crowdedTree (2 ^ 31), txt "/", txt "/",
    fun _ => none, [], true, true, true⟩

theorem crowded_miscounted : ¬ ∀ (h : Host) (directory : Text) (w w' : Client.ClientState) (p : Path)
    (deleted : ℤ), Accessible h directory → nul ∉ directory → w.files.locate directory = some p →
    w.files.isDirectory p = true →
    Client.deleteTemporaryDownloadFiles h directory w = .ok deleted w' →
    deleted = {q | w.files.node q ≠ none ∧ w'.files.node q = none}.ncard := by
  intro hall
  have hroot (f : FileSystem) : f.locate (txt "/") = some [] := by
    have hsteps : stepsOf (txt "/") = [.stay, .stay] := by decide
    have hstart : f.startOf (txt "/") = [] := if_pos (by decide)
    have hd : f.isDirectory [] = true := beq_iff_eq.mpr FileSystem.node_nil
    rw [FileSystem.locate,
      if_neg (by decide), hstart, hsteps, PathStep.walk, if_pos hd, PathStep.follow,
      PathStep.walk, if_pos hd]
    rfl
  have hgrants : Accessible pageHost.1 (txt "/") := ⟨fun _ _ => rfl, fun _ _ => rfl, fun _ _ => rfl⟩
  obtain ⟨deleted, g, hrun, hswept, hlt, -⟩ := deleteTemporaries_clears (w := crowdedClient) hgrants
    (by decide) (hroot _) (beq_iff_eq.mpr FileSystem.node_nil)
  have hcount : deleted =
      ({q | crowdedClient.files.node q ≠ none ∧ g.node q = none} : Set Path).ncard :=
    hall pageHost.1 (txt "/") crowdedClient { crowdedClient with files := g } [] deleted hgrants
      (by decide) (hroot _) (beq_iff_eq.mpr FileSystem.node_nil) hrun
  rw [hswept.removed fun q => leftovers_isFile] at hcount
  have hmany : 2 ^ 31 ≤ (leftovers crowdedClient.files []).ncard := crowdedTree_count (2 ^ 31)
  omega

end SyncWizard.Properties
