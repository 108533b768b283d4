import SyncWizard.Common.FileSystem

/-! Listing a folder, as the server does it for its two file lists and the client for its own. -/

namespace SyncWizard.Common
open Foundation

def listEntries (directory : Text) (line : Text → Text → Text → Text) :
    List (Name × Node) → Text → Exec FileSystem Text
  | [], output => pure output
  | (name, .file _) :: entries, output => do
    -- the name stands twice in the path that is tested
    let filePath := directory ++ txt "/" ++ name.1 ++ txt "/" ++ name.1
    if ← lstat filePath then listEntries directory line entries (line name.1 filePath output)
    else listEntries directory line entries output
  -- the recursion stands in the branch for regular files, where it is never taken
  | (_, .directory) :: entries, output => listEntries directory line entries output

def listFolder (h : Host) (directory noFolder noListing : Text) (line : Text → Text → Text → Text) :
    Exec FileSystem Text := do
  if (← listDirectory h directory).isNone then raise noFolder
  match ← listDirectory h directory with
  | none => raise noListing
  | some entries => listEntries directory line entries []

structure Lists (h : Host) (f : FileSystem) (path : Text) (p : Path) : Prop where
  noNul : nul ∉ path
  located : f.locate path = some p
  allowed : h.mayList path = true
  directory : f.isDirectory p = true

def Listable (h : Host) (f : FileSystem) (path : Text) : Prop := ∃ p, Lists h f path p

section Listings
variable {h : Host} {directory noFolder noListing : Text} {line : Text → Text → Text → Text}
variable {f f' : FileSystem} {p : Path} {S : Access → Prop}

theorem listFolder_keeps {R : FileSystem → FileSystem → Prop} [Std.Refl R] [IsTrans FileSystem R]
    (hlist : ∀ path, Kept R (listDirectory h path)) (hstat : ∀ path, Kept R (lstat path)) :
    Kept R (listFolder h directory noFolder noListing line) := by
  have hentries : ∀ (entries : List (Name × Node)) (output : Text),
      Kept R (listEntries directory line entries output) := by
    intro entries
    induction entries with
    | nil => exact fun output => Kept.pure output
    | cons entry entries ih =>
      intro output
      obtain ⟨name, node⟩ := entry
      cases node with
      | file c =>
        refine Kept.bind (hstat _) fun found => ?_
        split_ifs
        exacts [ih _, ih _]
      | directory => exact ih output
  have hrest : Kept R (do
      match ← listDirectory h directory with
      | none => raise noListing
      | some entries => listEntries directory line entries []) := by
    refine Kept.bind (hlist directory) fun second => ?_
    cases second with
    | none => exact Kept.raise _
    | some entries => exact hentries entries []
  refine Kept.bind (hlist directory) fun first => ?_
  cases first with
  | none => exact Kept.bind (Kept.raise _) fun _ => hrest
  | some _ => exact hrest

theorem listFolder_kept (hS : ∀ path, S ⟨.list, path⟩) :
    Kept (Touched S) (listFolder h directory noFolder noListing line) :=
  listFolder_keeps (fun _ => listDirectory_kept (hS _)) fun _ => lstat_kept (hS _)

theorem listEntries_run (line : Text → Text → Text → Text) (hn : nul ∉ directory)
    {entries : List (Name × Node)} :
    ∀ f : FileSystem, f.locate directory = some p → entries ⊆ f.children p →
      ∃ f', listEntries directory line entries [] f = .ok [] f' := by
  induction entries with
  | nil => exact fun f _ _ => ⟨f, rfl⟩
  | cons entry entries ih =>
    intro f hp hsub
    have hrest := (List.cons_subset.mp hsub).2
    obtain ⟨name, node⟩ := entry
    cases node with
    | directory => exact ih f hp hrest
    | file c =>
      have hmem := hsub List.mem_cons_self
      let filePath := directory ++ txt "/" ++ name.1 ++ txt "/" ++ name.1
      have hpath : filePath = directory ++ slash :: name.1 ++ slash :: name.1 := by
        simp only [filePath, show txt "/" = [slash] from rfl, List.append_assoc, List.singleton_append]
      have hnone : f.lookup filePath = none := by
        rw [hpath]
        exact FileSystem.lookup_below_file hn hp hmem name
      let f₁ := f.record .list filePath
      have hstat : lstat filePath f = .ok false f₁ := by
        rw [lstat, hnone]
        rfl
      obtain ⟨f', hf⟩ := ih f₁ hp hrest
      exact ⟨f', (run_bind_ok hstat _).trans hf⟩

theorem listDirectory_run (hl : Lists h f directory p) :
    listDirectory h directory f = .ok (some (f.children p)) (f.record .list directory) := by
  rw [listDirectory, hl.located]
  simp only [hl.allowed, hl.directory, and_self, if_true]

theorem listFolder_listable (noFolder noListing : Text) (line : Text → Text → Text → Text)
    (hl : Listable h f directory) :
    ∃ f', listFolder h directory noFolder noListing line f = .ok [] f' := by
  obtain ⟨p, hl⟩ := hl
  let f₁ := f.record .list directory
  have hl₁ : Lists h f₁ directory p := ⟨hl.noNul, hl.located, hl.allowed, hl.directory⟩
  obtain ⟨f', hf⟩ := listEntries_run line hl.noNul (f₁.record .list directory) hl.located
    (List.Subset.refl _)
  refine ⟨f', ?_⟩
  rw [listFolder, run_bind_ok (listDirectory_run hl), Option.isNone_some]
  exact (run_bind_ok (listDirectory_run hl₁) _).trans hf

theorem listFolder_inv {output : Text}
    (hr : listFolder h directory noFolder noListing line f = .ok output f') :
    ∃ p, f.locate directory = some p ∧ h.mayList directory = true ∧ f.isDirectory p = true := by
  obtain ⟨first, f₁, hfirst, hr⟩ := run_bind_inv hr
  unfold listDirectory at hfirst
  cases hp : f.locate directory with
  | none =>
    rw [hp] at hfirst
    cases hfirst
    cases hr
  | some p =>
    rw [hp] at hfirst
    by_contra hno
    have hnot : ¬ (h.mayList directory = true ∧ f.isDirectory p = true) :=
      fun hboth => hno ⟨p, rfl, hboth⟩
    dsimp only at hfirst
    rw [if_neg hnot] at hfirst
    cases hfirst
    cases hr

theorem listFolder_yields (hn : nul ∉ directory) {output : Text}
    (hr : listFolder h directory noFolder noListing line f = .ok output f') : output = [] := by
  obtain ⟨p, hp, hallowed, hfolder⟩ := listFolder_inv hr
  obtain ⟨g, hg⟩ := listFolder_listable noFolder noListing line ⟨p, hn, hp, hallowed, hfolder⟩
  rw [hg] at hr
  cases hr
  rfl

end Listings

end SyncWizard.Common
