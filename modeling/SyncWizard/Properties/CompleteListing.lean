import SyncWizard.Client.Outcomes
import SyncWizard.Server.Outcomes

/-! What the three listings of a folder leave out. Each is meant to visit every regular file below its
folder once; none of them visits any. -/

namespace SyncWizard.Properties
open Foundation Common

/-! ## Trees -/

def regularFiles (f : FileSystem) (root : Path) : Set Path :=
  {q | f.isFile q = true ∧
    ∃ names : List Name, PathStep.walk f.isDirectory root (names.map .down) = some q}

structure ListsTree (f : FileSystem) (directory : Text) (root : Path) (entries : List Text) : Prop where
  all : ∀ q ∈ regularFiles f root, ∃ e ∈ entries, f.locate (directory ++ e) = some q
  only : ∀ e ∈ entries, ∃ q ∈ regularFiles f root, f.locate (directory ++ e) = some q
  once : (entries.map fun e => f.locate (directory ++ e)).Nodup

structure Bare (h : Host) (f : FileSystem) (directory : Text) (root : Path) : Prop where
  located : f.locate directory = some root
  allowed : h.mayList directory = true
  folder : f.isDirectory root = true
  empty : regularFiles f root = ∅

section Trees
variable {h : Host} {f : FileSystem} {directory : Text} {root q : Path} {entries : List Text}

theorem regular_notFolder (hq : q ∈ regularFiles f root) : f.isDirectory q = false := by
  obtain ⟨c, hc⟩ := FileSystem.isFile_iff.mp hq.1
  rw [FileSystem.isDirectory, hc]
  rfl

theorem child_regular {name : Name} {c : Text} (hfolder : f.isDirectory root = true)
    (hc : (name, .file c) ∈ f.children root) : root ++ [name] ∈ regularFiles f root := by
  refine ⟨FileSystem.isFile_iff.mpr ⟨c, FileSystem.mem_children hc⟩, [name], ?_⟩
  rw [List.map_singleton, PathStep.walk, if_pos hfolder]
  rfl

theorem Bare.lists (hb : Bare h f directory root) : ListsTree f directory root [] where
  all q hq := absurd hq (hb.empty ▸ Set.notMem_empty q)
  only _ he := absurd he List.not_mem_nil
  once := List.nodup_nil

theorem locate_cut (hn : nul ∈ directory) (rest : Text) :
    f.locate (directory ++ rest) = f.locate directory := by
  have hcut : cstr (directory ++ rest) = cstr directory := by
    have hshort : (directory.takeWhile (· != nul)).length ≠ directory.length := by
      intro hlen
      have hwhole := (List.takeWhile_prefix (p := (· != nul))).eq_of_length hlen
      exact absurd (List.takeWhile_eq_self_iff.mp hwhole nul hn) (by decide)
    rw [cstr, cstr, List.takeWhile_append, if_neg hshort]
  rw [FileSystem.locate, FileSystem.locate, FileSystem.startOf, FileSystem.startOf, stepsOf, stepsOf,
    hcut]

theorem ListsTree.noNul (hl : ListsTree f directory root entries)
    (hroot : f.locate directory = some root)
    (hfolder : f.isDirectory root = true) (hne : entries ≠ []) : nul ∉ directory := by
  intro hn
  obtain ⟨e, he⟩ := List.exists_mem_of_ne_nil entries hne
  obtain ⟨q, hq, hlocate⟩ := hl.only e he
  rw [locate_cut hn, hroot, Option.some.injEq] at hlocate
  subst hlocate
  rw [regular_notFolder hq] at hfolder
  cases hfolder

theorem ListsTree.entry_ne_nil (hl : ListsTree f directory root entries)
    (hroot : f.locate directory = some root) (hfolder : f.isDirectory root = true) :
    [] ∉ entries := by
  intro he
  obtain ⟨q, hq, hlocate⟩ := hl.only [] he
  rw [List.append_nil, hroot, Option.some.injEq] at hlocate
  subst hlocate
  rw [regular_notFolder hq] at hfolder
  cases hfolder

end Trees

/-! ## Listing them -/

section Listing
variable {h : Host} {f f' : FileSystem} {directory noFolder noListing output : Text} {root : Path}
  {line : Text → Text → Text → Text} {entries : List Text}

theorem listEntries_folders {children : List (Name × Node)} (line : Text → Text → Text → Text)
    (hc : ∀ name c, (name, .file c) ∉ children) :
    listEntries directory line children [] f = .ok [] f := by
  induction children with
  | nil => rfl
  | cons child children ih =>
    obtain ⟨name, node⟩ := child
    cases node with
    | file c => exact absurd List.mem_cons_self (hc name c)
    | directory => exact ih fun name c hm => hc name c (List.mem_cons_of_mem _ hm)

theorem listFolder_bare (hb : Bare h f directory root) (line : Text → Text → Text → Text) :
    ∃ f', listFolder h directory noFolder noListing line f = .ok [] f' := by
  have hrun (g : FileSystem) (hg : g.locate directory = some root) (hd : g.isDirectory root = true) :
      listDirectory h directory g = .ok (some (g.children root)) (g.record .list directory) := by
    rw [listDirectory, hg]
    simp only [hb.allowed, hd, and_self, if_true]
  have hsecond := hrun (f.record .list directory) hb.located hb.folder
  refine ⟨(f.record .list directory).record .list directory, ?_⟩
  rw [listFolder, run_bind_ok (hrun f hb.located hb.folder), Option.isNone_some]
  refine (run_bind_ok hsecond _).trans (listEntries_folders line fun name c hc => ?_)
  exact absurd (child_regular hb.folder hc) (hb.empty ▸ Set.notMem_empty _)

variable (directory) in
theorem listEntries_effect (children : List (Name × Node)) : ∀ f, ∃ f', ∀ line output, ∃ written,
    listEntries directory line children output f = .ok written f' := by
  induction children with
  | nil => exact fun f => ⟨f, fun _ output => ⟨output, rfl⟩⟩
  | cons child children ih =>
    intro f
    obtain ⟨name, node⟩ := child
    cases node with
    | directory => exact ih f
    | file c =>
      let path := directory ++ txt "/" ++ name.1 ++ txt "/" ++ name.1
      obtain ⟨f', hf⟩ := ih (f.record .list path)
      have hstat : lstat path f = .ok (f.lookup path).isSome (f.record .list path) := rfl
      refine ⟨f', fun line output => ?_⟩
      rw [listEntries, run_bind_ok hstat]
      by_cases hfound : (f.lookup path).isSome = true
      · rw [if_pos hfound]
        exact hf line _
      · rw [if_neg hfound]
        exact hf line _

variable (h directory noFolder noListing) in
theorem listFolder_effect (line line' : Text → Text → Text → Text) :
    (do let _ ← listFolder h directory noFolder noListing line) =
      (do let _ ← listFolder h directory noFolder noListing line' : Exec FileSystem Unit) := by
  funext f
  obtain ⟨first, f₁, hfirst⟩ : ∃ first f₁, listDirectory h directory f = .ok first f₁ := by
    unfold listDirectory
    split
    exacts [⟨_, _, rfl⟩, ⟨_, _, rfl⟩]
  obtain ⟨second, f₂, hsecond⟩ : ∃ second f₂, listDirectory h directory f₁ = .ok second f₂ := by
    unfold listDirectory
    split
    exacts [⟨_, _, rfl⟩, ⟨_, _, rfl⟩]
  rw [run_bind, run_bind, listFolder, listFolder, run_bind_ok hfirst, run_bind_ok hfirst]
  cases first with
  | none => rfl
  | some _ =>
    simp only [Option.isNone_some, Bool.false_eq_true, if_false]
    rw [run_bind_ok hsecond, run_bind_ok hsecond]
    cases second with
    | none => rfl
    | some children =>
      obtain ⟨f', hf⟩ := listEntries_effect directory children f₂
      obtain ⟨_, hleft⟩ := hf line []
      obtain ⟨_, hright⟩ := hf line' []
      dsimp only
      rw [hleft, hright]

/-- `lists` are the outputs of a listing of the folder, and `renders` says of which entries. -/
def Complete (f : FileSystem) (directory : Text) (lists : Text → Prop)
    (renders : Text → List Text → Prop) : Prop :=
  ∃ root output entries, f.locate directory = some root ∧ lists output ∧
    ListsTree f directory root entries ∧ renders output entries

theorem complete_iff {lists : Text → Prop} {renders : Text → List Text → Prop}
    (hlists : ∀ output, lists output ↔
      ∃ f', listFolder h directory noFolder noListing line f = .ok output f')
    (hempty : renders [] [])
    (hrenders : ∀ entries, [] ∉ entries → renders [] entries → entries = []) :
    Complete f directory lists renders ↔ ∃ root, Bare h f directory root := by
  constructor
  · rintro ⟨root, output, entries, hroot, hlisted, htree, hout⟩
    obtain ⟨f', hrun⟩ := (hlists output).mp hlisted
    obtain ⟨root', hroot', hallowed, hfolder⟩ := listFolder_inv hrun
    obtain rfl := Option.some.inj (hroot.symm.trans hroot')
    have hnil : entries = [] := by
      by_contra hne
      obtain rfl := listFolder_yields (htree.noNul hroot hfolder hne) hrun
      exact hne (hrenders entries (htree.entry_ne_nil hroot hfolder) hout)
    subst hnil
    refine ⟨root, hroot, hallowed, hfolder, Set.eq_empty_iff_forall_notMem.mpr fun q hq => ?_⟩
    obtain ⟨e, he, -⟩ := htree.all q hq
    exact absurd he List.not_mem_nil
  · rintro ⟨root, hb⟩
    exact ⟨root, [], [], hb.located, (hlists []).mpr (listFolder_bare hb line), hb.lists, hempty⟩

end Listing

/-! ## What the outputs say -/

def Lines (line : Text → Text → Text → Text) (directory output : Text) (entries : List Text) : Prop :=
  ∃ names : List Text, names.length = entries.length ∧
    output = (names.zip entries).foldl (fun out x => line x.1 (directory ++ x.2) out) []

theorem joined_nil {entries : List Text} (hne : [] ∉ entries) (hj : [] = joinFields entries) :
    entries = [] := by
  cases entries with
  | nil => rfl
  | cons e entries =>
    have hempty : e = [] := by
      cases entries with
      | nil =>
        rw [joinFields, List.intercalate_singleton] at hj
        exact hj.symm
      | cons e' entries =>
        rw [joinFields, List.intercalate_cons_cons] at hj
        exact (List.append_eq_nil_iff.mp (List.append_eq_nil_iff.mp hj.symm).1).1
    exact absurd (hempty ▸ List.mem_cons_self) hne

theorem lines_nil {line : Text → Text → Text → Text} (hline : ∀ name path out, line name path out ≠ [])
    {directory : Text} {entries : List Text} (hl : Lines line directory [] entries) : entries = [] := by
  obtain ⟨names, hlen, hout⟩ := hl
  rcases List.eq_nil_or_concat (names.zip entries) with hzip | ⟨front, last, hzip⟩
  · have hzero := congrArg List.length hzip
    rw [List.length_zip, hlen, Nat.min_self, List.length_nil] at hzero
    exact List.length_eq_zero_iff.mp hzero
  · rw [hzip, List.concat_eq_append, List.foldl_append] at hout
    exact absurd hout.symm (hline _ _ _)

theorem lines_empty (line : Text → Text → Text → Text) (directory : Text) :
    Lines line directory [] [] :=
  ⟨[], rfl, rfl⟩

theorem flistLine_ne_nil (h : Host) (name path out : Text) : Server.flistLine h name path out ≠ [] := by
  have hname : txt "\n\t\t\tFile name: " ≠ [] := by decide
  intro he
  simp only [Server.flistLine, List.append_eq_nil_iff] at he
  tauto

/-! ## The three listings -/

section Server
variable (h : Host) (me : Server.Identity) (w : Server.ServerState)

def SlistComplete : Prop :=
  Complete w.files me.directoryPath (fun output => ∃ w', Server.slist h me w = .ok output w')
    fun output entries => output = joinFields entries

def FlistComplete : Prop :=
  Complete w.files me.directoryPath
    (fun output => ∃ w', Server.listFiles h me (Server.flistLine h) w = .ok output w')
    (Lines (Server.flistLine h) me.directoryPath)

variable {h me w} in
theorem listFiles_iff {line : Text → Text → Text → Text} {output : Text} :
    (∃ w', Server.listFiles h me line w = .ok output w') ↔
      ∃ f', listFolder h me.directoryPath (Server.sessionError (Server.noFolder me))
        (Server.sessionError (Server.noListing me me.directoryPath)) line w.files = .ok output f' := by
  constructor
  · rintro ⟨w', hw⟩
    exact Server.onFiles_inv hw
  · rintro ⟨f', hf⟩
    exact ⟨_, Server.onFiles_ok hf⟩

theorem slistComplete_iff :
    SlistComplete h me w ↔ ∃ root, Bare h w.files me.directoryPath root := by
  apply complete_iff
  · exact fun _ => listFiles_iff
  · rfl
  · exact fun _ => joined_nil

theorem flistComplete_iff :
    FlistComplete h me w ↔ ∃ root, Bare h w.files me.directoryPath root := by
  apply complete_iff
  · exact fun _ => listFiles_iff
  · exact lines_empty _ _
  · exact fun _ _ => lines_nil (flistLine_ne_nil h)

end Server

section Client
variable (h : Host) (w : Client.ClientState)

def clientListing : Exec FileSystem Text :=
  listFolder h w.syncDirPath (Client.clientError .clientSide Client.noSyncDir)
    (Client.clientError .clientSide Client.noSyncListing) (Server.flistLine h)

def ListComplete : Prop :=
  Complete w.files w.syncDirPath (fun output => ∃ f', clientListing h w w.files = .ok output f')
    (Lines (Server.flistLine h) w.syncDirPath)

theorem listCommand_prints : Client.listCommand h (txt "client") =
    (do
      let w ← get
      let _ ← Client.onFiles (clientListing h w)) := by
  have hserver : ¬ txt "client" = txt "server" := by decide
  have heffect (w : Client.ClientState) := congrArg Client.onFiles
    (listFolder_effect h w.syncDirPath (Client.clientError .clientSide Client.noSyncDir)
      (Client.clientError .clientSide Client.noSyncListing) (fun _ _ output => output)
      (Server.flistLine h))
  funext w
  rw [Client.listCommand, if_neg hserver, if_pos rfl, run_bind_ok (run_get w), run_bind_ok (run_get w)]
  have hw := congrFun (heffect w) w
  rw [Client.onFiles_bind, Client.onFiles_bind] at hw
  exact hw

theorem listComplete_iff : ListComplete h w ↔ ∃ root, Bare h w.files w.syncDirPath root := by
  apply complete_iff
  · exact fun _ => Iff.rfl
  · exact lines_empty _ _
  · exact fun _ _ => lines_nil (flistLine_ne_nil h)

end Client

/-- Each of the listings is complete only for a folder that can be listed and has no files in it. -/
theorem listings_complete_iff (h : Host) (me : Server.Identity) (w : Server.ServerState)
    (c : Client.ClientState) :
    (SlistComplete h me w ↔ ∃ root, Bare h w.files me.directoryPath root) ∧
      (FlistComplete h me w ↔ ∃ root, Bare h w.files me.directoryPath root) ∧
      (ListComplete h c ↔ ∃ root, Bare h c.files c.syncDirPath root) :=
  ⟨slistComplete_iff h me w, flistComplete_iff h me w, listComplete_iff h c⟩

def oneFile : FileSystem := ⟨[], AList.singleton [⟨txt "kept", by decide⟩] (.file [1]), []⟩

def idleNet : ConnectionManager := ⟨3, 0, fun _ => [], fun _ => [], fun _ => true⟩

theorem oneFile_unlisted : ¬ ∃ root, Bare pageHost.1 oneFile (txt ".") root := by
  rintro ⟨root, hb⟩
  have hroot : root = [] := Option.some.inj (hb.located.symm.trans (by decide))
  have hregular : [⟨txt "kept", by decide⟩] ∈ regularFiles oneFile root := by
    rw [hroot]
    exact ⟨by decide, [⟨txt "kept", by decide⟩], by decide⟩
  rw [hb.empty] at hregular
  exact hregular

theorem oneFile_missed :
    ¬ SlistComplete pageHost.1 ⟨5, txt "user", txt "machine", txt ".", 0⟩
        (Server.ServerState.init idleNet oneFile) ∧
      ¬ FlistComplete pageHost.1 ⟨5, txt "user", txt "machine", txt ".", 0⟩
        (Server.ServerState.init idleNet oneFile) ∧
      ¬ ListComplete pageHost.1
        ⟨idleNet, oneFile, txt ".", txt "./", fun _ => none, [], true, true, true⟩ := by
  refine ⟨?_, ?_, ?_⟩
  · rw [slistComplete_iff]
    exact oneFile_unlisted
  · rw [flistComplete_iff]
    exact oneFile_unlisted
  · rw [listComplete_iff]
    exact oneFile_unlisted

end SyncWizard.Properties
