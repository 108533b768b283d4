import SyncWizard.Common.Transfer
import SyncWizard.Foundation.Drafts
import SyncWizard.Properties.ChunkHandlers

/-! Transfers of different files at once. The temporary of a file is a draft of it, no path of one
file is a path of another, and so the packets of the other files make no difference to a draft. -/

namespace SyncWizard.Properties
open Foundation Common

structure Incoming where
  name : Text
  checksum : Text
  packets : List Packet
  -- in place of a checksum, "fail" says that there is no file
  accepted : checksum ≠ txt "fail"
  nonempty : packets ≠ []
  size : packets.length ≤ 2 ^ 31
  exact : ∀ p ∈ packets, p.Exact
  numbered : ∀ before p after, packets = before ++ p :: after →
    p.sequenceNumber = BitVec.ofNat 32 before.length
  announced : ∀ p ∈ packets, p.expectedPackets = BitVec.ofNat 64 packets.length

namespace Incoming

def content (t : Incoming) : Text := t.packets.flatMap Packet.bytes

theorem isLast_iff (t : Incoming) {before after : List Packet} {p : Packet}
    (hp : t.packets = before ++ p :: after) : p.isLast = true ↔ after = [] := by
  have hmem : p ∈ t.packets := hp ▸ List.mem_append_right _ List.mem_cons_self
  exact Packet.isLast_iff t.size (t.numbered before p after hp) (t.announced p hmem) hp

theorem last_packet (t : Incoming) :
    ∃ front p, t.packets = front ++ [p] ∧ p.isLast = true ∧ ∀ x ∈ front, x.isLast = false := by
  obtain ⟨front, p, hp⟩ := (List.eq_nil_or_concat t.packets).resolve_left t.nonempty
  rw [List.concat_eq_append] at hp
  refine ⟨front, p, hp, (t.isLast_iff hp).mpr rfl, fun x hx => Bool.eq_false_iff.mpr fun hlast => ?_⟩
  obtain ⟨one, two, rfl⟩ := List.append_of_mem hx
  rw [List.append_assoc, List.cons_append] at hp
  exact absurd ((t.isLast_iff hp).mp hlast) (by simp)

def pieceOf (p : Packet) : Piece Byte := ⟨p.bytes, p.isLast⟩

theorem pieces_whole (t : Incoming) (published : Option Text) :
    (Draft.mk none published).addAll (t.packets.map pieceOf) = ⟨none, some t.content⟩ := by
  obtain ⟨front, p, hp, hlast, hfront⟩ := t.last_packet
  have hkept : ∀ x ∈ front.map pieceOf, x.publishes = false := by
    intro x hx
    obtain ⟨q, hq, rfl⟩ := List.mem_map.mp hx
    exact hfront q hq
  have hwhole := Draft.addAll_whole hkept (show (pieceOf p).publishes = true from hlast) published
  rw [hp, List.map_append, List.map_singleton, hwhole, content,
    hp, ← List.map_singleton, ← List.map_append,
    List.flatMap_map]
  rfl

end Incoming

section Transfers
variable {ι : Type} [DecidableEq ι]

def Shuffles (t : ι → Incoming) (calls : List (ι × Packet)) : Prop :=
  ∀ i, (calls.filter fun c => c.1 = i).map Prod.snd = (t i).packets

variable {h : Host} (k : Receiver) (t : ι → Incoming)

def receiveCall (c : ι × Packet) : Exec (k.handler h).State Unit :=
  quiet ((k.handler h).call (t c.1).name (t c.1).checksum c.2)

def receiveRun (calls : List (ι × Packet)) : Exec (k.handler h).State Unit :=
  forEach (receiveCall k t) calls

end Transfers

/-! ## Many drafts in one tree -/

section Drafting
variable {ι : Type} {h : Host} {f₀ f : FileSystem} {path : ι → Text}
  {p q : ι → Path} {d : ι → Draft Byte}

structure Places (h : Host) (f : FileSystem) (path : ι → Text) (p q : ι → Path) : Prop where
  noNul : ∀ i, nul ∉ path i
  opens : ∀ i, FileSystem.Opens h f (path i ++ temporarySuffix) (p i)
  completes : ∀ i, FileSystem.Completes h f (path i) (q i)
  temporaries : Function.Injective p
  files : Function.Injective q
  apart : ∀ i j, p i ≠ q j

structure Drafted (f₀ : FileSystem) (p q : ι → Path) (d : ι → Draft Byte) (f : FileSystem) : Prop where
  cwd : f.cwd = f₀.cwd
  temporary : ∀ i, f.node (p i) = (d i).pending.map Node.file
  file : ∀ i, f.node (q i) = (d i).published.elim (f₀.node (q i)) fun c => some (.file c)
  other : ∀ r, (∀ i, r ≠ p i) → (∀ i, r ≠ q i) → f.node r = f₀.node r

theorem file_notDirectory {n : Option Node} (hn : n ≠ some .directory) (t : Option Text) :
    t.elim n (fun c => some (.file c)) ≠ some .directory := by
  cases t with
  | none => exact hn
  | some c => exact FileSystem.file_ne_directory c

variable (hpl : Places h f₀ path p q)
include hpl

theorem Drafted.locate (hf : Drafted f₀ p q d f) : f.locate = f₀.locate := by
  refine FileSystem.locate_of_directories hf.cwd fun r => ?_
  by_cases hp : ∃ i, r = p i
  · obtain ⟨i, rfl⟩ := hp
    rw [hf.temporary]
    exact iff_of_false (FileSystem.map_file_ne_directory _) (hpl.opens i).noDirectory
  by_cases hq : ∃ i, r = q i
  · obtain ⟨i, rfl⟩ := hq
    have hdir := (hpl.completes i).renames.noDirectory
    rw [hf.file]
    exact iff_of_false (file_notDirectory hdir _) hdir
  rw [hf.other r (not_exists.mp hp) (not_exists.mp hq)]

theorem Drafted.opens (hf : Drafted f₀ p q d f) (i : ι) :
    FileSystem.Opens h f (path i ++ temporarySuffix) (p i) where
  located := by
    rw [hf.locate hpl]
    exact (hpl.opens i).located
  allowed := (hpl.opens i).allowed
  noDirectory := by
    rw [hf.temporary]
    exact FileSystem.map_file_ne_directory _

theorem Drafted.completes (hf : Drafted f₀ p q d f) (i : ι) :
    FileSystem.Completes h f (path i) (q i) where
  digested := (hpl.completes i).digested
  renames :=
    { located := by
        rw [hf.locate hpl]
        exact (hpl.completes i).renames.located
      allowed := (hpl.completes i).renames.allowed
      noDirectory := by
        rw [hf.file]
        exact file_notDirectory (hpl.completes i).renames.noDirectory _ }

omit hpl in
theorem Drafted.contentAt (hf : Drafted f₀ p q d f) (i : ι) :
    f.contentAt (p i) = (d i).pending.getD [] := by
  rw [FileSystem.contentAt, hf.temporary]
  cases (d i).pending <;> rfl

variable [DecidableEq ι] {g : FileSystem} {i : ι} {bs : Text}

theorem Drafted.append (hf : Drafted f₀ p q d f) (hc : g.cwd = f.cwd)
    (hn : g.node = Function.update f.node (p i) (some (.file (f.contentAt (p i) ++ bs)))) :
    Drafted f₀ p q (Drafts.add d i ⟨bs, false⟩) g := by
  have hadd : (d i).add ⟨bs, false⟩ = ⟨some ((d i).pending.getD [] ++ bs), (d i).published⟩ :=
    (d i).add_keeps rfl
  refine ⟨hc.trans hf.cwd, fun j => ?_, fun j => ?_, fun r hp hq => ?_⟩
  · by_cases hj : j = i
    · subst hj
      rw [hn, Function.update_self, Drafts.add, Function.update_self, hadd, hf.contentAt]
      rfl
    · rw [hn, Function.update_of_ne (hpl.temporaries.ne hj), hf.temporary, Drafts.add,
        Function.update_of_ne hj]
  · rw [hn, Function.update_of_ne (hpl.apart i j).symm, hf.file]
    by_cases hj : j = i
    · subst hj
      rw [Drafts.add, Function.update_self, hadd]
    · rw [Drafts.add, Function.update_of_ne hj]
  · rw [hn, Function.update_of_ne (hp i), hf.other r hp hq]

theorem Drafted.publish (hf : Drafted f₀ p q d f) (hc : g.cwd = f.cwd)
    (hn : g.node = Function.update (Function.update f.node (p i) none) (q i)
      (some (.file (f.contentAt (p i) ++ bs)))) :
    Drafted f₀ p q (Drafts.add d i ⟨bs, true⟩) g := by
  have hadd : (d i).add ⟨bs, true⟩ =
      ⟨none, some ((d i).pending.getD [] ++ bs)⟩ := (d i).add_publishes rfl
  refine ⟨hc.trans hf.cwd, fun j => ?_, fun j => ?_, fun r hp hq => ?_⟩
  · rw [hn, Function.update_of_ne (hpl.apart j i)]
    by_cases hj : j = i
    · subst hj
      rw [Function.update_self, Drafts.add, Function.update_self, hadd]
      rfl
    · rw [Function.update_of_ne (hpl.temporaries.ne hj), hf.temporary, Drafts.add,
        Function.update_of_ne hj]
  · by_cases hj : j = i
    · subst hj
      rw [hn, Function.update_self, Drafts.add, Function.update_self, hadd, hf.contentAt]
      rfl
    · rw [hn, Function.update_of_ne (hpl.files.ne hj),
        Function.update_of_ne (hpl.apart i j).symm, hf.file,
        Drafts.add, Function.update_of_ne hj]
  · rw [hn, Function.update_of_ne (hq i), Function.update_of_ne (hp i), hf.other r hp hq]

theorem Drafted.receive (hf : Drafted f₀ p q d f) (i : ι) {packet : Packet} (hb : packet.Exact) :
    ∃ g, quiet (receiveChunk h (path i) true packet) f = .ok () g ∧
      Drafted f₀ p q (Drafts.add d i (Incoming.pieceOf packet)) g := by
  by_cases hlast : packet.isLast = true
  · obtain ⟨g, hrun, hcwd, -, hnode⟩ := FileSystem.receiveChunk_completes (hpl.noNul i) hb hlast
      (hf.opens hpl i) (hf.completes hpl i)
    rw [Incoming.pieceOf, hlast]
    exact ⟨g, hrun, hf.publish hpl hcwd hnode⟩
  · obtain ⟨g, hrun, hcwd, hnode⟩ := FileSystem.receiveChunk_gathers true (hpl.noNul i) hb
      (hf.opens hpl i) fun hl => absurd hl hlast
    rw [Incoming.pieceOf, Bool.eq_false_iff.mpr hlast]
    exact ⟨g, hrun, hf.append hpl hcwd hnode⟩

end Drafting

/-! ## Runs -/

/-- On these strings the file system is a map from strings to bytes: every file there can be opened,
read and moved, and different strings lead to different files. -/
structure MapOn (h : Host) (f : FileSystem) (paths : Text → Prop) : Prop where
  noNul : ∀ s, paths s → nul ∉ s
  opens : ∀ s, paths s → ∃ p, FileSystem.Opens h f s p
  digested : ∀ s, paths s → h.mayDigest s = true
  renamed : ∀ s s', paths s → paths s' → h.mayRename s s' = true
  separate : ∀ s s', paths s → paths s' → f.locate s = f.locate s' → s = s'

section Running
variable {ι : Type} {h : Host} {k : Receiver} {t : ι → Incoming} {w : (k.handler h).State}
variable {paths : Text → Prop} {p q : ι → Path}

def pathOf (k : Receiver) (t : ι → Incoming) (w : (k.handler h).State) (i : ι) : Text :=
  (k.handler h).directory w ++ (t i).name

theorem pathOf_injective (hnames : Function.Injective fun i => (t i).name) :
    Function.Injective (pathOf k t w) := by
  intro i j hij
  exact hnames (List.append_cancel_left hij)

theorem temporary_ne_path (hplain : ∀ i, ¬ temporarySuffix <:+: (t i).name) (i j : ι) :
    pathOf k t w i ++ temporarySuffix ≠ pathOf k t w j := by
  intro he
  rw [pathOf, pathOf, List.append_assoc] at he
  have hname : (t i).name ++ temporarySuffix = (t j).name := List.append_cancel_left he
  exact hplain j ⟨(t i).name, [], by rw [List.append_nil, hname]⟩

theorem MapOn.places (hmap : MapOn h ((k.handler h).files w) paths)
    (hpaths : ∀ i, paths (pathOf k t w i) ∧ paths (pathOf k t w i ++ temporarySuffix))
    (hnames : Function.Injective fun i => (t i).name)
    (hplain : ∀ i, ¬ temporarySuffix <:+: (t i).name) :
    ∃ p q, Places h ((k.handler h).files w) (pathOf k t w) p q := by
  choose p hp using fun i => hmap.opens _ (hpaths i).2
  choose q hq using fun i => hmap.opens _ (hpaths i).1
  have hinj := pathOf_injective (k := k) (w := w) hnames
  refine ⟨p, q, fun i => hmap.noNul _ (hpaths i).1, hp, fun i => ?_, fun i j he => ?_, fun i j he => ?_,
    fun i j he => ?_⟩
  · exact ⟨hmap.digested _ (hpaths i).2, (hq i).located, hmap.renamed _ _ (hpaths i).2 (hpaths i).1,
      (hq i).noDirectory⟩
  · have hsame := hmap.separate _ _ (hpaths i).2 (hpaths j).2
        (by rw [(hp i).located, (hp j).located, he])
    exact hinj (List.append_cancel_right hsame)
  · exact hinj (hmap.separate _ _ (hpaths i).1 (hpaths j).1
      (by rw [(hq i).located, (hq j).located, he]))
  · exact temporary_ne_path hplain i j
      (hmap.separate _ _ (hpaths i).2 (hpaths j).1 (by rw [(hp i).located, (hq j).located, he]))

theorem drafted_start (hpl : Places h ((k.handler h).files w) (pathOf k t w) p q)
    (habsent : ∀ i, ((k.handler h).files w).lookup (pathOf k t w i ++ temporarySuffix) = none) :
    Drafted ((k.handler h).files w) p q (fun _ => ⟨none, none⟩) ((k.handler h).files w) where
  cwd := rfl
  temporary i := by
    have hnone := habsent i
    rwa [FileSystem.lookup, (hpl.opens i).located, Option.bind_some] at hnone
  file _ := rfl
  other _ _ _ := rfl

theorem receiveCall_live {c : ι × Packet} (hlock : (k.handler h).lock w (t c.1).name = some .live)
    {f g : FileSystem} (hrun : quiet (receiveChunk h (pathOf k t w c.1) true c.2) f = .ok () g) :
    receiveCall k t c ((k.handler h).withFiles f w) = .ok () ((k.handler h).withFiles g w) := by
  have hnull : c.2.isLast = true →
      (k.handler h).lock ((k.handler h).withFiles f w) (t c.1).name ≠ some .null := by
    intro _ he
    rw [handler_lock, hlock] at he
    cases he
  have hsame := handler_receives k (t c.1).accepted hnull
  rw [handler_lock, hlock, handler_directory] at hsame
  rw [receiveCall, hsame]
  refine (run_zoom_ok (a := ()) (s := g) ?_).trans ?_
  · rw [handler_files]
    exact hrun
  · rw [handler_withFiles]

variable [DecidableEq ι]

theorem receiveRun_drafts (hpl : Places h ((k.handler h).files w) (pathOf k t w) p q)
    (hlock : ∀ i, (k.handler h).lock w (t i).name = some .live) {calls : List (ι × Packet)}
    (hb : ∀ c ∈ calls, c.2.Exact) : ∀ {d : ι → Draft Byte} {f : FileSystem},
      Drafted ((k.handler h).files w) p q d f →
      ∃ g, receiveRun k t calls ((k.handler h).withFiles f w) = .ok () ((k.handler h).withFiles g w) ∧
        Drafted ((k.handler h).files w) p q
          (Drafts.addAll d (calls.map fun c => (c.1, Incoming.pieceOf c.2))) g := by
  induction calls with
  | nil => exact fun hf => ⟨_, rfl, hf⟩
  | cons c calls ih =>
    intro d f hf
    obtain ⟨hfirst, hrest⟩ := List.forall_mem_cons.mp hb
    obtain ⟨g, hrun, hg⟩ := hf.receive hpl c.1 hfirst
    have hcall := receiveCall_live (hlock c.1) hrun
    obtain ⟨g', hruns, hg'⟩ := ih hrest hg
    exact ⟨g', (run_bind_ok hcall _).trans hruns, hg'⟩

theorem Shuffles.exact {calls : List (ι × Packet)} (hi : Shuffles t calls) :
    ∀ c ∈ calls, c.2.Exact := by
  intro c hc
  refine (t c.1).exact c.2 ?_
  rw [← hi c.1]
  exact List.mem_map.mpr ⟨c, List.mem_filter.mpr ⟨hc, decide_eq_true rfl⟩, rfl⟩

theorem Shuffles.drafts {calls : List (ι × Packet)} (hi : Shuffles t calls) (i : ι) :
    Drafts.addAll (fun _ => ⟨none, none⟩) (calls.map fun c => (c.1, Incoming.pieceOf c.2)) i =
      ⟨none, some (t i).content⟩ := by
  rw [Drafts.addAll_apply, List.filter_map,
    List.map_map, ← (t i).pieces_whole none, ← hi i, List.map_map]
  rfl

end Running

/-- In whatever order the packets of different files come in, in the end every file holds its own
content, no temporary is left and no other path has changed. -/
theorem transfers_undisturbed (h : Host) (k : Receiver) {ι : Type} [DecidableEq ι] (t : ι → Incoming)
    (w : (k.handler h).State) {paths : Text → Prop} (hmap : MapOn h ((k.handler h).files w) paths)
    (hpaths : ∀ i, paths (pathOf k t w i) ∧ paths (pathOf k t w i ++ temporarySuffix))
    (hnames : Function.Injective fun i => (t i).name) (hplain : ∀ i, ¬ temporarySuffix <:+: (t i).name)
    (hlock : ∀ i, (k.handler h).lock w (t i).name = some .live)
    (habsent : ∀ i, ((k.handler h).files w).lookup (pathOf k t w i ++ temporarySuffix) = none)
    {calls : List (ι × Packet)} (hi : Shuffles t calls) :
    ∃ w', receiveRun k t calls w = .ok () w' ∧
      (∀ i, ((k.handler h).files w').content (pathOf k t w i) = some (t i).content) ∧
      (∀ i, ((k.handler h).files w').lookup (pathOf k t w i ++ temporarySuffix) = none) ∧
      ∀ s, paths s → (∀ i, s ≠ pathOf k t w i ∧ s ≠ pathOf k t w i ++ temporarySuffix) →
        ((k.handler h).files w').lookup s = ((k.handler h).files w).lookup s := by
  obtain ⟨p, q, hpl⟩ := hmap.places hpaths hnames hplain
  obtain ⟨g, hrun, hg⟩ := receiveRun_drafts hpl hlock hi.exact (drafted_start hpl habsent)
  rw [handler_withFiles_self] at hrun
  rw [funext hi.drafts] at hg
  have hlocate := hg.locate hpl
  refine ⟨_, hrun, fun i => ?_, fun i => ?_, fun s hs hother => ?_⟩
  · rw [handler_files]
    refine FileSystem.content_of_node (p := q i) ?_ (hg.file i)
    rw [hlocate]
    exact (hpl.completes i).renames.located
  · rw [handler_files, FileSystem.lookup, hlocate, (hpl.opens i).located]
    exact hg.temporary i
  · obtain ⟨r, hr⟩ := hmap.opens s hs
    have hp : ∀ i, r ≠ p i := by
      rintro i rfl
      exact (hother i).2 (hmap.separate _ _ hs (hpaths i).2 (by rw [hr.located, (hpl.opens i).located]))
    have hq : ∀ i, r ≠ q i := by
      rintro i rfl
      exact (hother i).1 (hmap.separate _ _ hs (hpaths i).1
        (by rw [hr.located, (hpl.completes i).renames.located]))
    rw [handler_files, FileSystem.lookup, FileSystem.lookup, hlocate, hr.located, Option.bind_some,
      Option.bind_some, hg.other r hp hq]

def twoByteFile (name : Text) (first second : Byte) : Incoming where
  name := name
  checksum := txt "sum"
  packets := [{ Packet.init with
    expectedPackets := 1, payloadSize := 2, payload := some [first, second] }]
  accepted := by decide
  nonempty := List.cons_ne_nil _ _
  size := by
    rw [List.length_singleton]
    decide
  exact p hp := by
    rw [List.mem_singleton.mp hp]
    rfl
  numbered _ _ _ he := Packet.numbered_single rfl he
  announced p hp := by
    rw [List.mem_singleton.mp hp]
    rfl

def twoFiles : Bool → Incoming
  | false => twoByteFile (txt "a") 1 2
  | true => twoByteFile (txt "b") 3 4

def lockedClient : Client.ClientState :=
  ⟨⟨3, 0, fun _ => [], fun _ => [], fun _ => true⟩, ⟨[], ∅, []⟩, txt "./sync_",
    txt "./", fun _ => some .live, [], true, true, true⟩

def fourPaths : List Text :=
  [txt "./sync_a", txt "./sync_a.swizdownload", txt "./sync_b", txt "./sync_b.swizdownload"]

def bothFiles : List (Bool × Packet) :=
  (twoFiles true).packets.map (Prod.mk true) ++ (twoFiles false).packets.map (Prod.mk false)

theorem bothFiles_shuffles : Shuffles twoFiles bothFiles := by
  intro b
  cases b <;> rfl

theorem fourPaths_map : MapOn pageHost.1 lockedClient.files (· ∈ fourPaths) := by
  have hlocated : ∀ s ∈ fourPaths, (lockedClient.files.locate s).isSome := by decide
  have hnew : ∀ s ∈ fourPaths, lockedClient.files.lookup s = none := by decide
  have hseparate : ∀ s ∈ fourPaths, ∀ s' ∈ fourPaths,
      lockedClient.files.locate s = lockedClient.files.locate s' → s = s' := by decide
  refine ⟨by decide, fun s hs => ?_, fun _ _ => rfl, fun _ _ _ _ => rfl,
    fun s s' hs => hseparate s hs s'⟩
  obtain ⟨p, hp⟩ := Option.isSome_iff_exists.mp (hlocated s hs)
  have hnone := hnew s hs
  rw [FileSystem.lookup, hp, Option.bind_some] at hnone
  exact ⟨p, hp, rfl, by rw [hnone]; exact (Option.some_ne_none _).symm⟩

theorem twoFiles_arrive :
    ∃ w' : Client.ClientState,
      receiveRun (h := pageHost.1) .upload twoFiles bothFiles lockedClient = .ok () w' ∧
      w'.files.content (txt "./sync_a") = some [1, 2] := by
  have hnames : Function.Injective fun b => (twoFiles b).name := by
    intro b b' he
    revert b b'
    decide
  have harrive := transfers_undisturbed pageHost.1 .upload twoFiles lockedClient fourPaths_map
    (by decide) hnames (by decide) (fun _ => rfl) (by decide) bothFiles_shuffles
  obtain ⟨w', hrun, hcontent, -⟩ := harrive
  exact ⟨w', hrun, hcontent false⟩

end SyncWizard.Properties
