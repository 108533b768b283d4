import SyncWizard.Properties.IntactFiles
import SyncWizard.Properties.SeparateTransfers

/-! Transfers that broke off and are made again. The temporary is opened at its end whatever the number
of the packet, so what an earlier transfer left in it comes before the file. -/

namespace SyncWizard.Properties
open Foundation Common

/-! ## One packet -/

section Packets
variable {h : Host} {f g : FileSystem} {path : Text} {p : Path} {packet : Packet} {locked : Bool}

def leftover (f : FileSystem) (path : Text) : Text := (f.content (path ++ temporarySuffix)).getD []

def Clear (h : Host) (f : FileSystem) (path : Text) : Prop :=
  (∃ p, FileSystem.Opens h f (path ++ temporarySuffix) p) ∧ ∃ q, FileSystem.Completes h f path q

theorem leftover_eq (hp : f.locate (path ++ temporarySuffix) = some p) :
    leftover f path = f.contentAt p := by
  rw [leftover, FileSystem.content, FileSystem.lookup, hp, Option.bind_some, FileSystem.contentAt]
  cases f.node p with
  | none => rfl
  | some n =>
    cases n with
    | directory => rfl
    | file c => rfl

theorem clear_appended (hn : nul ∉ path) (ho : FileSystem.Opens h f (path ++ temporarySuffix) p)
    {text : Text} (hc : g.cwd = f.cwd) (hnode : g.node = Function.update f.node p (some (.file text))) :
    Clear h g path ↔ Clear h f path := by
  have hlocate := (ho.content hc hnode).1
  have hopens : FileSystem.Opens h g (path ++ temporarySuffix) p := by
    refine ⟨by rw [hlocate, ho.located], ho.allowed, ?_⟩
    rw [hnode, Function.update_self]
    exact FileSystem.file_ne_directory text
  refine and_congr (iff_of_true ⟨p, hopens⟩ ⟨p, ho⟩) (exists_congr fun q => ?_)
  constructor
  · rintro ⟨hd, hq, ha, hdir⟩
    rw [hlocate] at hq
    rw [hnode, Function.update_of_ne (FileSystem.temporary_ne hn ho.located hq)] at hdir
    exact ⟨hd, hq, ha, hdir⟩
  · rintro ⟨hd, hq, ha, hdir⟩
    refine ⟨hd, by rw [hlocate, hq], ha, ?_⟩
    rw [hnode, Function.update_of_ne (FileSystem.temporary_ne hn ho.located hq)]
    exact hdir

theorem clear_gathers (locked : Bool) (hn : nul ∉ path) (hb : packet.Exact)
    (hlast : packet.isLast = false)
    (hr : Clear h f path) :
    ∃ g, quiet (receiveChunk h path locked packet) f = .ok () g ∧ Clear h g path ∧
      leftover g path = leftover f path ++ packet.bytes := by
  obtain ⟨p, ho⟩ := hr.1
  have hmiddle : packet.isLast = true → locked = true → ∀ q, ¬ FileSystem.Completes h f path q := by
    intro he
    rw [hlast] at he
    cases he
  obtain ⟨g, hrun, hcwd, hnode⟩ := FileSystem.receiveChunk_gathers locked hn hb ho hmiddle
  have htext := (ho.content hcwd hnode).2
  refine ⟨g, hrun, (clear_appended hn ho hcwd hnode).mpr hr, ?_⟩
  rw [leftover_eq ho.located, leftover, htext, Option.getD_some]

theorem clear_completes (hn : nul ∉ path) (hb : packet.Exact) (hlast : packet.isLast = true)
    (hr : Clear h f path) :
    ∃ g, quiet (receiveChunk h path true packet) f = .ok () g ∧
      g.content path = some (leftover f path ++ packet.bytes) := by
  obtain ⟨⟨p, ho⟩, q, hq⟩ := hr
  obtain ⟨g, hrun, hcwd, -, hnode⟩ := FileSystem.receiveChunk_completes hn hb hlast ho hq
  have hlocate := FileSystem.moved_locate ho.noDirectory hq.renames.noDirectory hcwd hnode
  refine ⟨g, hrun, FileSystem.content_of_node (p := q) ?_ ?_⟩
  · rw [hlocate, hq.renames.located]
  · rw [hnode, Function.update_self, leftover_eq ho.located]

theorem stuck_kept (hn : nul ∉ path) (hb : packet.Exact) (hstuck : ¬ (locked = true ∧ Clear h f path)) :
    ∃ g, quiet (receiveChunk h path locked packet) f = .ok () g ∧
      ¬ (locked = true ∧ Clear h g path) ∧ g.content path = f.content path := by
  by_cases ho : ∃ p, FileSystem.Opens h f (path ++ temporarySuffix) p
  · obtain ⟨p, ho⟩ := ho
    have hno : packet.isLast = true → locked = true → ∀ q, ¬ FileSystem.Completes h f path q :=
      fun _ hlocked q hq => hstuck ⟨hlocked, ⟨p, ho⟩, q, hq⟩
    obtain ⟨g, hrun, hcwd, hnode⟩ := FileSystem.receiveChunk_gathers locked hn hb ho hno
    refine ⟨g, hrun, ?_, (appended_same hn ho hcwd hnode).2⟩
    rw [clear_appended hn ho hcwd hnode]
    exact hstuck
  · refine ⟨_, FileSystem.receiveChunk_unopened locked packet (not_exists.mp ho), ?_, rfl⟩
    rintro ⟨-, ⟨p, hp⟩, -⟩
    exact ho ⟨p, hp.located, hp.allowed, hp.noDirectory⟩

end Packets

/-! ## Runs -/

section Runs
variable {h : Host} (k : Receiver) (first second : Incoming) (before : List Packet)
  (w : (k.handler h).State)

/-- The packets of the first transfer that came before it broke off, and then the whole second one. -/
def redoneCalls : List (Incoming × Packet) :=
  before.map (Prod.mk first) ++ second.packets.map (Prod.mk second)

def redoneRun : Exec (k.handler h).State Unit := receiveRun k id (redoneCalls first second before)

def redonePath : Text := (k.handler h).directory w ++ second.name

def Redone : Prop :=
  ((k.handler h).files (final (redoneRun k first second before w))).content (redonePath k second w) =
    some second.content

/-- The file has its mutex, and its temporary can be opened, digested and moved over it. -/
def Transferable : Prop :=
  (k.handler h).lock w second.name = some .live ∧
    Clear h ((k.handler h).files w) (redonePath k second w)

end Runs

section Running
variable {h : Host} {k : Receiver} {name : Text} {w : (k.handler h).State}
  {calls : List (Incoming × Packet)}
  (hn : nul ∉ (k.handler h).directory w ++ name) (hname : ∀ c ∈ calls, c.1.name = name)
  (hb : ∀ c ∈ calls, c.2.Exact)
include hn hname hb

theorem receiveRun_gathers (hlock : (k.handler h).lock w name = some .live)
    (hlast : ∀ c ∈ calls, c.2.isLast = false) : ∀ {f : FileSystem},
      Clear h f ((k.handler h).directory w ++ name) →
      ∃ g, receiveRun k id calls ((k.handler h).withFiles f w) = .ok () ((k.handler h).withFiles g w) ∧
        Clear h g ((k.handler h).directory w ++ name) ∧
        leftover g ((k.handler h).directory w ++ name) =
          leftover f ((k.handler h).directory w ++ name) ++ calls.flatMap fun c => c.2.bytes := by
  induction calls with
  | nil => exact fun {f} hr => ⟨f, rfl, hr, (List.append_nil _).symm⟩
  | cons c calls ih =>
    intro f hr
    obtain ⟨hname₁, hname₂⟩ := List.forall_mem_cons.mp hname
    obtain ⟨hb₁, hb₂⟩ := List.forall_mem_cons.mp hb
    obtain ⟨hlast₁, hlast₂⟩ := List.forall_mem_cons.mp hlast
    obtain ⟨g, hrun, hr', htext⟩ := clear_gathers true hn hb₁ hlast₁ hr
    have hcall := receiveCall_live (t := id) (c := c) (w := w) (hname₁ ▸ hlock) (by
      rw [pathOf, id, hname₁]
      exact hrun)
    obtain ⟨g', hruns, hr'', htexts⟩ := ih hname₂ hb₂ hlast₂ hr'
    refine ⟨g', (run_bind_ok hcall _).trans hruns, hr'', ?_⟩
    rw [htexts, htext, List.append_assoc, List.flatMap_cons]

theorem receiveRun_completes (hlock : (k.handler h).lock w name = some .live)
    (hlast : ∀ c ∈ calls, c.2.isLast = false) {f : FileSystem}
    (hr : Clear h f ((k.handler h).directory w ++ name)) {t : Incoming} {packet : Packet}
    (ht : t.name = name) (hexact : packet.Exact) (hends : packet.isLast = true) :
    ∃ g, receiveRun k id (calls ++ [(t, packet)]) ((k.handler h).withFiles f w) =
        .ok () ((k.handler h).withFiles g w) ∧
      g.content ((k.handler h).directory w ++ name) =
        some (leftover f ((k.handler h).directory w ++ name) ++ (calls.flatMap fun c => c.2.bytes) ++
          packet.bytes) := by
  subst ht
  obtain ⟨g, hrun, hclear, htext⟩ := receiveRun_gathers hn hname hb hlock hlast hr
  obtain ⟨g', hcomplete, hcontent⟩ := clear_completes hn hexact hends hclear
  have hcall : receiveCall k id (t, packet) ((k.handler h).withFiles g w) =
      .ok () ((k.handler h).withFiles g' w) := receiveCall_live hlock hcomplete
  refine ⟨g', ?_, ?_⟩
  · exact (run_forEach_append hrun _).trans (run_bind_ok hcall _)
  · rw [hcontent, htext]

theorem receiveRun_stuck : ∀ {f : FileSystem},
    ¬ ((k.handler h).lock w name = some .live ∧ Clear h f ((k.handler h).directory w ++ name)) →
    ((k.handler h).files (final (receiveRun k id calls ((k.handler h).withFiles f w)))).content
        ((k.handler h).directory w ++ name) =
      f.content ((k.handler h).directory w ++ name) := by
  induction calls with
  | nil =>
    intro f _
    change ((k.handler h).files ((k.handler h).withFiles f w)).content _ = _
    rw [handler_files]
  | cons c calls ih =>
    intro f hstuck
    obtain ⟨hname₁, hname₂⟩ := List.forall_mem_cons.mp hname
    obtain ⟨hb₁, hb₂⟩ := List.forall_mem_cons.mp hb
    rw [← beq_iff_eq] at hstuck
    obtain ⟨g, hrun, hstuck', hsame⟩ := stuck_kept hn hb₁ hstuck
    rw [beq_iff_eq] at hstuck'
    have hfinal : final (receiveCall k id c ((k.handler h).withFiles f w)) =
        (k.handler h).withFiles g w := by
      rw [receiveCall, final_quiet, id, hname₁, handler_final k c.1.accepted, handler_lock,
        handler_directory, handler_files, handler_withFiles, hrun, final_ok]
    rw [← hsame]
    cases hcall : receiveCall k id c ((k.handler h).withFiles f w) with
    | ok u w' =>
      rw [hcall, final_ok] at hfinal
      rw [hfinal] at hcall
      rw [receiveRun, forEach, run_bind_ok hcall]
      exact ih hname₂ hb₂ hstuck'
    | error e w' =>
      rw [hcall, final_error] at hfinal
      rw [receiveRun, forEach, run_bind_error hcall, final_error, hfinal, handler_files]

end Running

/-! ## A transfer that is made again -/

section Redoing
variable {h : Host} {k : Receiver} {first second : Incoming} {before : List Packet}
  {w : (k.handler h).State}

theorem Incoming.broken_off (t : Incoming) (hp : before <+: t.packets) (hproper : before ≠ t.packets) :
    ∀ x ∈ before, x.isLast = false := by
  obtain ⟨front, p, hpackets, -, hfront⟩ := t.last_packet
  rw [hpackets] at hp hproper
  have hbefore : before <+: front := (List.prefix_concat_iff.mp hp).resolve_left hproper
  exact fun x hx => hfront x (hbefore.subset hx)

section Calls
variable (hname : first.name = second.name) (hp : before <+: first.packets)
include hname

variable (before) in
theorem redoneCalls_name : ∀ c ∈ redoneCalls first second before, c.1.name = second.name := by
  intro c hc
  rcases List.mem_append.mp hc with hc | hc
  · obtain ⟨x, -, rfl⟩ := List.mem_map.mp hc
    exact hname
  · obtain ⟨x, -, rfl⟩ := List.mem_map.mp hc
    rfl

variable (second) in
omit hname in
include hp in
theorem redoneCalls_exact : ∀ c ∈ redoneCalls first second before, c.2.Exact := by
  intro c hc
  rcases List.mem_append.mp hc with hc | hc
  · obtain ⟨x, hx, rfl⟩ := List.mem_map.mp hc
    exact first.exact x (hp.subset hx)
  · obtain ⟨x, hx, rfl⟩ := List.mem_map.mp hc
    exact second.exact x hx

include hp

theorem redone_transferred (hproper : before ≠ first.packets) (hn : nul ∉ redonePath k second w)
    (ht : Transferable k second w) :
    ((k.handler h).files (final (redoneRun k first second before w))).content (redonePath k second w) =
      some (leftover ((k.handler h).files w) (redonePath k second w) ++ before.flatMap Packet.bytes ++
        second.content) := by
  obtain ⟨front, p, hpackets, hlast, hfront⟩ := second.last_packet
  let middle := before.map (Prod.mk first) ++ front.map (Prod.mk second)
  have hsplit : redoneCalls first second before = middle ++ [(second, p)] := by
    rw [redoneCalls, hpackets, List.map_append, ← List.append_assoc]
    rfl
  have hnames := redoneCalls_name before hname
  have hexact := redoneCalls_exact second hp
  rw [hsplit] at hnames hexact
  have hmiddle : ∀ c ∈ middle, c.2.isLast = false := by
    intro c hc
    rcases List.mem_append.mp hc with hc | hc
    · obtain ⟨x, hx, rfl⟩ := List.mem_map.mp hc
      exact first.broken_off hp hproper x hx
    · obtain ⟨x, hx, rfl⟩ := List.mem_map.mp hc
      exact hfront x hx
  obtain ⟨g, hrun, hcontent⟩ := receiveRun_completes hn
    (fun c hc => hnames c (List.mem_append_left _ hc))
    (fun c hc => hexact c (List.mem_append_left _ hc)) ht.1 hmiddle ht.2 (t := second) rfl
    (second.exact p (by rw [hpackets]; simp)) hlast
  rw [handler_withFiles_self] at hrun
  have hbytes : (middle.flatMap fun c => c.2.bytes) =
      before.flatMap Packet.bytes ++ front.flatMap Packet.bytes := by
    rw [List.flatMap_append, List.flatMap_map, List.flatMap_map]
  rw [redoneRun, hsplit, redonePath, hrun, final_ok, handler_files, hcontent, hbytes,
    Incoming.content, hpackets, List.flatMap_append, List.flatMap_singleton]
  simp only [List.append_assoc]

end Calls

theorem redone_iff (hname : first.name = second.name) (hp : before <+: first.packets)
    (hproper : before ≠ first.packets) (hn : nul ∉ redonePath k second w) :
    Redone k first second before w ↔
      Transferable k second w ∧ leftover ((k.handler h).files w) (redonePath k second w) = [] ∧
          before.flatMap Packet.bytes = [] ∨
        ¬ Transferable k second w ∧
          ((k.handler h).files w).content (redonePath k second w) = some second.content := by
  by_cases ht : Transferable k second w
  · rw [and_iff_right ht, or_iff_left fun hboth => hboth.1 ht, ← List.append_eq_nil_iff, Redone,
      redone_transferred hname hp hproper hn ht, Option.some_inj, List.append_left_eq_self]
  · have hkept := receiveRun_stuck hn (redoneCalls_name before hname)
      (redoneCalls_exact second hp) ht
    rw [handler_withFiles_self] at hkept
    rw [and_iff_right ht, or_iff_right fun hboth => ht hboth.1, Redone, redoneRun]
    exact Eq.congr_left hkept

end Redoing

/-- A transfer that broke off is made again with success exactly when the second one gets to its end
and nothing was in the temporary and in the packets that had come, or when it cannot get there and the
file already is what it would bring. -/
theorem transfers_redone_iff (h : Host) (k : Receiver) (first second : Incoming)
    (hname : first.name = second.name) {before : List Packet} (hp : before <+: first.packets)
    (hproper : before ≠ first.packets) (w : (k.handler h).State) (hn : nul ∉ redonePath k second w) :
    Redone k first second before w ↔
      Transferable k second w ∧ leftover ((k.handler h).files w) (redonePath k second w) = [] ∧
          before.flatMap Packet.bytes = [] ∨
        ¬ Transferable k second w ∧
          ((k.handler h).files w).content (redonePath k second w) = some second.content :=
  redone_iff hname hp hproper hn

def firstOfTwo (first : Byte) : Packet :=
  { Packet.init with expectedPackets := 2, payloadSize := 1, payload := some [first] }

def secondOfTwo (second : Byte) : Packet :=
  { Packet.init with
    sequenceNumber := 1, expectedPackets := 2, payloadSize := 1, payload := some [second] }

def twoPackets (name : Text) (first second : Byte) : Incoming where
  name := name
  checksum := txt "both"
  packets := [firstOfTwo first, secondOfTwo second]
  accepted := by decide
  nonempty := List.cons_ne_nil _ _
  size := by
    rw [List.length_cons, List.length_singleton]
    decide
  exact p hp := by
    rcases List.mem_pair.mp hp with rfl | rfl
    · rfl
    · rfl
  numbered before p after he := by
    rcases before with - | ⟨x, - | ⟨y, before⟩⟩
    · obtain ⟨rfl, -⟩ := List.cons.inj he
      rfl
    · obtain ⟨-, he⟩ := List.cons.inj he
      obtain ⟨rfl, -⟩ := List.cons.inj he
      rfl
    · simp at he
  announced p hp := by
    rcases List.mem_pair.mp hp with rfl | rfl
    · rfl
    · rfl

theorem lockedClient_transferable :
    Transferable (h := pageHost.1) .upload (twoByteFile (txt "a") 1 2) lockedClient := by
  have hfile : txt "./sync_a" ∈ fourPaths := by decide
  have htemporary : txt "./sync_a.swizdownload" ∈ fourPaths := by decide
  obtain ⟨p, hp⟩ := fourPaths_map.opens _ htemporary
  obtain ⟨q, hq⟩ := fourPaths_map.opens _ hfile
  exact ⟨rfl, ⟨p, hp⟩, q, rfl, hq.located, rfl, hq.noDirectory⟩

theorem unstarted_redone :
    Redone (h := pageHost.1) .upload (twoPackets (txt "a") 3 4) (twoByteFile (txt "a") 1 2) []
      lockedClient :=
  (transfers_redone_iff pageHost.1 .upload (twoPackets (txt "a") 3 4) (twoByteFile (txt "a") 1 2) rfl
    List.nil_prefix (List.cons_ne_nil _ _).symm lockedClient (by decide)).mpr
      (.inl ⟨lockedClient_transferable, by decide, rfl⟩)

theorem started_not_redone :
    ¬ ∀ (h : Host) (k : Receiver) (first second : Incoming) (before : List Packet)
      (w : (k.handler h).State), first.name = second.name → before <+: first.packets →
        before ≠ first.packets → nul ∉ redonePath k second w → Redone k first second before w := by
  intro hall
  have hp : [firstOfTwo 3] <+: (twoPackets (txt "a") 3 4).packets := ⟨[secondOfTwo 4], rfl⟩
  have hproper : [firstOfTwo 3] ≠ (twoPackets (txt "a") 3 4).packets := by
    intro he
    cases congrArg List.length he
  have hname : (twoPackets (txt "a") 3 4).name = (twoByteFile (txt "a") 1 2).name := rfl
  have hredone := hall pageHost.1 .upload (twoPackets (txt "a") 3 4) (twoByteFile (txt "a") 1 2)
    [firstOfTwo 3] lockedClient hname hp hproper (by decide)
  rcases (redone_iff hname hp hproper (by decide)).mp hredone with ⟨-, -, hbytes⟩ | ⟨hstuck, -⟩
  · have hbyte : [firstOfTwo 3].flatMap Packet.bytes = [3] := rfl
    cases hbyte.symm.trans hbytes
  · exact hstuck lockedClient_transferable

end SyncWizard.Properties
