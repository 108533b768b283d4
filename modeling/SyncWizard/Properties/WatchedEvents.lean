import SyncWizard.Common.InotifyWatcher
import SyncWizard.Common.Packet

/-! The reader of file events. The length in each header leads to the next one, so that a buffer of whole
events is walked through event by event. -/

namespace SyncWizard.Properties
open Foundation Common InotifyWatcher InotifyEvent

/-- An event as the kernel writes it: a name is padded with NULs, and there is one behind the name of a
file that was created, modified or deleted. -/
structure KernelEvent where
  wd : BitVec 32
  mask : BitVec 32
  cookie : BitVec 32
  name : Text
  padding : ℕ
  plain : nul ∉ name
  ended : mask &&& (IN_CREATE ||| IN_MODIFY ||| IN_DELETE) ≠ 0 → 0 < padding

namespace KernelEvent

def field (e : KernelEvent) : Text := e.name ++ List.replicate e.padding nul

def header (e : KernelEvent) : InotifyEvent := ⟨e.wd, e.mask, e.cookie, BitVec.ofNat 32 e.field.length⟩

def bytes (e : KernelEvent) : Text := e.header.bytes ++ e.field

def reports (e : KernelEvent) : List Text :=
  if e.mask &&& IN_ISDIR ≠ 0 then []
  else
    (if e.mask &&& IN_CREATE ≠ 0 then [txt "inotify|create|" ++ e.name] else []) ++
    (if e.mask &&& IN_MODIFY ≠ 0 then [txt "inotify|modify|" ++ e.name] else []) ++
    (if e.mask &&& IN_DELETE ≠ 0 then [txt "inotify|delete|" ++ e.name] else [])

end KernelEvent

def streamOfEvents (events : List KernelEvent) : Text := events.flatMap KernelEvent.bytes

section Reading
variable {e : KernelEvent} {w : InotifyWatcher} {before after : Text}

theorem read_bytes (e : InotifyEvent) (rest : Text) : InotifyEvent.read (e.bytes ++ rest) = e := by
  obtain ⟨wd, mask, cookie, len⟩ := e
  have h4 (n : ℕ) : (bytesOf 4 n).length = 4 := bytesOf_length 4 n
  have hnumber (v : BitVec 32) (xs : Text) :
      BitVec.ofNat 32 (valueOf ((bytesOf 4 v.toNat ++ xs).take 4)) = v := by
    rw [List.take_left' (h4 _), ofNat_valueOf_bytesOf (by decide)]
  have d4 (n : ℕ) (xs : Text) : (bytesOf 4 n ++ xs).drop 4 = xs := List.drop_left' (h4 n)
  have d8 (n m : ℕ) (xs : Text) : (bytesOf 4 n ++ (bytesOf 4 m ++ xs)).drop 8 = xs := by
    rw [show 8 = 4 + 4 from rfl, ← List.drop_drop, d4, d4]
  have d12 (n m k : ℕ) (xs : Text) :
      (bytesOf 4 n ++ (bytesOf 4 m ++ (bytesOf 4 k ++ xs))).drop 12 = xs := by
    rw [show 12 = 4 + 8 from rfl, ← List.drop_drop, d4, d8]
  simp only [InotifyEvent.read, InotifyEvent.bytes, List.append_assoc, d4, d8, d12, hnumber]

theorem toInt_small {n : ℕ} (hn : n < 2 ^ 31) :
    (BitVec.ofNat 32 n).toNat = n ∧ (BitVec.ofNat 32 n).toInt = n := by
  have hnat : (BitVec.ofNat 32 n).toNat = n := by
    rw [BitVec.toNat_ofNat, Nat.mod_eq_of_lt (by omega)]
  refine ⟨hnat, ?_⟩
  rw [BitVec.toInt_eq_toNat_of_lt (by rw [hnat]; omega), hnat]

theorem kernel_bytes_length (e : KernelEvent) : e.bytes.length = size + e.field.length := by
  rw [KernelEvent.bytes, List.length_append, bytes_length]

end Reading

/-! ## One event -/

section Visiting
variable {e : KernelEvent} {w : InotifyWatcher} {before after : Text}

def noted (e : KernelEvent) (w : InotifyWatcher) : InotifyWatcher :=
  { w with visited := w.visited ++ [e.header], inotifyBuffer := w.inotifyBuffer ++ e.reports }

theorem pushWhere_run (bit : BitVec 32) (command name : Text) (mask : BitVec 32) (w : InotifyWatcher) :
    pushWhere bit command ⟨name, mask⟩ w = .ok ()
      { w with inotifyBuffer := w.inotifyBuffer ++ if mask &&& bit ≠ 0 then
        [command ++ name] else [] } := by
  rw [pushWhere]
  split_ifs
  · rfl
  · rw [List.append_nil]
    rfl

theorem processEvent_run (name : Text) (mask : BitVec 32) (w : InotifyWatcher) :
    processEvent ⟨name, mask⟩ w = .ok () { w with inotifyBuffer := w.inotifyBuffer ++
      ((if mask &&& IN_CREATE ≠ 0 then [txt "inotify|create|" ++ name] else []) ++
        (if mask &&& IN_MODIFY ≠ 0 then [txt "inotify|modify|" ++ name] else []) ++
        (if mask &&& IN_DELETE ≠ 0 then [txt "inotify|delete|" ++ name] else [])) } := by
  rw [processEvent, run_bind_ok (pushWhere_run ..), run_bind_ok (pushWhere_run ..), pushWhere_run,
    List.append_assoc, List.append_assoc, List.append_assoc]

theorem stringAt_padded {name : Text} {padding : ℕ} (hname : nul ∉ name) (hp : 0 < padding)
    (rest : Text) (w : InotifyWatcher) :
    stringAt (name ++ List.replicate padding nul ++ rest) w = .ok name w := by
  obtain ⟨k, rfl⟩ := Nat.exists_eq_add_one_of_ne_zero hp.ne'
  rw [List.append_assoc, List.replicate_succ, List.cons_append, stringAt,
    if_pos (List.mem_append_right _ List.mem_cons_self), takeWhile_ended hname]
  rfl

theorem eventAt_run (hb : w.notifyBuffer.1 = before ++ (e.bytes ++ after))
    (hsmall : w.notifyBuffer.1.length < 2 ^ 31) :
    eventAt (BitVec.ofNat 32 before.length) w =
      .ok e.header { w with visited := w.visited ++ [e.header] } := by
  have hlen := congrArg List.length hb
  rw [List.length_append, List.length_append, kernel_bytes_length] at hlen
  obtain ⟨hnat, hint⟩ := toInt_small (n := before.length) (by omega)
  have hinside : ¬ ((BitVec.ofNat 32 before.length).toInt < 0 ∨
      w.notifyBuffer.1.length < (BitVec.ofNat 32 before.length).toNat + size) := by
    rw [hnat, hint]
    omega
  have hread : InotifyEvent.read (w.notifyBuffer.1.drop (BitVec.ofNat 32 before.length).toNat) =
      e.header := by
    rw [hnat, hb, List.drop_left, KernelEvent.bytes, List.append_assoc, read_bytes]
  rw [eventAt, if_neg hinside, hread]

theorem reports_nil (hno : e.mask &&& (IN_CREATE ||| IN_MODIFY ||| IN_DELETE) = 0) :
    e.reports = [] := by
  have hbit {bit : BitVec 32} (hsub : (IN_CREATE ||| IN_MODIFY ||| IN_DELETE) &&& bit = bit) :
      e.mask &&& bit = 0 := by
    rw [← hsub, ← BitVec.and_assoc, hno]
    exact BitVec.zero_and
  have hcreate : e.mask &&& IN_CREATE = 0 := hbit (by decide)
  have hmodify : e.mask &&& IN_MODIFY = 0 := hbit (by decide)
  have hdelete : e.mask &&& IN_DELETE = 0 := hbit (by decide)
  simp only [KernelEvent.reports, hcreate, hmodify, hdelete, ne_eq, not_true_eq_false, if_false,
    List.append_nil, ite_self]

theorem processFile_run (hb : w.notifyBuffer.1 = before ++ (e.bytes ++ after))
    (hsmall : before.length < 2 ^ 31) :
    processFile (BitVec.ofNat 32 before.length) e.header w =
      .ok () { w with inotifyBuffer := w.inotifyBuffer ++ e.reports } := by
  have hmask : e.header.mask = e.mask := rfl
  rw [processFile, hmask]
  by_cases hfile : e.mask &&& (IN_CREATE ||| IN_MODIFY ||| IN_DELETE) ≠ 0
  · rw [if_pos hfile]
    by_cases hdir : e.mask &&& IN_ISDIR = 0
    · have hname : w.notifyBuffer.1.drop ((BitVec.ofNat 32 before.length).toNat + size) =
          e.name ++ List.replicate e.padding nul ++ after := by
        rw [(toInt_small hsmall).1, ← List.drop_drop, hb, List.drop_left, KernelEvent.bytes,
          List.append_assoc, List.drop_left' (bytes_length _)]
        rfl
      have hstring := stringAt_padded e.plain (e.ended hfile) after w
      rw [← hname] at hstring
      rw [if_pos hdir, run_bind_ok (run_get w), run_bind_ok hstring, processEvent_run,
        KernelEvent.reports, if_neg (not_not.mpr hdir)]
    · rw [if_neg hdir, KernelEvent.reports, if_pos hdir, List.append_nil]
      rfl
  · rw [if_neg hfile, reports_nil (not_not.mp hfile), List.append_nil]
    rfl

theorem visitEvent_run (hb : w.notifyBuffer.1 = before ++ (e.bytes ++ after))
    (hsmall : w.notifyBuffer.1.length < 2 ^ 31) :
    visitEvent (BitVec.ofNat 32 before.length) w =
      .ok (BitVec.ofNat 32 (before.length + e.bytes.length)) (noted e w) := by
  have hnext : BitVec.ofNat 32 before.length + BitVec.ofNat 32 size + e.header.len =
      BitVec.ofNat 32 (before.length + e.bytes.length) := by
    rw [kernel_bytes_length, ← Nat.add_assoc, BitVec.ofNat_add, BitVec.ofNat_add]
    rfl
  have hbefore : before.length < 2 ^ 31 := by
    rw [hb, List.length_append] at hsmall
    omega
  let w₁ : InotifyWatcher := { w with visited := w.visited ++ [e.header] }
  have hfile : processFile (BitVec.ofNat 32 before.length) e.header w₁ = .ok () (noted e w) :=
    processFile_run (w := w₁) hb hbefore
  rw [visitEvent, run_bind_ok (eventAt_run hb hsmall), run_bind_ok hfile, hnext]
  rfl

end Visiting

/-! ## A whole buffer -/

def notedAll (events : List KernelEvent) (w : InotifyWatcher) : InotifyWatcher :=
  { w with
    visited := w.visited ++ events.map KernelEvent.header
    inotifyBuffer := w.inotifyBuffer ++ events.flatMap KernelEvent.reports }

theorem notedAll_cons (e : KernelEvent) (events : List KernelEvent) (w : InotifyWatcher) :
    notedAll events (noted e w) = notedAll (e :: events) w := by
  simp only [notedAll, noted, List.map_cons, List.flatMap_cons,
    List.append_assoc, List.singleton_append]

theorem eventLoop_run {after : Text} (events : List KernelEvent) :
    ∀ (before : Text) (w : InotifyWatcher) (fuel : ℕ),
      w.notifyBuffer.1 = before ++ (streamOfEvents events ++ after) →
      w.notifyBuffer.1.length < 2 ^ 31 → events.length < fuel →
      eventLoop (before.length + (streamOfEvents events).length) fuel
        (BitVec.ofNat 32 before.length) w = .ok () (notedAll events w) := by
  induction events with
  | nil =>
    intro before w fuel hb hsmall hf
    obtain ⟨k, rfl⟩ := Nat.exists_eq_add_one_of_ne_zero (Nat.ne_zero_of_lt hf)
    rw [hb, List.length_append] at hsmall
    have hstop : ¬ (BitVec.ofNat 32 before.length).toInt <
        (before.length + (streamOfEvents []).length : ℕ) := by
      rw [(toInt_small (by omega)).2]
      exact lt_irrefl _
    rw [eventLoop, if_neg hstop, notedAll, List.map_nil, List.flatMap_nil, List.append_nil,
      List.append_nil]
    rfl
  | cons e events ih =>
    intro before w fuel hb hsmall hf
    obtain ⟨k, rfl⟩ := Nat.exists_eq_add_one_of_ne_zero (Nat.ne_zero_of_lt hf)
    have hstream : streamOfEvents (e :: events) = e.bytes ++ streamOfEvents events := List.flatMap_cons
    have hsize : 0 < e.bytes.length := by
      rw [kernel_bytes_length]
      exact Nat.add_pos_left (by decide) _
    rw [hstream, List.append_assoc] at hb
    have hbefore : before.length < 2 ^ 31 := by
      rw [hb, List.length_append] at hsmall
      omega
    have hgoes : (BitVec.ofNat 32 before.length).toInt <
        (before.length + (streamOfEvents (e :: events)).length : ℕ) := by
      rw [(toInt_small hbefore).2, hstream, List.length_append]
      omega
    have hahead : (noted e w).notifyBuffer.1 =
        (before ++ e.bytes) ++ (streamOfEvents events ++ after) := by
      rw [List.append_assoc]
      exact hb
    have hrest := ih (before ++ e.bytes) (noted e w) k hahead hsmall (Nat.lt_of_succ_lt_succ hf)
    rw [List.length_append, Nat.add_assoc, ← List.length_append, ← hstream, notedAll_cons] at hrest
    rw [eventLoop, if_pos hgoes, run_bind_ok (visitEvent_run hb hsmall), hrest]

theorem overwrite_short {n : ℕ} (a : Chars n) {bs : Text} (hle : bs.length ≤ n) :
    (a.overwrite bs).1 = bs ++ a.1.drop bs.length := by
  have ha := a.2
  refine List.take_of_length_le ?_
  rw [List.length_append, List.length_drop]
  omega

/-- Every event of a buffer is visited once, and what there is to be reported about them is appended in
their order. -/
theorem events_reported (events : List KernelEvent) (hfits : (streamOfEvents events).length ≤ 1024)
    (w : InotifyWatcher) {fuel : ℕ} (hfuel : events.length < fuel) :
    monitorRound fuel (some (streamOfEvents events)) w = .ok ()
      { notifyBuffer := w.notifyBuffer.overwrite (streamOfEvents events)
        inotifyBuffer := w.inotifyBuffer ++ events.flatMap KernelEvent.reports
        visited := w.visited ++ events.map KernelEvent.header } := by
  let w₁ : InotifyWatcher := { w with notifyBuffer := w.notifyBuffer.overwrite (streamOfEvents events) }
  have hb : w₁.notifyBuffer.1 = [] ++ (streamOfEvents events ++
      w.notifyBuffer.1.drop (streamOfEvents events).length) := overwrite_short _ hfits
  have hsmall : w₁.notifyBuffer.1.length < 2 ^ 31 := by
    rw [w₁.notifyBuffer.2]
    decide
  have hloop := eventLoop_run events [] w₁ fuel hb hsmall hfuel
  rw [List.length_nil, Nat.zero_add] at hloop
  exact hloop

def createdEvent : KernelEvent := ⟨1, IN_CREATE, 0, txt "e", 15, by decide, fun _ => by decide⟩

theorem created_reported :
    monitorRound 2 (some (streamOfEvents [createdEvent])) ⟨Chars.zero 1024, [], []⟩ = .ok ()
      { notifyBuffer := (Chars.zero 1024).overwrite (streamOfEvents [createdEvent])
        inotifyBuffer := [txt "inotify|create|e"]
        visited := [createdEvent.header] } :=
  events_reported [createdEvent] (by decide) ⟨Chars.zero 1024, [], []⟩ (by decide)

end SyncWizard.Properties
