import SyncWizard.Client.Inotify
import SyncWizard.Properties.WatchedEvents

/-! What the client makes of the file events it has recorded. The reader takes the buffer for one command
and its elements for the words of it, so that no event is ever read. -/

namespace SyncWizard.Properties
open Foundation Common Client InotifyEvent

inductive EventKind where
  | create
  | modify
  | delete
  deriving DecidableEq, Repr

structure RecordedEvent where
  kind : EventKind
  filename : Text
  deriving DecidableEq, Repr

def EventKind.word : EventKind → Text
  | .create => txt "create"
  | .modify => txt "modify"
  | .delete => txt "delete"

def EventKind.bit : EventKind → BitVec 32
  | .create => IN_CREATE
  | .modify => IN_MODIFY
  | .delete => IN_DELETE

namespace RecordedEvent

def line (e : RecordedEvent) : Text := txt "inotify|" ++ e.kind.word ++ txt "|" ++ e.filename

def branch (e : RecordedEvent) : InotifyBranch :=
  match e.kind with
  | .create => .upload e.kind.word e.filename
  | .modify => .upload e.kind.word e.filename
  | .delete => .deletion e.kind.word e.filename

end RecordedEvent

def recordings : InotifyStep → List RecordedEvent
  | .record event => [EventKind.create, .modify, .delete].flatMap fun k =>
      if event.mask &&& k.bit ≠ 0 then [⟨k, event.filename⟩] else []
  | .call => []

def freshReader : InotifyReader := ⟨⟨Chars.zero 1024, [], []⟩, []⟩

structure ReadOut (events : List RecordedEvent) (r : InotifyReader) : Prop where
  taken : r.taken.filter (fun b => b ≠ .invalid) = events.map RecordedEvent.branch
  cleared : ∀ e ∈ events, e.line ∉ r.watcher.inotifyBuffer

def ReadsBack (events : List RecordedEvent) : Prop :=
  ∃ steps : List InotifyStep, .call ∈ steps ∧ steps.flatMap recordings = events ∧
    ReadOut events (final (forEach InotifyStep.perform steps freshReader))

structure Unread (events : List RecordedEvent) (r : InotifyReader) : Prop where
  buffer : r.watcher.inotifyBuffer = events.map RecordedEvent.line
  taken : ∀ b ∈ r.taken, b = .invalid

section Steps
variable {events : List RecordedEvent} {r : InotifyReader}

theorem line_ne {word : Text} (hw : word.head? ≠ some 105) (e : RecordedEvent) : e.line ≠ word := by
  rintro rfl
  exact hw rfl

theorem inotifyBranch_lines (events : List RecordedEvent) :
    inotifyBranch (events.map RecordedEvent.line) = .invalid := by
  match events with
  | [] => rfl
  | [_] => rfl
  | [_, _] => rfl
  | [_, e, _] =>
    have hcreate : e.line ≠ txt "create" := line_ne (by decide) e
    have hmodify : e.line ≠ txt "modify" := line_ne (by decide) e
    have hdelete : e.line ≠ txt "delete" := line_ne (by decide) e
    simp only [List.map_cons, List.map_nil, inotifyBranch, hcreate, hmodify, hdelete, or_self, if_false]
  | _ :: _ :: _ :: _ :: _ => rfl

theorem recordings_lines (event : FileEvent) :
    (recordings (.record event)).map RecordedEvent.line =
      (if event.mask &&& IN_CREATE ≠ 0 then [txt "inotify|create|" ++ event.filename] else []) ++
      (if event.mask &&& IN_MODIFY ≠ 0 then [txt "inotify|modify|" ++ event.filename] else []) ++
      (if event.mask &&& IN_DELETE ≠ 0 then [txt "inotify|delete|" ++ event.filename] else []) := by
  have hkind (k : EventKind) {command : Text} (hc : txt "inotify|" ++ k.word ++ txt "|" = command) :
      (if event.mask &&& k.bit ≠ 0 then [RecordedEvent.mk k event.filename] else []).map
        RecordedEvent.line = if event.mask &&& k.bit ≠ 0 then [command ++ event.filename] else [] := by
    rw [← hc]
    split_ifs <;> rfl
  rw [recordings, List.map_flatMap, List.flatMap_cons, List.flatMap_cons, List.flatMap_cons,
    List.flatMap_nil, List.append_nil, hkind .create (by decide : _ = txt "inotify|create|"),
    hkind .modify (by decide : _ = txt "inotify|modify|"),
    hkind .delete (by decide : _ = txt "inotify|delete|"), ← List.append_assoc]
  rfl

theorem record_unread (hu : Unread events r) (event : FileEvent) :
    ∃ r', (InotifyStep.record event).perform r = .ok () r' ∧
      Unread (events ++ recordings (.record event)) r' := by
  have hlines := recordings_lines event
  have hrun : (InotifyStep.record event).perform r = .ok ()
      { r with watcher := { r.watcher with inotifyBuffer :=
        r.watcher.inotifyBuffer ++ (recordings (.record event)).map RecordedEvent.line } } := by
    rw [hlines, InotifyStep.perform]
    exact run_zoom_ok (processEvent_run event.filename event.mask r.watcher)
  refine ⟨_, hrun, ?_, hu.taken⟩
  rw [hu.buffer, ← List.map_append]

theorem call_unread (hu : Unread events r) :
    ∃ r', InotifyStep.call.perform r = .ok () r' ∧ Unread (events ++ recordings .call) r' := by
  rw [recordings, List.append_nil]
  by_cases hempty : r.watcher.inotifyBuffer = []
  · refine ⟨r, ?_, hu⟩
    rw [InotifyStep.perform, senderInotify, run_bind_ok (run_get r), if_neg (not_not_intro hempty)]
    rfl
  · refine ⟨{ r with taken := r.taken ++ [.invalid] }, ?_, hu.buffer, ?_⟩
    · rw [InotifyStep.perform, senderInotify, run_bind_ok (run_get r), if_pos hempty,
        processInotifyCommands, run_modify, hu.buffer, inotifyBranch_lines]
    · intro b hb
      rcases List.mem_append.mp hb with hb | hb
      · exact hu.taken b hb
      · exact List.mem_singleton.mp hb

theorem steps_unread (steps : List InotifyStep) (hu : Unread events r) :
    ∃ r', forEach InotifyStep.perform steps r = .ok () r' ∧
      Unread (events ++ steps.flatMap recordings) r' := by
  induction steps generalizing events r with
  | nil => exact ⟨r, rfl, by rwa [List.flatMap_nil, List.append_nil]⟩
  | cons step steps ih =>
    have hstep : ∃ r', step.perform r = .ok () r' ∧ Unread (events ++ recordings step) r' := by
      cases step with
      | record event => exact record_unread hu event
      | call => exact call_unread hu
    obtain ⟨r₁, hrun, hu₁⟩ := hstep
    obtain ⟨r₂, hruns, hu₂⟩ := ih hu₁
    refine ⟨r₂, (run_bind_ok hrun _).trans hruns, ?_⟩
    rwa [List.flatMap_cons, ← List.append_assoc]

theorem runs_unread (steps : List InotifyStep) :
    Unread (steps.flatMap recordings) (final (forEach InotifyStep.perform steps freshReader)) := by
  have hstart : Unread [] freshReader := ⟨rfl, fun b hb => absurd hb List.not_mem_nil⟩
  obtain ⟨r, hrun, hu⟩ := steps_unread steps hstart
  rw [hrun]
  exact hu

theorem not_readOut (hu : Unread events r) (hne : events ≠ []) : ¬ ReadOut events r := by
  intro hread
  obtain ⟨e, rest, rfl⟩ := List.exists_cons_of_ne_nil hne
  refine hread.cleared e List.mem_cons_self ?_
  rw [hu.buffer]
  exact List.mem_map_of_mem List.mem_cons_self

end Steps

/-- Whatever was recorded, and however often the reader is called, nothing is read. -/
theorem never_read_back (events : List RecordedEvent) (hne : events ≠ []) : ¬ ReadsBack events := by
  rintro ⟨steps, -, rfl, hread⟩
  exact not_readOut (runs_unread steps) hne hread

def plan : RecordedEvent := ⟨.create, txt "plan"⟩

theorem plan_unread : ¬ ReadsBack [plan] := never_read_back [plan] (List.cons_ne_nil _ _)

theorem plan_invalid :
    final (forEach InotifyStep.perform [.record ⟨txt "plan", IN_CREATE⟩, .call] freshReader) =
      ⟨⟨Chars.zero 1024, [txt "inotify|create|plan"], []⟩, [.invalid]⟩ ∧ ¬ ReadsBack [plan] := by
  refine ⟨rfl, ?_⟩
  rintro ⟨steps, -, he, hread⟩
  have hu := runs_unread steps
  rw [he] at hu
  exact not_readOut hu (List.cons_ne_nil _ _) hread

end SyncWizard.Properties
