import SyncWizard.Common.Text
import SyncWizard.Foundation.LineEditors
import SyncWizard.Foundation.ReadAhead

/-! The capture of a terminal's keys, `async_cout.cpp`: a queue of lines, the line being typed, what the
terminal is told to show, and the keys on their way. `select` asks the descriptor, while `std::cin`
takes its characters from the buffer of `stdin`. -/

namespace SyncWizard.Common
open Foundation

structure AsyncInput where
  inputBuffer : List Text
  terminalBuffer : Text
  shown : List Text
  stdin : ReadAhead Byte

namespace AsyncInput

def newline : Byte := 10

def space : Byte := 32

def delete : Byte := 127

def stdinBuffer : ℕ := 1024

def prompt : Text := txt "\t#> "

def altprint (content : Text) (endl : Bool) : Exec AsyncInput Unit :=
  modify fun s => { s with shown := s.shown ++
    [txt "\r\x1b[K" ++ content ++ (if endl then [newline] else []) ++ prompt ++ s.terminalBuffer] }

def addToBuffer (c : Byte) : Exec AsyncInput Unit :=
  modify fun s => { s with terminalBuffer := s.terminalBuffer ++ [c] }

def backspaceBuffer : Exec AsyncInput Unit := fun s =>
  if s.terminalBuffer = [] then .error (.crashed .outOfBounds) s
  else .ok () { s with terminalBuffer := s.terminalBuffer.dropLast }

def captureKey (c : Byte) : Exec AsyncInput Unit := do
  if c = newline then do
    modify fun s => { s with inputBuffer := s.inputBuffer ++ [s.terminalBuffer] }
    let typed := (← get).terminalBuffer
    modify fun s => { s with terminalBuffer := [] }
    altprint (prompt ++ typed) true
  else if c = space then do
    addToBuffer space
    altprint [] false
  else if c = delete then do
    if (← get).terminalBuffer ≠ [] then do
      backspaceBuffer
      altprint [] false
  else if isalnum c then do
    addToBuffer c
    altprint [] false

def cinGet : Exec AsyncInput Byte := fun s =>
  match s.stdin.next stdinBuffer with
  | some (c, stdin) => .ok c { s with stdin }
  | none => .error (.crashed .hang) s

def captureRound : Exec AsyncInput Unit := do
  -- `select` and `FD_ISSET`
  if (← get).stdin.waiting.isEmpty then pure ()
  else do
    let c ← cinGet
    captureKey c

def captureMoment : Polling Byte → Exec AsyncInput Unit
  | .arrives keys => modify fun s => { s with stdin := ⟨s.stdin.waiting ++ keys, s.stdin.buffered⟩ }
  | .polls => captureRound

def captureLoop (moments : List (Polling Byte)) : Exec AsyncInput Unit := forEach captureMoment moments

def keyOf (c : Byte) : Key Byte :=
  if c = newline then .enter else if c = delete then .erase else .char c

def keeps (c : Byte) : Bool := c == space || isalnum c

def editing (s : AsyncInput) : Editing Byte := ⟨s.terminalBuffer, s.inputBuffer⟩

def Shows (s : AsyncInput) : Prop :=
  ∀ text, s.shown.getLast? = some text → prompt ++ s.terminalBuffer <:+ text

/-- The run returns; it leaves the keys on their way alone, and the line is shown as it is. -/
def Edits (run : Exec AsyncInput Unit) (s : AsyncInput) (e : Editing Byte) : Prop :=
  ∃ s', run s = .ok () s' ∧ editing s' = e ∧ s'.stdin = s.stdin ∧ Shows s'

theorem altprint_edits (content : Text) (endl : Bool) (s : AsyncInput) :
    Edits (altprint content endl) s (editing s) := by
  refine ⟨_, rfl, rfl, rfl, fun text htext => ?_⟩
  rw [List.getLast?_concat] at htext
  cases htext
  rw [List.append_assoc _ prompt]
  exact List.suffix_append _ _

theorem keyOf_char {c : Byte} (hn : c ≠ newline) (hd : c ≠ delete) : keyOf c = .char c := by
  rw [keyOf, if_neg hn, if_neg hd]

section Keys
variable {c : Byte} {s : AsyncInput}

theorem addToBuffer_edits (c : Byte) (s : AsyncInput) :
    Edits (do addToBuffer c; altprint [] false) s ⟨s.terminalBuffer ++ [c], s.inputBuffer⟩ :=
  altprint_edits [] false { s with terminalBuffer := s.terminalBuffer ++ [c] }

theorem captureKey_newline (s : AsyncInput) :
    Edits (captureKey newline) s ⟨[], s.inputBuffer ++ [s.terminalBuffer]⟩ :=
  altprint_edits (prompt ++ s.terminalBuffer) true
    { s with inputBuffer := s.inputBuffer ++ [s.terminalBuffer], terminalBuffer := [] }

theorem captureKey_delete (hs : Shows s) :
    Edits (captureKey delete) s ⟨s.terminalBuffer.dropLast, s.inputBuffer⟩ := by
  by_cases hline : s.terminalBuffer = []
  · refine ⟨s, ?_, by rw [hline]; exact congrArg (Editing.mk · _) hline, rfl, hs⟩
    rw [captureKey, if_neg (by decide), if_neg (by decide), if_pos rfl, run_bind_ok (run_get s),
      if_neg (not_not_intro hline)]
    rfl
  · obtain ⟨s', hrun, hedit, hstdin, hshow⟩ :=
      altprint_edits [] false { s with terminalBuffer := s.terminalBuffer.dropLast }
    have hback : backspaceBuffer s = .ok () { s with terminalBuffer := s.terminalBuffer.dropLast } :=
      if_neg hline
    refine ⟨s', ?_, hedit, hstdin, hshow⟩
    rw [captureKey, if_neg (by decide), if_neg (by decide), if_pos rfl, run_bind_ok (run_get s),
      if_pos hline, run_bind_ok hback]
    exact hrun

theorem captureKey_edits (c : Byte) (hs : Shows s) :
    Edits (captureKey c) s ((editing s).press keeps (keyOf c)) := by
  by_cases hnewline : c = newline
  · subst hnewline
    exact captureKey_newline s
  by_cases hdelete : c = delete
  · subst hdelete
    exact captureKey_delete hs
  rw [keyOf_char hnewline hdelete, Editing.press, captureKey, if_neg hnewline]
  by_cases hspace : c = space
  · subst hspace
    exact addToBuffer_edits space s
  rw [if_neg hspace, if_neg hdelete]
  have hkeeps : keeps c = isalnum c := by
    rw [keeps, beq_eq_false_iff_ne.mpr hspace, Bool.false_or]
  rw [hkeeps]
  cases isalnum c with
  | true => exact addToBuffer_edits c s
  | false => exact ⟨s, rfl, rfl, rfl, hs⟩

end Keys

theorem captureMoment_run (e : Polling Byte) {s : AsyncInput} (hs : Shows s) :
    ∃ s', captureMoment e s = .ok () s' ∧ s'.stdin = (s.stdin.step stdinBuffer e).2 ∧
      editing s' = (editing s).pressAll keeps ((s.stdin.step stdinBuffer e).1.toList.map keyOf) ∧
      Shows s' := by
  cases e with
  | arrives keys => exact ⟨_, rfl, rfl, rfl, hs⟩
  | polls =>
    rw [captureMoment, captureRound, run_bind_ok (run_get s), ReadAhead.step, ReadAhead.poll]
    by_cases hw : s.stdin.waiting.isEmpty = true
    · rw [if_pos hw, if_pos hw]
      exact ⟨s, rfl, rfl, rfl, hs⟩
    rw [if_neg hw, if_neg hw]
    obtain ⟨c, stdin, hnext⟩ := ReadAhead.next_of_waiting (show 0 < stdinBuffer by decide)
      (mt List.isEmpty_iff.mpr hw)
    have hget : cinGet s = .ok c { s with stdin } := by
      simp only [cinGet, hnext]
    obtain ⟨s', hrun, hedit, hstdin, hshow⟩ := captureKey_edits (s := { s with stdin }) c hs
    rw [run_bind_ok hget, hnext]
    exact ⟨s', hrun, hstdin, hedit, hshow⟩

theorem captureLoop_run (moments : List (Polling Byte)) {s : AsyncInput} (hs : Shows s) :
    ∃ s', captureLoop moments s = .ok () s' ∧
      s'.stdin = (ReadAhead.run stdinBuffer moments s.stdin).2 ∧
      editing s' =
        (editing s).pressAll keeps ((ReadAhead.run stdinBuffer moments s.stdin).1.map keyOf) ∧
      Shows s' := by
  induction moments generalizing s with
  | nil => exact ⟨s, rfl, rfl, rfl, hs⟩
  | cons e moments ih =>
    obtain ⟨s₁, hmoment, hstdin, hedit, hshow⟩ := captureMoment_run e hs
    obtain ⟨s₂, hrun, hstdin₂, hedits, hshows⟩ := ih hshow
    rw [hstdin] at hstdin₂ hedits
    refine ⟨s₂, (run_bind_ok hmoment _).trans hrun, hstdin₂, ?_, hshows⟩
    rw [hedits, hedit, Editing.pressAll, Editing.pressAll, Editing.pressAll, ← List.foldl_append,
      ← List.map_append]
    rfl

end AsyncInput

end SyncWizard.Common
