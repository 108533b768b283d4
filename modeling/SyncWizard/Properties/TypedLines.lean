import SyncWizard.Common.AsyncInput

/-! What becomes of the lines that a user types. The capture keeps letters, digits and spaces, so a line
with a path in it comes out without its dots and slashes; and what `std::cin` has read on from keys that
came together waits there for the next key. -/

namespace SyncWizard.Properties
open Foundation Common AsyncInput

def Keystroke := {c : Byte // c = newline ∨ c = delete ∨ 32 ≤ c ∧ c < 127}

instance : DecidableEq Keystroke :=
  inferInstanceAs (DecidableEq {c : Byte // c = newline ∨ c = delete ∨ 32 ≤ c ∧ c < 127})

def Keystroke.byte (k : Keystroke) : Byte := k.1

def Keystroke.key (k : Keystroke) : Key Byte := keyOf k.byte

/-- The lines as they were typed, each backspace taking back one character of its line. -/
def typedLines (keys : List Keystroke) : List Text :=
  (Editing.typed (keys.map Keystroke.key)).lines

def typedLine (keys : List Keystroke) : Text := (Editing.typed (keys.map Keystroke.key)).line

def captureStart (queue : List Text) : AsyncInput := ⟨queue, [], [], .empty⟩

abbrev Schedule := List (Polling Keystroke)

def Schedule.typed (es : Schedule) : List Keystroke := es.flatMap Polling.arrived

def Schedule.moments (es : Schedule) : List (Polling Byte) := es.map (Polling.map Keystroke.byte)

/-- Once the loop has gone round often enough after the last key, the typed lines have been pushed. -/
def DeliversTyped (es : Schedule) : Prop :=
  ∀ queue : List Text, ∃ enough : ℕ, ∀ n, enough ≤ n →
    ∃ s, captureLoop (es.moments ++ List.replicate n .polls) (captureStart queue) = .ok () s ∧
      s.inputBuffer = queue ++ typedLines es.typed

/-- When the terminal has been read empty, no newline is left in the buffer of `stdin`. -/
def EntersRead (es : Schedule) : Prop := newline ∉ ReadAhead.leftBehind stdinBuffer es.moments

def Keystroke.IsSymbol (k : Keystroke) : Prop :=
  k.1 ≠ newline ∧ k.1 ≠ delete ∧ k.1 ≠ space ∧ isalnum k.1 = false

/-- Since the last symbol in a line that was ended, backspaces have emptied that line. -/
def TakenBack (keys : List Keystroke) : Prop :=
  ∀ before symbol between enter after,
    keys = before ++ symbol :: (between ++ enter :: after) → symbol.IsSymbol →
    enter.1 = newline → (∀ k ∈ between, k.1 ≠ newline) →
      ∃ erased, erased <+: between ∧ typedLine (before ++ symbol :: erased) = []

section Keystrokes
variable {k : Keystroke} {keys : List Keystroke} {es : Schedule}

theorem keyOf_eq_enter {c : Byte} : keyOf c = .enter ↔ c = newline := by
  unfold keyOf
  split_ifs with hn hd
  · exact iff_of_true rfl hn
  · exact iff_of_false (fun he => by cases he) hn
  · exact iff_of_false (fun he => by cases he) hn

theorem key_eq_enter : k.key = .enter ↔ k.1 = newline := keyOf_eq_enter

theorem isSymbol_iff : k.IsSymbol ↔ ∃ c, k.key = .char c ∧ keeps c = false := by
  constructor
  · rintro ⟨hn, hd, hs, ha⟩
    exact ⟨k.1, keyOf_char hn hd, by rw [keeps, beq_eq_false_iff_ne.mpr hs, ha, Bool.or_self]⟩
  · rintro ⟨c, hkey, hc⟩
    unfold Keystroke.key keyOf at hkey
    split_ifs at hkey with hn hd
    cases hkey
    rw [keeps, Bool.or_eq_false_iff] at hc
    exact ⟨hn, hd, beq_eq_false_iff_ne.mp hc.1, hc.2⟩

theorem takenBack_iff : TakenBack keys ↔
    ∀ before after, keys.map Keystroke.key = before ++ .enter :: after →
      ¬ Editing.Stale keeps before := by
  constructor
  · rintro ht before after he ⟨start, c, between, rfl, hc, henter, hline⟩
    obtain ⟨keys₁, keys₂, rfl, h₁, h₂⟩ := List.map_eq_append_iff.mp he
    obtain ⟨enter, after', rfl, hkey, rfl⟩ := List.map_eq_cons_iff.mp h₂
    obtain ⟨start', rest, rfl, rfl, h₃⟩ := List.map_eq_append_iff.mp h₁
    obtain ⟨symbol, between', rfl, hsymbol, rfl⟩ := List.map_eq_cons_iff.mp h₃
    have hno : ∀ k ∈ between', k.1 ≠ newline := fun k hk hn =>
      henter (List.mem_map.mpr ⟨k, hk, key_eq_enter.mpr hn⟩)
    obtain ⟨erased, herased, hempty⟩ := ht start' symbol between' enter after' (by simp)
      (isSymbol_iff.mpr ⟨c, hsymbol, hc⟩) (key_eq_enter.mp hkey) hno
    refine hline (erased.map Keystroke.key) (herased.map _) ?_
    rw [← hsymbol, ← List.map_cons, ← List.map_append]
    exact hempty
  · rintro hall before symbol between enter after rfl hsymbol henter hno
    obtain ⟨c, hkey, hc⟩ := isSymbol_iff.mp hsymbol
    by_contra hnone
    refine hall ((before ++ symbol :: between).map Keystroke.key) (after.map Keystroke.key) ?_
      ⟨before.map Keystroke.key, c, between.map Keystroke.key, ?_, hc, ?_, ?_⟩
    · simp [key_eq_enter.mpr henter]
    · rw [List.map_append, List.map_cons, hkey]
    · rintro hmem
      obtain ⟨k, hk, hkenter⟩ := List.mem_map.mp hmem
      exact hno k hk (key_eq_enter.mp hkenter)
    · intro erased herased hempty
      obtain ⟨erased, hpart, rfl⟩ := List.prefix_map_iff.mp herased
      rw [← hkey, ← List.map_cons, ← List.map_append] at hempty
      exact hnone ⟨erased, hpart, hempty⟩

theorem moments_arrived (es : Schedule) :
    es.moments.flatMap Polling.arrived = es.typed.map Keystroke.byte := arrived_map _ es

theorem settle_typed (es : Schedule) :
    (ReadAhead.settle stdinBuffer es.moments).1.map keyOf ++
      (ReadAhead.leftBehind stdinBuffer es.moments).map keyOf = es.typed.map Keystroke.key := by
  rw [← List.map_append, ReadAhead.settle_taken (by decide), moments_arrived, List.map_map]
  rfl

theorem entersRead_iff :
    EntersRead es ↔ Key.enter ∉ (ReadAhead.leftBehind stdinBuffer es.moments).map keyOf := by
  rw [EntersRead, List.mem_map]
  refine not_congr ⟨fun hn => ⟨newline, hn, rfl⟩, ?_⟩
  rintro ⟨c, hc, hkey⟩
  exact keyOf_eq_enter.mp hkey ▸ hc

theorem delivers_iff_lines : DeliversTyped es ↔
    (Editing.pressAll keeps .blank ((ReadAhead.settle stdinBuffer es.moments).1.map keyOf)).lines =
      typedLines es.typed := by
  have hrun (queue : List Text) (n : ℕ) (hn : (es.moments.flatMap Polling.arrived).length ≤ n) :
      ∃ s, captureLoop (es.moments ++ List.replicate n .polls) (captureStart queue) = .ok () s ∧
        s.inputBuffer = queue ++ (Editing.pressAll keeps .blank
          ((ReadAhead.settle stdinBuffer es.moments).1.map keyOf)).lines := by
    have hstart : Shows (captureStart queue) := fun text htext => by cases htext
    obtain ⟨s, hrun, -, hedit, -⟩ :=
      captureLoop_run (es.moments ++ List.replicate n .polls) hstart
    rw [show (captureStart queue).stdin = .empty from rfl, ReadAhead.run_settle (by decide) hn] at hedit
    exact ⟨s, hrun, congrArg Editing.lines (hedit.trans (Editing.pressAll_lines queue _))⟩
  constructor
  · intro hd
    obtain ⟨enough, hall⟩ := hd []
    obtain ⟨s, hs, hbuffer⟩ := hall _ (Nat.le_max_left _ (es.moments.flatMap Polling.arrived).length)
    obtain ⟨s', hs', hbuffer'⟩ := hrun [] _ (Nat.le_max_right _ _)
    cases hs.symm.trans hs'
    exact hbuffer'.symm.trans hbuffer
  · intro he queue
    rw [← he]
    exact ⟨_, hrun queue⟩

theorem typed_lines_iff :
    (Editing.pressAll keeps .blank ((ReadAhead.settle stdinBuffer es.moments).1.map keyOf)).lines =
      typedLines es.typed ↔ TakenBack es.typed ∧ EntersRead es := by
  rw [typedLines, takenBack_iff, entersRead_iff, ← settle_typed, and_comm]
  exact Editing.lines_eq_iff_of_rest _ _

end Keystrokes

/-- A line is delivered as typed unless it is ended with a symbol in it, or one taken back too late, or
stays behind in the buffer of `stdin`. -/
theorem typed_delivered_iff (es : Schedule) : DeliversTyped es ↔ TakenBack es.typed ∧ EntersRead es := by
  rw [delivers_iff_lines, typed_lines_iff]

theorem apart_delivered_iff (keys : List Keystroke) :
    DeliversTyped (ReadAhead.apart keys) ↔ TakenBack keys := by
  have hmoments : Schedule.moments (ReadAhead.apart keys) = ReadAhead.apart (keys.map Keystroke.byte) := by
    rw [Schedule.moments, ReadAhead.apart, ReadAhead.apart, List.map_flatMap, List.flatMap_map]
    rfl
  have hout : EntersRead (ReadAhead.apart keys) := by
    rw [EntersRead, hmoments, ReadAhead.leftBehind_apart (by decide)]
    exact List.not_mem_nil
  have htyped : Schedule.typed (ReadAhead.apart keys) = keys := by
    rw [Schedule.typed, ReadAhead.apart, List.flatMap_assoc]
    exact List.flatMap_singleton' keys
  rw [delivers_iff_lines, typed_lines_iff, htyped]
  exact and_iff_left hout

def fileNameKeys : List Keystroke :=
  [⟨97, by decide⟩, ⟨46, by decide⟩, ⟨98, by decide⟩, ⟨newline, by decide⟩]

def pasted : Schedule := [.arrives [⟨97, by decide⟩, ⟨newline, by decide⟩]]

/-- `a.b` and the enter key push `ab`; a pasted line stays where it is. -/
theorem file_name_garbled :
    (∃ s, captureLoop (Schedule.moments (ReadAhead.apart fileNameKeys)) (captureStart []) = .ok () s ∧
      s.inputBuffer = [txt "ab"]) ∧
    typedLines fileNameKeys = [txt "a.b"] ∧ ¬ DeliversTyped (ReadAhead.apart fileNameKeys) ∧
    typedLines pasted.typed = [txt "a"] ∧ ¬ DeliversTyped pasted := by
  refine ⟨⟨_, rfl, by decide⟩, by decide, ?_, by decide, ?_⟩
  · rw [delivers_iff_lines]
    decide
  · rw [delivers_iff_lines]
    decide

end SyncWizard.Properties
