import Mathlib.Data.Nat.Notation
import Mathlib.Tactic.Common

/-! A source that is polled before each item is taken from it, and read a block at a time. The poll
looks at the source alone, so the rest of a block has to wait until something new arrives there. -/

namespace SyncWizard.Foundation

structure ReadAhead (α : Type) where
  waiting : List α
  buffered : List α

inductive Polling (α : Type) where
  | arrives (items : List α)
  | polls

def Polling.arrived {α : Type} : Polling α → List α
  | .arrives items => items
  | .polls => []

def Polling.map {α β : Type} (f : α → β) : Polling α → Polling β
  | .arrives items => .arrives (items.map f)
  | .polls => .polls

theorem arrived_map {α β : Type} (f : α → β) (es : List (Polling α)) :
    (es.map (Polling.map f)).flatMap Polling.arrived = (es.flatMap Polling.arrived).map f := by
  rw [List.flatMap_map, List.map_flatMap]
  refine congrArg es.flatMap (funext fun e => ?_)
  cases e <;> rfl

namespace ReadAhead
variable {α : Type} (block : ℕ)

def empty : ReadAhead α := ⟨[], []⟩

def next (r : ReadAhead α) : Option (α × ReadAhead α) :=
  match r.buffered with
  | a :: rest => some (a, ⟨r.waiting, rest⟩)
  | [] =>
    match r.waiting.take block with
    | a :: rest => some (a, ⟨r.waiting.drop block, rest⟩)
    | [] => none

def poll (r : ReadAhead α) : Option (α × ReadAhead α) :=
  if r.waiting.isEmpty then none else r.next block

def step (e : Polling α) (r : ReadAhead α) : Option α × ReadAhead α :=
  match e with
  | .arrives items => (none, ⟨r.waiting ++ items, r.buffered⟩)
  | .polls =>
    match r.poll block with
    | some (a, r') => (some a, r')
    | none => (none, r)

def run : List (Polling α) → ReadAhead α → List α × ReadAhead α
  | [], r => ([], r)
  | e :: es, r =>
    let r' := r.step block e
    (r'.1.toList ++ (run es r'.2).1, (run es r'.2).2)

def unread (r : ReadAhead α) : List α := r.buffered ++ r.waiting

section Runs
variable {block} {r r' : ReadAhead α} {a : α}

theorem next_unread (hn : r.next block = some (a, r')) : r.unread = a :: r'.unread := by
  obtain ⟨waiting, buffered⟩ := r
  cases buffered with
  | cons b rest =>
    cases hn
    rfl
  | nil =>
    rw [next] at hn
    dsimp only at hn
    split at hn
    · rename_i b rest htake
      cases hn
      rw [unread, unread, List.nil_append, ← List.cons_append, ← htake, List.take_append_drop]
    · cases hn

theorem poll_unread (hp : r.poll block = some (a, r')) : r.unread = a :: r'.unread := by
  rw [poll] at hp
  split_ifs at hp
  exact next_unread hp

variable (block) in
theorem step_unread (e : Polling α) (r : ReadAhead α) :
    r.unread ++ e.arrived = (r.step block e).1.toList ++ (r.step block e).2.unread := by
  cases e with
  | arrives items => exact List.append_assoc _ _ _
  | polls =>
    rw [Polling.arrived, List.append_nil, step]
    split
    · exact poll_unread ‹_›
    · rfl

variable (block) in
theorem run_unread (es : List (Polling α)) (r : ReadAhead α) :
    r.unread ++ es.flatMap Polling.arrived = (run block es r).1 ++ (run block es r).2.unread := by
  induction es generalizing r with
  | nil => rw [List.flatMap_nil, List.append_nil]; rfl
  | cons e es ih =>
    rw [List.flatMap_cons, ← List.append_assoc, step_unread block, List.append_assoc, ih,
      ← List.append_assoc]
    rfl

theorem run_append (es es' : List (Polling α)) (r : ReadAhead α) :
    run block (es ++ es') r =
      ((run block es r).1 ++ (run block es' (run block es r).2).1,
        (run block es' (run block es r).2).2) := by
  induction es generalizing r with
  | nil => rfl
  | cons e es ih =>
    rw [List.cons_append, run, run, ih, ← List.append_assoc]

/-! ## Polling until the source is empty -/

theorem run_rest (hr : r.waiting = []) (n : ℕ) :
    run block (List.replicate n .polls) r = ([], r) := by
  induction n with
  | zero => rfl
  | succ n ih =>
    have hstep : r.step block .polls = (none, r) := by
      rw [step, poll, hr]
      rfl
    rw [List.replicate_succ, run, hstep]
    dsimp only
    rw [ih]
    rfl

theorem next_of_waiting (hb : 0 < block) (hr : r.waiting ≠ []) :
    ∃ a r', r.next block = some (a, r') := by
  obtain ⟨waiting, buffered⟩ := r
  cases buffered with
  | cons b rest => exact ⟨b, _, rfl⟩
  | nil =>
    obtain ⟨a, waiting, rfl⟩ := List.exists_cons_of_ne_nil hr
    obtain ⟨n, rfl⟩ := Nat.exists_eq_add_one_of_ne_zero (Nat.pos_iff_ne_zero.mp hb)
    exact ⟨a, _, rfl⟩

theorem run_empties (hb : 0 < block) {n : ℕ} (hn : r.unread.length ≤ n) :
    (run block (List.replicate n .polls) r).2.waiting = [] := by
  induction n generalizing r with
  | zero =>
    have hnone := List.eq_nil_of_length_eq_zero (Nat.le_zero.mp hn)
    exact (List.append_eq_nil_iff.mp hnone).2
  | succ n ih =>
    by_cases hr : r.waiting = []
    · rw [run_rest hr]
      exact hr
    obtain ⟨a, r', hnext⟩ := next_of_waiting hb hr
    have hstep : r.step block .polls = (some a, r') := by
      rw [step, poll, if_neg (mt List.isEmpty_iff.mp hr), hnext]
    rw [next_unread hnext, List.length_cons] at hn
    rw [List.replicate_succ, run, hstep]
    exact ih (Nat.le_of_succ_le_succ hn)

def settle (block : ℕ) (es : List (Polling α)) : List α × ReadAhead α :=
  run block (es ++ List.replicate (es.flatMap Polling.arrived).length .polls) empty

def leftBehind (block : ℕ) (es : List (Polling α)) : List α := (settle block es).2.buffered

theorem settle_waiting (hb : 0 < block) (es : List (Polling α)) :
    (settle block es).2.waiting = [] := by
  have hlength : (run block es empty).2.unread.length ≤ (es.flatMap Polling.arrived).length := by
    have hall := congrArg List.length (run_unread block es empty)
    rw [List.length_append, List.length_append] at hall
    have hempty : (empty : ReadAhead α).unread.length = 0 := rfl
    omega
  rw [settle, run_append]
  exact run_empties hb hlength

theorem settle_taken (hb : 0 < block) (es : List (Polling α)) :
    (settle block es).1 ++ leftBehind block es = es.flatMap Polling.arrived := by
  have hpolls (n : ℕ) : (List.replicate n (Polling.polls (α := α))).flatMap Polling.arrived = [] := by
    simp [Polling.arrived]
  have hrest : (settle block es).2.unread = leftBehind block es := by
    rw [unread, settle_waiting hb, List.append_nil, leftBehind]
  rw [← hrest, settle, ← run_unread, List.flatMap_append, hpolls, List.append_nil]
  rfl

theorem run_settle (hb : 0 < block) {es : List (Polling α)} {n : ℕ}
    (hn : (es.flatMap Polling.arrived).length ≤ n) :
    run block (es ++ List.replicate n .polls) empty = settle block es := by
  obtain ⟨m, rfl⟩ := Nat.exists_eq_add_of_le hn
  rw [← List.replicate_append_replicate, ← List.append_assoc, run_append, ← settle,
    run_rest (settle_waiting hb es), List.append_nil]

def apart (items : List α) : List (Polling α) := items.flatMap fun a => [.arrives [a], .polls]

theorem run_apart (hb : 0 < block) (items : List α) : run block (apart items) empty = (items, empty) := by
  induction items with
  | nil => rfl
  | cons a items ih =>
    obtain ⟨n, rfl⟩ := Nat.exists_eq_add_one_of_ne_zero (Nat.pos_iff_ne_zero.mp hb)
    have hone : run (n + 1) [.arrives [a], .polls] empty = ([a], empty) := by
      simp [run, step, poll, next, empty]
    have hsplit : apart (a :: items) = [.arrives [a], .polls] ++ apart items := rfl
    rw [hsplit, run_append, hone, ih]
    rfl

theorem leftBehind_apart (hb : 0 < block) (items : List α) : leftBehind block (apart items) = [] := by
  rw [leftBehind, settle, run_append, run_apart hb, run_rest rfl]
  rfl

end Runs

end ReadAhead

end SyncWizard.Foundation
