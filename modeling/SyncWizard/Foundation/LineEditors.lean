import Mathlib.Data.List.Induction
import Mathlib.Data.Nat.Notation
import Mathlib.Tactic.Common

/-! Line editors with a character, an erase and an enter key. One that keeps only some characters is
compared with the one that keeps them all: erasing takes from the shorter line what belonged to a
character that is not there, so the two meet again on an empty line only. -/

namespace SyncWizard.Foundation

inductive Key (α : Type) where
  | char (c : α)
  | erase
  | enter
  deriving DecidableEq, Repr

structure Editing (α : Type) where
  line : List α
  lines : List (List α)

namespace Editing
variable {α : Type} (keeps : α → Bool)

def press (e : Editing α) : Key α → Editing α
  | .char c => if keeps c then { e with line := e.line ++ [c] } else e
  | .erase => { e with line := e.line.dropLast }
  | .enter => ⟨[], e.lines ++ [e.line]⟩

def pressAll (e : Editing α) (keys : List (Key α)) : Editing α := keys.foldl (press keeps) e

def blank : Editing α := ⟨[], []⟩

def typed (keys : List (Key α)) : Editing α := pressAll (fun _ => true) blank keys

/-- A character has been lost and the line has not been empty since. -/
def Stale (keys : List (Key α)) : Prop :=
  ∃ before c between, keys = before ++ .char c :: between ∧ keeps c = false ∧ .enter ∉ between ∧
    ∀ erased, erased <+: between → (typed (before ++ .char c :: erased)).line ≠ []

section Runs
variable {keeps}

theorem pressAll_concat (e : Editing α) (keys : List (Key α)) (k : Key α) :
    pressAll keeps e (keys ++ [k]) = press keeps (pressAll keeps e keys) k := by
  rw [pressAll, pressAll, List.foldl_append]
  rfl

theorem typed_concat (keys : List (Key α)) (k : Key α) :
    typed (keys ++ [k]) = press (fun _ => true) (typed keys) k := pressAll_concat _ _ _

theorem press_lines (queue : List (List α)) (e : Editing α) (k : Key α) :
    press keeps ⟨e.line, queue ++ e.lines⟩ k =
      ⟨(press keeps e k).line, queue ++ (press keeps e k).lines⟩ := by
  cases k with
  | char c =>
    rw [press, press]
    cases keeps c <;> rfl
  | erase => rfl
  | enter => rw [press, press, List.append_assoc]

theorem pressAll_lines (queue : List (List α)) (keys : List (Key α)) :
    pressAll keeps ⟨[], queue⟩ keys =
      ⟨(pressAll keeps blank keys).line, queue ++ (pressAll keeps blank keys).lines⟩ := by
  induction keys using List.reverseRecOn with
  | nil => exact congrArg _ (List.append_nil queue).symm
  | append_singleton keys k ih => rw [pressAll_concat, ih, press_lines, pressAll_concat]

theorem not_stale_nil : ¬ Stale keeps ([] : List (Key α)) := by
  rintro ⟨before, c, between, he, -⟩
  exact List.append_ne_nil_of_right_ne_nil _ (List.cons_ne_nil _ _) he.symm

theorem stale_concat {keys : List (Key α)} {k : Key α} :
    Stale keeps (keys ++ [k]) ↔ k ≠ .enter ∧ (typed (keys ++ [k])).line ≠ [] ∧
      (Stale keeps keys ∨ ∃ c, k = .char c ∧ keeps c = false) := by
  constructor
  · rintro ⟨before, c, between, he, hc, henter, hline⟩
    have hwhole := hline between List.prefix_rfl
    rw [← he] at hwhole
    rcases List.eq_nil_or_concat between with rfl | ⟨between, k', rfl⟩
    · obtain ⟨rfl, hk⟩ := List.append_inj' he rfl
      obtain rfl := (List.cons_eq_cons.mp hk).1
      refine ⟨?_, hwhole, .inr ⟨c, rfl, hc⟩⟩
      intro hk
      cases hk
    · rw [List.concat_eq_append] at he hline henter
      rw [← List.cons_append, ← List.append_assoc] at he
      obtain ⟨rfl, hk⟩ := List.append_inj' he rfl
      obtain rfl := (List.cons_eq_cons.mp hk).1
      rw [List.mem_append, not_or, List.mem_singleton] at henter
      refine ⟨fun hk => henter.2 hk.symm, hwhole, .inl ⟨before, c, between, rfl, hc, henter.1, ?_⟩⟩
      exact fun erased herased => hline erased (herased.trans (List.prefix_append _ _))
  · rintro ⟨hk, hline, ⟨before, c, between, rfl, hc, henter, hlines⟩ | ⟨c, rfl, hc⟩⟩
    · refine ⟨before, c, between ++ [k], by simp, hc, ?_, fun erased herased => ?_⟩
      · rw [List.mem_append, not_or, List.mem_singleton]
        exact ⟨henter, hk.symm⟩
      · rcases List.prefix_concat_iff.mp herased with rfl | herased
        · simpa using hline
        · exact hlines erased herased
    · refine ⟨keys, c, [], rfl, hc, List.not_mem_nil, fun erased herased => ?_⟩
      rwa [List.prefix_nil.mp herased]

theorem typed_char (keys : List (Key α)) (c : α) :
    (typed (keys ++ [.char c])).line = (typed keys).line ++ [c] := by
  rw [typed_concat]
  rfl

structure Trails (keeps : α → Bool) (keys : List (Key α)) : Prop where
  same : ¬ Stale keeps keys → (pressAll keeps blank keys).line = (typed keys).line
  shorter : Stale keeps keys → (pressAll keeps blank keys).line.length < (typed keys).line.length

theorem trails_enter (keys : List (Key α)) : Trails keeps (keys ++ [.enter]) where
  same _ := by
    rw [pressAll_concat, typed_concat]
    rfl
  shorter hs := absurd rfl (stale_concat.mp hs).1

section Steps
variable {keys : List (Key α)} (ht : Trails keeps keys)
include ht

theorem trails_erase : Trails keeps (keys ++ [.erase]) := by
  have hline : (typed (keys ++ [.erase])).line = (typed keys).line.dropLast := by
    rw [typed_concat]
    rfl
  have hkept : (pressAll keeps blank (keys ++ [.erase])).line =
      (pressAll keeps blank keys).line.dropLast := by
    rw [pressAll_concat]
    rfl
  have hlength := congrArg List.length hline
  rw [List.length_dropLast] at hlength
  constructor
  · intro hno
    rw [hkept]
    by_cases hs : Stale keeps keys
    · have hnil : (typed (keys ++ [.erase])).line = [] := by
        by_contra hne
        exact hno (stale_concat.mpr ⟨(fun hk => by cases hk), hne, .inl hs⟩)
      have hshort := ht.shorter hs
      rw [hnil, List.length_nil] at hlength
      have hempty : (pressAll keeps blank keys).line = [] :=
        List.length_eq_zero_iff.mp (by omega)
      rw [hnil, hempty, List.dropLast_nil]
    · rw [hline, ht.same hs]
  · intro hs
    obtain ⟨-, hne, hs | ⟨c, hk, -⟩⟩ := stale_concat.mp hs
    · have hpos := List.length_pos_iff.mpr hne
      have hshort := ht.shorter hs
      rw [hkept, List.length_dropLast]
      omega
    · cases hk

variable {c : α}

theorem trails_kept (hc : keeps c = true) : Trails keeps (keys ++ [.char c]) := by
  have hkept : (pressAll keeps blank (keys ++ [.char c])).line =
      (pressAll keeps blank keys).line ++ [c] := by
    rw [pressAll_concat, press, if_pos hc]
  have hstale : Stale keeps (keys ++ [.char c]) ↔ Stale keeps keys := by
    rw [stale_concat, typed_char]
    constructor
    · rintro ⟨-, -, hs | ⟨c', hk, hc'⟩⟩
      · exact hs
      · cases hk
        exact absurd (hc.symm.trans hc') (by decide)
    · exact fun hs => ⟨(fun hk => by cases hk), List.append_ne_nil_of_right_ne_nil _
        (List.cons_ne_nil _ _), .inl hs⟩
  constructor
  · intro hno
    rw [hkept, typed_char, ht.same (mt hstale.mpr hno)]
  · intro hs
    rw [hkept, typed_char, List.length_append, List.length_append]
    exact Nat.add_lt_add_right (ht.shorter (hstale.mp hs)) _

theorem trails_lost (hc : keeps c = false) : Trails keeps (keys ++ [.char c]) := by
  have hkept : (pressAll keeps blank (keys ++ [.char c])).line = (pressAll keeps blank keys).line := by
    rw [pressAll_concat, press, if_neg (by rw [hc]; exact Bool.false_ne_true)]
  have hstale : Stale keeps (keys ++ [.char c]) := by
    rw [stale_concat, typed_char]
    exact ⟨(fun hk => by cases hk), List.append_ne_nil_of_right_ne_nil _ (List.cons_ne_nil _ _),
      .inr ⟨c, rfl, hc⟩⟩
  refine ⟨fun hno => absurd hstale hno, fun _ => ?_⟩
  rw [hkept, typed_char, List.length_append]
  by_cases hs : Stale keeps keys
  · exact Nat.lt_succ_of_lt (ht.shorter hs)
  · rw [ht.same hs]
    exact Nat.lt_succ_self _

end Steps

theorem trails (keys : List (Key α)) : Trails keeps keys := by
  induction keys using List.reverseRecOn with
  | nil => exact ⟨fun _ => rfl, fun hs => absurd hs not_stale_nil⟩
  | append_singleton keys k ih =>
    cases k with
    | enter => exact trails_enter keys
    | erase => exact trails_erase ih
    | char c =>
      cases hc : keeps c with
      | true => exact trails_kept ih hc
      | false => exact trails_lost ih hc

theorem line_eq_iff (keys : List (Key α)) :
    (pressAll keeps blank keys).line = (typed keys).line ↔ ¬ Stale keeps keys := by
  refine ⟨fun he hs => ?_, (trails keys).same⟩
  exact absurd (congrArg List.length he) (Nat.ne_of_lt ((trails keys).shorter hs))

theorem forall_splits_concat {β : Type} {xs : List β} {x y : β} {P : List β → Prop} :
    (∀ before after, xs ++ [x] = before ++ y :: after → P before) ↔
      (∀ before after, xs = before ++ y :: after → P before) ∧ (x = y → P xs) := by
  constructor
  · intro hall
    refine ⟨fun before after he => hall before (after ++ [x]) (by rw [he]; simp), ?_⟩
    rintro rfl
    exact hall xs [] rfl
  · rintro ⟨hall, hlast⟩ before after he
    rcases List.eq_nil_or_concat after with rfl | ⟨after, z, rfl⟩
    · obtain ⟨rfl, hx⟩ := List.append_inj' he rfl
      exact hlast (List.singleton_inj.mp hx)
    · rw [List.concat_eq_append, ← List.cons_append, ← List.append_assoc] at he
      exact hall before after (List.append_inj' he rfl).1

theorem lines_eq_iff (keys : List (Key α)) :
    (pressAll keeps blank keys).lines = (typed keys).lines ↔
      ∀ before after, keys = before ++ .enter :: after → ¬ Stale keeps before := by
  induction keys using List.reverseRecOn with
  | nil =>
    refine iff_of_true rfl fun before after he => ?_
    exact absurd he.symm (List.append_ne_nil_of_right_ne_nil _ (List.cons_ne_nil _ _))
  | append_singleton keys k ih =>
    rw [pressAll_concat, typed_concat, forall_splits_concat, ← ih, ← line_eq_iff]
    cases k with
    | enter =>
      constructor
      · intro he
        obtain ⟨hlines, hline⟩ := List.append_inj' he rfl
        exact ⟨hlines, fun _ => List.singleton_inj.mp hline⟩
      · rintro ⟨hlines, hline⟩
        rw [press, press, hlines, hline rfl]
    | erase => exact (and_iff_left fun hk => by cases hk).symm
    | char c =>
      have hlines : (press keeps (pressAll keeps blank keys) (.char c)).lines =
          (pressAll keeps blank keys).lines := by
        rw [press]
        cases keeps c <;> rfl
      rw [hlines]
      exact (and_iff_left fun hk => by cases hk).symm

theorem pressAll_lines_length [DecidableEq α] (e : Editing α) (keys : List (Key α)) :
    (pressAll keeps e keys).lines.length = e.lines.length + keys.count .enter := by
  induction keys using List.reverseRecOn with
  | nil => rfl
  | append_singleton keys k ih =>
    rw [pressAll_concat, List.count_append, ← Nat.add_assoc, ← ih]
    cases k with
    | char c =>
      rw [press]
      split_ifs <;> rfl
    | erase => rfl
    | enter => exact List.length_append

theorem forall_splits_append {β : Type} {xs ys : List β} {y : β} {P : List β → Prop} (hy : y ∉ ys) :
    (∀ before after, xs ++ ys = before ++ y :: after → P before) ↔
      ∀ before after, xs = before ++ y :: after → P before := by
  induction ys using List.reverseRecOn with
  | nil => rw [List.append_nil]
  | append_singleton ys z ih =>
    rw [List.mem_append, not_or, List.mem_singleton] at hy
    rw [← List.append_assoc, forall_splits_concat, ih hy.1]
    exact and_iff_left fun hz => absurd hz.symm hy.2

theorem typed_lines_append [DecidableEq α] {keys later : List (Key α)} (hl : .enter ∉ later) :
    (typed (keys ++ later)).lines = (typed keys).lines := by
  induction later using List.reverseRecOn with
  | nil => rw [List.append_nil]
  | append_singleton later k ih =>
    rw [List.mem_append, not_or, List.mem_singleton] at hl
    rw [← List.append_assoc, typed_concat, ← ih hl.1]
    cases k with
    | enter => exact absurd rfl hl.2
    | char c | erase => rfl

theorem lines_eq_iff_of_rest [DecidableEq α] (keys rest : List (Key α)) :
    (pressAll keeps blank keys).lines = (typed (keys ++ rest)).lines ↔
      .enter ∉ rest ∧ ∀ before after, keys ++ rest = before ++ .enter :: after → ¬ Stale keeps before := by
  have hlines (hr : .enter ∉ rest) : (pressAll keeps blank keys).lines = (typed (keys ++ rest)).lines ↔
      ∀ before after, keys ++ rest = before ++ .enter :: after → ¬ Stale keeps before := by
    rw [typed_lines_append hr, forall_splits_append hr, lines_eq_iff]
  constructor
  · intro he
    have hr : .enter ∉ rest := by
      have hlength := congrArg List.length he
      rw [pressAll_lines_length, typed, pressAll_lines_length, List.count_append] at hlength
      exact List.count_eq_zero.mp (by omega)
    exact ⟨hr, (hlines hr).mp he⟩
  · exact fun ⟨hr, hall⟩ => (hlines hr).mpr hall

end Runs

end Editing

end SyncWizard.Foundation
