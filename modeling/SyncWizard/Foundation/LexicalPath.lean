import Mathlib.Data.List.Basic
import Mathlib.Data.Nat.Notation

/-! Paths of a directory tree as sequences of steps. Resolving them is a matter of the text
alone; a walk through a real tree also needs every directory on the way to exist, and when it
succeeds it ends where the text resolves to. -/

namespace SyncWizard.Foundation

inductive PathStep (ν : Type) where
  | stay
  | up
  | down (name : ν)
  deriving DecidableEq, Repr

namespace PathStep
variable {ν : Type}

def follow : List ν → PathStep ν → List ν
  | p, .stay => p
  | p, .up => p.dropLast
  | p, .down n => p ++ [n]

def resolve (start : List ν) (steps : List (PathStep ν)) : List ν := steps.foldl follow start

def walk (isDir : List ν → Bool) : List ν → List (PathStep ν) → Option (List ν)
  | p, [] => some p
  | p, s :: ss => if isDir p then walk isDir (follow p s) ss else none

def StrictlyInside (dir p : List ν) : Prop := dir <+: p ∧ dir ≠ p

instance [DecidableEq ν] (dir p : List ν) : Decidable (StrictlyInside dir p) :=
  inferInstanceAs (Decidable (dir <+: p ∧ dir ≠ p))

theorem walk_append (isDir : List ν → Bool) (p : List ν) (ss ts : List (PathStep ν)) :
    walk isDir p (ss ++ ts) = (walk isDir p ss).bind fun q => walk isDir q ts := by
  induction ss generalizing p with
  | nil => rfl
  | cons s ss ih =>
    rw [List.cons_append, walk, walk]
    split_ifs with hd
    · exact ih _
    · rfl

theorem walk_concat {isDir : List ν → Bool} {p q : List ν} {ss : List (PathStep ν)}
    {s : PathStep ν} (h : walk isDir p (ss ++ [s]) = some q) :
    ∃ r, walk isDir p ss = some r ∧ isDir r = true ∧ q = follow r s := by
  rw [walk_append, Option.bind_eq_some_iff] at h
  obtain ⟨r, hr, hq⟩ := h
  rw [walk] at hq
  split_ifs at hq with hd
  exact ⟨r, hr, hd, (Option.some.inj hq).symm⟩

theorem follow_ne_down {r : List ν} {s : PathStep ν} {n : ν} (h : s ≠ .down n) :
    follow r s ≠ r ++ [n] := by
  intro he
  cases s with
  | stay =>
    have := congrArg List.length he
    rw [follow, List.length_append, List.length_singleton] at this
    omega
  | up =>
    have := congrArg List.length he
    rw [follow, List.length_append, List.length_singleton, List.length_dropLast] at this
    omega
  | down m =>
    rw [follow, List.append_cancel_left_eq] at he
    exact h (congrArg _ (List.singleton_inj.mp he))

end PathStep

end SyncWizard.Foundation
