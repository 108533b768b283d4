import Mathlib.Data.Nat.Notation
import Mathlib.Logic.Function.Basic
import Mathlib.Tactic.Common

/-! A draft that grows piece by piece and now and then replaces a published text as a whole. What
is published depends on the pieces since the last publication, whoever wrote them. -/

namespace SyncWizard.Foundation

structure Piece (α : Type) where
  text : List α
  publishes : Bool

structure Draft (α : Type) where
  pending : Option (List α)
  published : Option (List α)

namespace Draft
variable {α : Type}

def add (d : Draft α) (piece : Piece α) : Draft α :=
  let text := d.pending.getD [] ++ piece.text
  if piece.publishes then ⟨none, some text⟩ else ⟨some text, d.published⟩

def addAll (d : Draft α) (pieces : List (Piece α)) : Draft α := pieces.foldl add d

def gathered : List (Piece α) → List α → List α
  | [], start => start
  | piece :: pieces, start => gathered pieces (if piece.publishes then [] else start ++ piece.text)

theorem add_publishes (d : Draft α) {piece : Piece α} (hp : piece.publishes = true) :
    d.add piece = ⟨none, some (d.pending.getD [] ++ piece.text)⟩ := if_pos hp

theorem add_keeps (d : Draft α) {piece : Piece α} (hp : piece.publishes = false) :
    d.add piece = ⟨some (d.pending.getD [] ++ piece.text), d.published⟩ :=
  if_neg (by rw [hp]; exact Bool.false_ne_true)

theorem addAll_concat (d : Draft α) (pieces : List (Piece α)) (piece : Piece α) :
    d.addAll (pieces ++ [piece]) = (d.addAll pieces).add piece := by
  rw [addAll, List.foldl_append]
  rfl

theorem addAll_pending (pieces : List (Piece α)) (d : Draft α) :
    (d.addAll pieces).pending.getD [] = gathered pieces (d.pending.getD []) := by
  induction pieces generalizing d with
  | nil => rfl
  | cons piece pieces ih =>
    change ((d.add piece).addAll pieces).pending.getD [] = _
    rw [ih, gathered]
    by_cases hp : piece.publishes = true
    · rw [add_publishes d hp, if_pos hp]
      rfl
    · rw [add_keeps d (Bool.eq_false_iff.mpr hp), if_neg hp]
      rfl

theorem addAll_concat_pending (d : Draft α) (pieces : List (Piece α)) (piece : Piece α) :
    (d.addAll (pieces ++ [piece])).pending = none ↔ piece.publishes = true := by
  rw [addAll_concat]
  by_cases hp : piece.publishes = true
  · rw [add_publishes _ hp]
    exact iff_of_true rfl hp
  · rw [add_keeps _ (Bool.eq_false_iff.mpr hp)]
    exact iff_of_false (fun he => nomatch he) hp

theorem addAll_concat_published (d : Draft α) (pieces : List (Piece α)) {piece : Piece α}
    (hp : piece.publishes = true) :
    (d.addAll (pieces ++ [piece])).published =
      some (gathered pieces (d.pending.getD []) ++ piece.text) := by
  rw [addAll_concat, add_publishes _ hp, addAll_pending]

theorem gathered_keeps {pieces : List (Piece α)} (hp : ∀ piece ∈ pieces, piece.publishes = false)
    (start : List α) : gathered pieces start = start ++ pieces.flatMap Piece.text := by
  induction pieces generalizing start with
  | nil => exact (List.append_nil start).symm
  | cons piece pieces ih =>
    obtain ⟨hfirst, hrest⟩ := List.forall_mem_cons.mp hp
    rw [gathered, hfirst, if_neg Bool.false_ne_true, ih hrest, List.flatMap_cons, List.append_assoc]

theorem addAll_whole {pieces : List (Piece α)} {piece : Piece α}
    (hk : ∀ x ∈ pieces, x.publishes = false)
    (hp : piece.publishes = true) (published : Option (List α)) :
    (Draft.mk none published).addAll (pieces ++ [piece]) =
      ⟨none, some ((pieces ++ [piece]).flatMap Piece.text)⟩ := by
  have hpending := (addAll_concat_pending (Draft.mk none published) pieces piece).mpr hp
  have htext := addAll_concat_published (Draft.mk none published) pieces hp
  rw [gathered_keeps hk, Option.getD_none, List.nil_append] at htext
  have heta : ∀ d : Draft α, d = ⟨d.pending, d.published⟩ := fun _ => rfl
  rw [heta (addAll _ _), hpending, htext, List.flatMap_append, List.flatMap_singleton]

end Draft

/-! ## Several drafts at once -/

namespace Drafts
variable {ι α : Type} [DecidableEq ι]

def add (d : ι → Draft α) (i : ι) (piece : Piece α) : ι → Draft α :=
  Function.update d i ((d i).add piece)

def addAll (d : ι → Draft α) : List (ι × Piece α) → ι → Draft α
  | [] => d
  | (i, piece) :: pieces => addAll (add d i piece) pieces

theorem addAll_apply (pieces : List (ι × Piece α)) (d : ι → Draft α) (i : ι) :
    addAll d pieces i = (d i).addAll ((pieces.filter fun x => x.1 = i).map Prod.snd) := by
  induction pieces generalizing d with
  | nil => rfl
  | cons x pieces ih =>
    obtain ⟨j, piece⟩ := x
    rw [addAll, ih, add, List.filter_cons]
    by_cases hj : j = i
    · subst hj
      rw [Function.update_self, if_pos (decide_eq_true rfl)]
      rfl
    · rw [Function.update_of_ne (Ne.symm hj), if_neg (by rwa [decide_eq_true_eq])]

end Drafts

end SyncWizard.Foundation
