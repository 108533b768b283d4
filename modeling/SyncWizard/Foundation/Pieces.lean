import Mathlib.Algebra.Order.Group.Nat
import Mathlib.Data.Nat.Notation

/-! Lists cut into pieces of one length, the last of which may be shorter. -/

namespace SyncWizard.Foundation

inductive Pieces {α : Type} (n : ℕ) : List α → List (List α) → Prop where
  | nil : Pieces n [] []
  | short {piece : List α} : piece ≠ [] → piece.length < n → Pieces n piece [piece]
  | cons {piece rest : List α} {pieces : List (List α)} : piece.length = n → Pieces n rest pieces →
      Pieces n (piece ++ rest) (piece :: pieces)

namespace Pieces
variable {α : Type} {n : ℕ} {xs : List α} {pieces : List (List α)}

theorem flatten (hp : Pieces n xs pieces) : pieces.flatten = xs := by
  induction hp with
  | nil => rfl
  | short => rw [List.flatten_singleton]
  | cons _ _ ih => rw [List.flatten_cons, ih]

theorem full (hp : Pieces n xs pieces) : ∀ piece ∈ pieces.dropLast, piece.length = n := by
  induction hp with
  | nil => exact fun piece hmem => absurd hmem List.not_mem_nil
  | short => exact fun piece hmem => absurd hmem List.not_mem_nil
  | @cons _ _ pieces hlength _ ih =>
    cases pieces with
    | nil => exact fun piece hmem => absurd hmem List.not_mem_nil
    | cons next pieces =>
      rw [List.dropLast_cons_of_ne_nil (List.cons_ne_nil _ _)]
      exact List.forall_mem_cons.mpr ⟨hlength, ih⟩

theorem last (hp : Pieces n xs pieces) (hn : 0 < n) {piece : List α}
    (hlast : pieces.getLast? = some piece) : 0 < piece.length ∧ piece.length ≤ n := by
  induction hp with
  | nil => cases hlast
  | short hne hlength =>
    cases hlast
    exact ⟨List.length_pos_iff.mpr hne, hlength.le⟩
  | @cons _ _ pieces hlength _ ih =>
    cases pieces with
    | nil =>
      cases hlast
      exact ⟨hlength ▸ hn, hlength.le⟩
    | cons next pieces =>
      rw [List.getLast?_cons_cons] at hlast
      exact ih hlast

theorem count (hp : Pieces n xs pieces) (hn : 0 < n) :
    pieces.length = (xs.length + n - 1) / n := by
  induction hp with
  | nil => rw [List.length_nil, List.length_nil, Nat.div_eq_of_lt (by omega)]
  | @short piece hne hlength =>
    have hpos := List.length_pos_iff.mpr hne
    have hsum : piece.length + n - 1 = n + (piece.length - 1) := by omega
    rw [List.length_singleton, hsum, Nat.add_div_left _ hn, Nat.div_eq_of_lt (by omega)]
  | @cons piece rest pieces hlength _ ih =>
    have hsum : (piece ++ rest).length + n - 1 = n + (rest.length + n - 1) := by
      rw [List.length_append, hlength]
      omega
    rw [List.length_cons, ih, hsum, Nat.add_div_left _ hn]

end Pieces

end SyncWizard.Foundation
