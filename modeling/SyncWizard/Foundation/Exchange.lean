import Mathlib.Data.Set.Lattice
import Mathlib.Order.CompletePartialOrder

/-! Two parties that hold sets of names and give each other what is missing. Some names are marks: the
mark of a name says that the name is on its way. -/

namespace SyncWizard.Foundation

variable {α : Type} {marks ours theirs : Set α} {mark : α → α}

/-- What the holder of `ours` has to give: no marks, and nothing that is there or on its way. -/
def owed (marks : Set α) (mark : α → α) (ours theirs : Set α) : Set α :=
  {x | x ∈ ours ∧ x ∉ marks ∧ x ∉ theirs ∧ mark x ∉ theirs}

theorem owed_disjoint : Disjoint (owed marks mark ours theirs) (owed marks mark theirs ours) := by
  apply Set.disjoint_left.mpr
  rintro x ⟨-, -, hx, -⟩ ⟨hx', -⟩
  exact hx hx'

theorem owed_unmarked (hours : Disjoint ours marks) (htheirs : Disjoint theirs marks)
    (hmark : ∀ x, mark x ∈ marks) : owed marks mark ours theirs = ours \ theirs := by
  apply Set.ext
  intro x
  constructor
  · rintro ⟨hx, -, hnot, -⟩
    exact ⟨hx, hnot⟩
  · rintro ⟨hx, hnot⟩
    exact ⟨hx, Set.disjoint_left.mp hours hx, hnot,
      fun hm => Set.disjoint_left.mp htheirs hm (hmark x)⟩

section Exchanging
variable (hours : Disjoint ours marks) (htheirs : Disjoint theirs marks) (hmark : ∀ x, mark x ∈ marks)
include hours htheirs hmark

theorem exchange_union :
    ours ∪ owed marks mark theirs ours = ours ∪ theirs ∧
      theirs ∪ owed marks mark ours theirs = ours ∪ theirs := by
  rw [owed_unmarked htheirs hours hmark, owed_unmarked hours htheirs hmark, Set.union_sdiff_self,
    Set.union_sdiff_self, Set.union_comm theirs ours]
  exact ⟨rfl, rfl⟩

theorem exchange_settles :
    owed marks mark (ours ∪ owed marks mark theirs ours)
      (theirs ∪ owed marks mark ours theirs) = ∅ := by
  obtain ⟨hleft, hright⟩ := exchange_union hours htheirs hmark
  have hall : Disjoint (ours ∪ theirs) marks := Set.disjoint_union_left.mpr ⟨hours, htheirs⟩
  rw [hleft, hright, owed_unmarked hall hall hmark, Set.sdiff_self]

end Exchanging

end SyncWizard.Foundation
