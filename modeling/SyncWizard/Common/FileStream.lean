import SyncWizard.Common.Text

/-! The file streams that files are read from. What is larger than the buffer of a stream is read by the
kernel, which refuses a null pointer. -/

namespace SyncWizard.Common
open Foundation

/-- An `std::ifstream` on a file: what it has not read yet, its flags, of which `failed` stands for two,
and what the last `read` came to. -/
structure FileStream where
  rest : Text
  eof : Bool
  failed : Bool
  gcount : ℕ

def streamBuffer : ℕ := 8191

namespace FileStream

def opened (content : Text) : FileStream := ⟨content, false, false, 0⟩

def readInto {σ : Type} (file : FileStream) (payload : Option Text) (size : ℕ) :
    Exec σ (FileStream × Option Text) :=
  if file.eof || file.failed then pure ({ file with failed := true, gcount := 0 }, payload)
  else
    let taken := file.rest.take size
    let short := decide (file.rest.length < size)
    let after : FileStream := ⟨file.rest.drop size, short, short, taken.length⟩
    match payload with
    | some buffer =>
      if buffer.length < taken.length then crash .outOfBounds
      else pure (after, some (taken ++ buffer.drop taken.length))
    | none =>
      if taken = [] then pure (after, none)
      -- a failed call of the kernel sets a flag, and not that of the end
      else if streamBuffer < size then pure ({ file with failed := true, gcount := 0 }, none)
      else crash .nullWrite

def refused (file : FileStream) : FileStream :=
  if file.failed = false ∧ file.rest = [] then ⟨[], true, true, 0⟩
  else { file with failed := true, gcount := 0 }

structure Stuck (file : FileStream) : Prop where
  eof : file.eof = false
  unread : file.failed = true ∨ file.rest ≠ []

section Nulls
variable {σ : Type} {file : FileStream} {size : ℕ}

theorem readInto_null (he : file.eof = false) (hs : streamBuffer < size) (s : σ) :
    file.readInto none size s = .ok (file.refused, none) s := by
  have hpos : 0 < size := Nat.zero_lt_of_lt hs
  obtain ⟨rest, eof, failed, gcount⟩ := file
  obtain rfl : eof = false := he
  cases failed with
  | true => rfl
  | false =>
    cases rest with
    | nil =>
      simp only [readInto, refused, Bool.or_self, Bool.false_eq_true, if_false, List.take_nil, if_true,
        List.drop_nil, List.length_nil, hpos, decide_true, and_self, run_pure]
    | cons b bs =>
      have htaken : (b :: bs).take size ≠ [] := by
        rw [Ne, List.take_eq_nil_iff, not_or]
        exact ⟨hpos.ne', List.cons_ne_nil b bs⟩
      simp only [readInto, refused, Bool.or_self, Bool.false_eq_true, if_false, htaken, hs, if_true,
        reduceCtorEq, and_false, run_pure]

theorem opened_stuck {content : Text} (hne : content ≠ []) : (opened content).Stuck := ⟨rfl, .inr hne⟩

theorem Stuck.refused (hs : file.Stuck) : file.refused.Stuck := by
  have hno : ¬ (file.failed = false ∧ file.rest = []) := by
    rintro ⟨hfine, hempty⟩
    rcases hs.unread with hfailed | hne
    · cases hfailed.symm.trans hfine
    · exact hne hempty
  rw [FileStream.refused, if_neg hno]
  exact ⟨hs.eof, .inl rfl⟩

end Nulls

end FileStream

end SyncWizard.Common
