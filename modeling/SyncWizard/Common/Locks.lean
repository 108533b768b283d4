import Mathlib.Logic.Function.Basic
import SyncWizard.Common.Text

/-! The tables `file_mtx_` in which both programs keep a mutex for each file. -/

namespace SyncWizard.Common
open Foundation

/-- A value of the lock table: a `shared_ptr` that is null or owns a mutex. Handlers that run to
their end release what they lock, so between handlers every mutex is free. -/
inductive Lock where
  | null
  | live
  deriving DecidableEq, Repr

abbrev LockTable := Text → Option Lock

section Locking
variable {σ : Type} (table : σ → LockTable) (put : LockTable → σ → σ) (name : Text)

/-- `std::unique_lock lock(*file_mtx_[name])`; the index operator adds a null entry. -/
def lockIn : Exec σ Unit := fun s =>
  match table s name with
  | none => .error (.crashed .nullLock) (put (Function.update (table s) name (some .null)) s)
  | some .null => .error (.crashed .nullLock) s
  | some .live => .ok () s

variable {table put name} {s : σ}

theorem lockIn_live (hl : table s name = some .live) : lockIn table put name s = .ok () s := by
  simp only [lockIn, hl]

theorem lockIn_null (hl : table s name = some .null) :
    lockIn table put name s = .error (.crashed .nullLock) s := by
  simp only [lockIn, hl]

theorem lockIn_absent (hl : table s name = none) : lockIn table put name s =
    .error (.crashed .nullLock) (put (Function.update (table s) name (some .null)) s) := by
  simp only [lockIn, hl]

theorem lockIn_inv {u : Unit} {s' : σ} (h : lockIn table put name s = .ok u s') : s' = s := by
  unfold lockIn at h
  split at h <;> cases h
  rfl

theorem lockIn_kept {R : σ → σ → Prop} [Std.Refl R] [IsTrans σ R]
    (hput : ∀ s l, R s (put (Function.update (table s) name l) s)) :
      Kept R (lockIn table put name) := by
  intro s
  unfold lockIn
  split
  exacts [hput s _, refl_of R s, refl_of R s]

end Locking

end SyncWizard.Common
