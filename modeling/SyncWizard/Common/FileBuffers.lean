import SyncWizard.Common.FileStream
import SyncWizard.Common.Storage
import SyncWizard.Foundation.Pieces

/-! `bufferize_file`, which reads a file whole, a buffer at a time. -/

namespace SyncWizard.Common
open Foundation

namespace FileStream

def read (file : FileStream) (buffer : Text) : FileStream × Text :=
  if file.eof || file.failed then ({ file with failed := true, gcount := 0 }, buffer)
  else
    let taken := file.rest.take buffer.length
    let short := decide (file.rest.length < buffer.length)
    (⟨file.rest.drop buffer.length, short, short, taken.length⟩, taken ++ buffer.drop taken.length)

end FileStream

section Buffers
variable (h : Host)

def newBuffer (size : ℕ) : Exec FileSystem Text :=
  if h.alloc size then pure (List.replicate size nul) else raise (txt "std::bad_alloc")

def bufferRounds (bufferSize : ℕ) : ℕ → FileStream → List Text → Exec FileSystem (List Text)
  | 0, _, _ => crash .hang
  | rounds + 1, file, buffers =>
    if file.eof then pure buffers
    else do
      let buffer ← newBuffer h bufferSize
      let (file, buffer) := file.read buffer
      if 0 < file.gcount then
        bufferRounds bufferSize rounds file (buffers ++ [buffer.take file.gcount])
      else bufferRounds bufferSize rounds file buffers

def bufferizeFile (rounds : ℕ) (filePath : Text) (bufferSize : ℕ) : Exec FileSystem (List Text) := do
  -- a directory opens as well, but reading from it fails without ever getting to its end
  if h.mayRead filePath && (← get).lookup filePath == some .directory then crash .hang
  else
    match ← openRead h filePath with
    | none => raise (txt "[UTILS] Could not bufferize file \"" ++ filePath ++ txt "\"")
    | some content => bufferRounds h bufferSize rounds (.opened content) []

end Buffers

section Rounds
variable {h : Host} {bufferSize : ℕ} (f : FileSystem)

theorem newBuffer_run (hm : h.alloc bufferSize = true) :
    newBuffer h bufferSize f = .ok (List.replicate bufferSize nul) f := by
  rw [newBuffer, if_pos hm]
  rfl

theorem bufferRounds_eof {rounds : ℕ} {file : FileStream} (he : file.eof = true)
    (buffers : List Text) : bufferRounds h bufferSize (rounds + 1) file buffers f = .ok buffers f := by
  rw [bufferRounds, if_pos he]
  rfl

theorem bufferRounds_succ (hm : h.alloc bufferSize = true) (rounds gcount : ℕ) (rest : Text)
    (buffers : List Text) :
    bufferRounds h bufferSize (rounds + 1) ⟨rest, false, false, gcount⟩ buffers f =
      bufferRounds h bufferSize rounds
        ⟨rest.drop bufferSize, decide (rest.length < bufferSize), decide (rest.length < bufferSize),
          (rest.take bufferSize).length⟩
        (if 0 < (rest.take bufferSize).length then buffers ++ [rest.take bufferSize] else buffers)
        f := by
  rw [bufferRounds, if_neg Bool.false_ne_true, run_bind_ok (newBuffer_run f hm)]
  simp only [FileStream.read, Bool.or_self, Bool.false_eq_true, if_false, List.length_replicate,
    List.take_left]
  split_ifs <;> rfl

theorem bufferRounds_pieces (hm : h.alloc bufferSize = true) (hb : 0 < bufferSize) (rest : Text) :
    ∃ pieces, Pieces bufferSize rest pieces ∧
      ∀ rounds gcount buffers, rest.length / bufferSize + 1 < rounds →
        bufferRounds h bufferSize rounds ⟨rest, false, false, gcount⟩ buffers f =
          .ok (buffers ++ pieces) f := by
  induction hn : rest.length using Nat.strong_induction_on generalizing rest with
  | _ n ih =>
    subst hn
    rcases Nat.lt_or_ge rest.length bufferSize with hshort | hfull
    · have hdiv : rest.length / bufferSize = 0 := Nat.div_eq_of_lt hshort
      have hrun (rounds gcount : ℕ) (buffers : List Text) (hr : 1 < rounds) :
          bufferRounds h bufferSize rounds ⟨rest, false, false, gcount⟩ buffers f =
            .ok (if 0 < rest.length then buffers ++ [rest] else buffers) f := by
        obtain ⟨rounds, rfl⟩ : ∃ k, rounds = k + 2 := ⟨rounds - 2, by omega⟩
        rw [bufferRounds_succ f hm, List.take_of_length_le hshort.le,
          bufferRounds_eof f (decide_eq_true hshort)]
      rcases eq_or_ne rest [] with rfl | hne
      · refine ⟨[], .nil, fun rounds gcount buffers hr => ?_⟩
        rw [hrun rounds gcount buffers (by omega), List.append_nil]
        rfl
      · refine ⟨[rest], .short hne hshort, fun rounds gcount buffers hr => ?_⟩
        rw [hrun rounds gcount buffers (by omega), if_pos (List.length_pos_iff.mpr hne)]
    · have hdrop : (rest.drop bufferSize).length = rest.length - bufferSize := List.length_drop
      have htake : (rest.take bufferSize).length = bufferSize := List.length_take_of_le hfull
      obtain ⟨pieces, hpieces, hrun⟩ := ih (rest.drop bufferSize).length (by omega) _ rfl
      refine ⟨rest.take bufferSize :: pieces, ?_, fun rounds gcount buffers hr => ?_⟩
      · have hcons := Pieces.cons htake hpieces
        rwa [List.take_append_drop] at hcons
      · obtain ⟨rounds, rfl⟩ := Nat.exists_eq_add_one_of_ne_zero (Nat.ne_zero_of_lt hr)
        have hdiv : rest.length / bufferSize = (rest.drop bufferSize).length / bufferSize + 1 := by
          rw [hdrop, ← Nat.add_div_right _ hb, Nat.sub_add_cancel hfull]
        rw [bufferRounds_succ f hm, htake, if_pos hb, decide_eq_false (Nat.not_lt.mpr hfull),
          hrun rounds _ _ (by omega), List.append_assoc, List.singleton_append]

end Rounds

end SyncWizard.Common
