import Mathlib.Data.List.Basic
import Mathlib.Data.List.TakeWhile
import Mathlib.Data.Nat.Notation
import Mathlib.Algebra.Order.Ring.Int
import Mathlib.Tactic.Common
import SyncWizard.Foundation.Programs

/-! Byte strings and the text helpers of `utils.cpp`: fixed character arrays, the
`|`-separated command syntax, and the conversions between numbers and text. -/

namespace SyncWizard.Common
open Foundation

abbrev Byte := UInt8

abbrev Text := List Byte

def txt (s : String) : Text := s.toList.map fun c => UInt8.ofNat c.toNat

def nul : Byte := 0

def bar : Byte := 124

/-- What ends the process without an exception: undefined behaviour, or a loop that is
still going when the run stops being watched. -/
inductive Crash where
  | nullWrite
  | nullRead
  | nullLock
  | outOfBounds
  | terminate
  | hang
  deriving DecidableEq, Repr

abbrev Exec (σ α : Type) := Prog Text Crash σ α

def Chars (n : ℕ) := {bs : Text // bs.length = n}

instance (n : ℕ) : DecidableEq (Chars n) := inferInstanceAs (DecidableEq {bs : Text // bs.length = n})

namespace Chars
variable {n : ℕ}

def zero (n : ℕ) : Chars n := ⟨List.replicate n nul, List.length_replicate⟩

def overwrite (a : Chars n) (bs : Text) : Chars n :=
  ⟨(bs ++ a.1.drop bs.length).take n, by
    have := a.2
    simp only [List.length_take, List.length_append, List.length_drop]
    omega⟩

theorem overwrite_full (a : Chars n) {bs : Text} (h : bs.length = n) :
    (a.overwrite bs).1 = bs := by
  subst h
  exact List.take_left

end Chars

/-! ## Fixed character arrays -/

def sizeLess (maxSize : ℕ) : ℕ := (BitVec.ofNat 64 maxSize - 1).toNat

def strncpy (source : Text) (n : ℕ) : Text :=
  let copied := (source.take n).takeWhile (· != nul)
  copied ++ List.replicate (n - copied.length) nul

def strcharray (input : Text) (maxSize : ℕ) : Except Text Text :=
  if sizeLess maxSize < input.length then
    .error (txt "[UTILS] Given string \"" ++ input ++ txt "\" exceeds vector maximum size!")
  else
    let copiedSize := min input.length (sizeLess maxSize)
    .ok (strncpy input copiedSize ++ List.replicate (maxSize - copiedSize) nul)

def charraystr {σ : Type} (array : Option Text) (size : ℕ) : Exec σ Text :=
  match array with
  | none => if size = 0 then pure [] else raise
      (txt "basic_string: construction from null is not valid")
  | some bs => if bs.length < size then crash .outOfBounds else pure (bs.take size)

theorem charraystr_kept {σ : Type} {R : σ → σ → Prop} [Std.Refl R] [IsTrans σ R] (array : Option Text)
    (size : ℕ) : Kept R (charraystr array size) := by
  unfold charraystr
  split
  · split_ifs
    exacts [Kept.pure _, Kept.raise _]
  · split_ifs
    exacts [Kept.crash _, Kept.pure _]

theorem takeWhile_ne_nul {s : Text} (h : nul ∉ s) : s.takeWhile (· != nul) = s := by
  rw [List.takeWhile_eq_self_iff]
  intro c hc
  simp only [bne_iff_ne, ne_eq]
  rintro rfl
  exact h hc

theorem takeWhile_before {before : Text} (hnul : nul ∉ before) (rest : Text) :
    (before ++ rest).takeWhile (· != nul) = before ++ rest.takeWhile (· != nul) := by
  apply List.takeWhile_append_of_pos
  intro c hc
  rw [bne_iff_ne]
  rintro rfl
  exact hnul hc

theorem takeWhile_ended {before : Text} (hnul : nul ∉ before) (rest : Text) :
    (before ++ nul :: rest).takeWhile (· != nul) = before := by
  rw [takeWhile_before hnul, List.takeWhile_cons_of_neg (by decide), List.append_nil]

theorem strncpy_length (s : Text) (n : ℕ) : (strncpy s n).length = n := by
  have h : ((s.take n).takeWhile (· != nul)).length ≤ n :=
    (List.takeWhile_sublist _).length_le.trans (by simp)
  simp only [strncpy, List.length_append, List.length_replicate]
  omega

theorem strncpy_self {s : Text} (h : nul ∉ s) : strncpy s s.length = s := by
  simp only [strncpy, List.take_length, takeWhile_ne_nul h, Nat.sub_self, List.replicate_zero,
    List.append_nil]

theorem sizeLess_succ {n : ℕ} (h : n + 1 < 2 ^ 64) : sizeLess (n + 1) = n := by
  have h1 : (1 : BitVec 64).toNat = 1 := rfl
  simp only [sizeLess, BitVec.toNat_sub, BitVec.toNat_ofNat, h1]
  omega

theorem sizeLess_lt {n : ℕ} (h : 0 < n) : sizeLess n < n := by
  rcases Nat.lt_or_ge n (2 ^ 64) with hn | hn
  · obtain ⟨m, rfl⟩ : ∃ m, n = m + 1 := ⟨n - 1, by omega⟩
    rw [sizeLess_succ hn]
    exact Nat.lt_succ_self m
  · exact lt_of_lt_of_le (BitVec.isLt _) hn

theorem strcharray_own_size {s : Text} (h : s ≠ []) :
    strcharray s s.length =
      .error (txt "[UTILS] Given string \"" ++ s ++ txt "\" exceeds vector maximum size!") :=
  if_pos (sizeLess_lt (List.length_pos_iff.mpr h))

theorem strcharray_empty : strcharray [] 0 = .ok [] := by decide

theorem strcharray_ok {s : Text} {n : ℕ} (hn : 0 < n) (hb : n < 2 ^ 64) (h : s.length < n) :
    strcharray s n = .ok (strncpy s s.length ++ List.replicate (n - s.length) nul) := by
  obtain ⟨m, rfl⟩ : ∃ m, n = m + 1 := ⟨n - 1, by omega⟩
  have hlt : ¬ m < s.length := by omega
  simp only [strcharray, sizeLess_succ hb, hlt, if_false, Nat.min_eq_left (by omega : s.length ≤ m)]

theorem strcharray_long {s : Text} {n : ℕ} (hn : 0 < n) (hb : n < 2 ^ 64) (h : n ≤ s.length) :
    ∃ what, strcharray s n = .error what := by
  obtain ⟨m, rfl⟩ : ∃ m, n = m + 1 := ⟨n - 1, by omega⟩
  simp only [strcharray, sizeLess_succ hb, if_pos (by omega : m < s.length), Except.error.injEq,
    exists_eq']

/-! ## The command syntax -/

def splitScan : Text → Text → List Text
  | cur, [] => [cur]
  | cur, c :: cs => if c = bar then cur :: splitScan [] cs else splitScan (cur ++ [c]) cs

/-- `split_buffer` on the memory from `buffer` on; without a terminator the scan leaves it. -/
def splitBuffer {σ : Type} (memory : Text) : Exec σ (List Text) :=
  if nul ∈ memory then pure (splitScan [] (memory.takeWhile (· != nul))) else crash .outOfBounds

theorem splitBuffer_kept {σ : Type} {R : σ → σ → Prop} [Std.Refl R] [IsTrans σ R] (memory : Text) :
    Kept R (splitBuffer memory) := by
  unfold splitBuffer
  split_ifs
  exacts [Kept.pure _, Kept.crash _]

theorem splitScan_eq (cur s : Text) :
    splitScan cur s = (s.splitOn bar).modifyHead (cur ++ ·) := by
  induction s generalizing cur with
  | nil => simp [splitScan]
  | cons c cs ih =>
    by_cases hc : c = bar
    · subst hc
      rw [splitScan, if_pos rfl, ih, List.splitOn_cons_eq_if_modifyHead, if_pos (beq_self_eq_true bar)]
      cases cs.splitOn bar <;> simp
    · rw [splitScan, if_neg hc, ih, List.splitOn_cons_eq_if_modifyHead,
        if_neg (by simpa only [beq_iff_eq] using hc)]
      cases cs.splitOn bar <;> simp

theorem splitScan_nil (s : Text) : splitScan [] s = s.splitOn bar := by
  rw [splitScan_eq]
  cases s.splitOn bar <;> simp

def joinFields (fields : List Text) : Text := [bar].intercalate fields

theorem splitScan_join {fields : List Text} (h : ∀ f ∈ fields, bar ∉ f) (hne : fields ≠ []) :
    splitScan [] (joinFields fields) = fields := by
  rw [splitScan_nil]
  exact List.splitOn_intercalate bar h hne

/-- `fields[i]` of a `std::vector`, which is not checked. -/
def fieldAt {σ : Type} (fields : List Text) (i : ℕ) : Exec σ Text :=
  match fields[i]? with
  | some field => pure field
  | none => crash .outOfBounds

/-! ## Names and numbers -/

def isalnum (c : Byte) : Bool :=
  (48 ≤ c && c ≤ 57) || (65 ≤ c && c ≤ 90) || (97 ≤ c && c ≤ 122)

def isValidUsername (username : Text) : Bool := username.all isalnum

def toText (n : ℤ) : Text :=
  let digits := (Nat.toDigits 10 n.natAbs).map fun c => UInt8.ofNat c.toNat
  if n < 0 then txt "-" ++ digits else digits

def isdigit (c : Byte) : Bool := 48 ≤ c && c ≤ 57

def isspace (c : Byte) : Bool := c = 32 || (9 ≤ c && c ≤ 13)

def digitsValue (ds : Text) : ℕ := ds.foldl (fun v d => 10 * v + (d.toNat - 48)) 0

def isOctet (s : Text) : Bool := 1 ≤ s.length && s.length ≤ 3 && s.all isdigit

def isValidAddress (ipAddress : Text) : Bool :=
  (match ipAddress.splitOnP (· == 46) with
    | [a, b, c, d] => isOctet a && isOctet b && isOctet c && isOctet d
    | _ => false) || ipAddress == txt "localhost"

def isValidPort (port : ℤ) : Bool := 0 ≤ port && port ≤ 65535

def stoi (s : Text) : Option ℤ :=
  let body := s.dropWhile isspace
  let negative := body.head? = some 45
  let unsigned := if negative || body.head? = some 43 then body.tail else body
  let ds := unsigned.takeWhile isdigit
  let value : ℤ := if negative then -(digitsValue ds : ℤ) else digitsValue ds
  if ds = [] ∨ value < -2 ^ 31 ∨ 2 ^ 31 ≤ value then none else some value

theorem digitsValue_toText (n : ℕ) : digitsValue (toText n) = n := by
  have hdigit : ∀ c ∈ Nat.toDigits 10 n, (UInt8.ofNat c.toNat).toNat = c.toNat := by
    intro c hc
    have hd := Nat.isDigit_of_mem_toDigits (by decide) (by decide) hc
    simp only [Char.isDigit, Bool.and_eq_true, decide_eq_true_eq] at hd
    have hle : c.toNat ≤ 57 := hd.2
    rw [UInt8.toNat_ofNat']
    omega
  have hfold : digitsValue ((Nat.toDigits 10 n).map fun c => UInt8.ofNat c.toNat) =
      Nat.ofDigitChars 10 (Nat.toDigits 10 n) 0 := by
    rw [digitsValue, List.foldl_map, Nat.ofDigitChars_eq_foldl]
    refine List.foldl_ext _ _ 0 fun v c hc => ?_
    rw [hdigit c hc]
    rfl
  exact hfold.trans Nat.ofDigitChars_ten_toDigits

theorem isdigit_toText (n : ℕ) : ∀ c ∈ toText n, isdigit c = true := by
  intro b hb
  obtain ⟨c, hc, rfl⟩ := List.mem_map.mp hb
  have hd := Nat.isDigit_of_mem_toDigits (by decide) (by decide) hc
  simp only [Char.isDigit, Bool.and_eq_true, decide_eq_true_eq] at hd
  have hge : 48 ≤ c.toNat := hd.1
  have hle : c.toNat ≤ 57 := hd.2
  simp only [isdigit, Bool.and_eq_true, decide_eq_true_eq, UInt8.le_iff_toNat_le, UInt8.toNat_ofNat']
  exact ⟨hge.trans (Nat.mod_eq_of_lt (show c.toNat < 2 ^ 8 by omega)).ge,
    (Nat.mod_le _ _).trans hle⟩

example : stoi (toText 2) = some 2 := by decide

end SyncWizard.Common
