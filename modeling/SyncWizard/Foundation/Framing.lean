import Mathlib.Data.Nat.Digits.Defs
import Mathlib.Data.Option.Basic

/-! Self-delimiting encodings. A codec finds the end of its own word, so words written one
after the other are read back one after the other; a fixed header followed by a body whose
length the header announces is such a code. -/

namespace SyncWizard.Foundation

/-! ## Little-endian numbers -/

def bytesOf (k n : ℕ) : List UInt8 := List.ofFn fun i : Fin k => UInt8.ofNat (n / 256 ^ (i : ℕ))

def valueOf (bs : List UInt8) : ℕ := Nat.ofDigits 256 (bs.map UInt8.toNat)

@[simp] theorem bytesOf_length (k n : ℕ) : (bytesOf k n).length = k := List.length_ofFn

theorem bytesOf_succ (k n : ℕ) : bytesOf (k + 1) n = UInt8.ofNat n :: bytesOf k (n / 256) := by
  simp only [bytesOf, List.ofFn_succ, Fin.val_zero, pow_zero, Nat.div_one, Fin.val_succ,
    Nat.pow_succ', Nat.div_div_eq_div_mul]

theorem valueOf_bytesOf {k n : ℕ} (h : n < 256 ^ k) : valueOf (bytesOf k n) = n := by
  induction k generalizing n with
  | zero =>
    have : n = 0 := by simpa using h
    simp [bytesOf, valueOf, this]
  | succ k ih =>
    have hq : n / 256 < 256 ^ k := Nat.div_lt_of_lt_mul (by rwa [← Nat.pow_succ'])
    have hv := ih hq
    rw [valueOf] at hv
    rw [bytesOf_succ, valueOf, List.map_cons, Nat.ofDigits_cons, hv, UInt8.toNat_ofNat']
    exact Nat.mod_add_div n 256

/-! ## Codecs -/

structure Codec (β α : Type) where
  encode : α → List β
  decode : List β → Option (α × List β)
  decode_encode : ∀ a rest, decode (encode a ++ rest) = some (a, rest)

namespace Codec
variable {α β η : Type}

def encodeAll (C : Codec β α) (as : List α) : List β := as.flatMap C.encode

def decodeAll (C : Codec β α) : ℕ → List β → Option (List α × List β)
  | 0, s => some ([], s)
  | n + 1, s => (C.decode s).bind fun r => (C.decodeAll n r.2).map fun q => (r.1 :: q.1, q.2)

@[simp] theorem encodeAll_cons (C : Codec β α) (a : α) (as : List α) :
    C.encodeAll (a :: as) = C.encode a ++ C.encodeAll as := rfl

theorem decodeAll_encodeAll (C : Codec β α) (as : List α) (rest : List β) :
    C.decodeAll as.length (C.encodeAll as ++ rest) = some (as, rest) := by
  induction as with
  | nil => rfl
  | cons a as ih =>
    rw [encodeAll_cons, List.append_assoc, List.length_cons, decodeAll, C.decode_encode]
    simp only [Option.bind_some, ih, Option.map_some]

theorem encode_append_inj (C : Codec β α) {a b : α} {r t : List β}
    (h : C.encode a ++ r = C.encode b ++ t) :
    a = b ∧ r = t := by
  have ha := C.decode_encode a r
  rw [h, C.decode_encode] at ha
  obtain ⟨rfl, rfl⟩ := Prod.mk.inj (Option.some.inj ha)
  exact ⟨rfl, rfl⟩

def fixed (width : ℕ) (enc : α → List β) (dec : List β → α) (hlen : ∀ a, (enc a).length = width)
    (hdec : ∀ a, dec (enc a) = a) : Codec β α where
  encode := enc
  decode s := if s.length < width then none else some (dec (s.take width), s.drop width)
  decode_encode a rest := by
    have hn : ¬ (enc a ++ rest).length < width := by
      rw [List.length_append, hlen a]
      omega
    rw [if_neg hn, List.take_left' (hlen a), List.drop_left' (hlen a), hdec a]

def withBody (H : Codec β η) (size : η → ℕ) : Codec β {p : η × List β // p.2.length = size p.1} where
  encode p := H.encode p.1.1 ++ p.1.2
  decode s := (H.decode s).bind fun r =>
    if hs : size r.1 ≤ r.2.length then
      some (⟨(r.1, r.2.take (size r.1)), List.length_take_of_le hs⟩, r.2.drop (size r.1))
    else none
  decode_encode := by
    rintro ⟨⟨h, body⟩, hb⟩ rest
    have hs : size h ≤ (body ++ rest).length := by
      rw [List.length_append]
      exact hb ▸ Nat.le_add_right _ _
    rw [List.append_assoc, H.decode_encode]
    simp only [Option.bind_some, dif_pos hs, List.take_left' hb, List.drop_left' hb]

end Codec

end SyncWizard.Foundation
