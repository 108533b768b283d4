import Mathlib.Data.List.TakeWhile
import Mathlib.Tactic.Common

/-! The words of a text, as a stream hands them out: blanks are skipped, and a word goes on to the
next blank. -/

namespace SyncWizard.Foundation

variable {α : Type} (blank : α → Bool)

def extract (s : List α) : Option (List α × List α) :=
  match s.dropWhile blank with
  | [] => none
  | c :: cs => some (c :: cs.takeWhile (fun a => !blank a), cs.dropWhile fun a => !blank a)

def wordsOf (s : List α) : List (List α) := (s.splitOnP blank).filter fun w => !w.isEmpty

inductive Spaced : List (List α) → List α → Prop where
  | nil {s : List α} (hs : ∀ c ∈ s, blank c = true) : Spaced [] s
  | cons {ws : List (List α)} {b w s : List α} (hb : ∀ c ∈ b, blank c = true) (hne : w ≠ [])
    (hw : ∀ c ∈ w, blank c = false) (hnext : ∀ c ∈ s.head?, blank c = true) (hs : Spaced ws s) :
    Spaced (w :: ws) (b ++ (w ++ s))

section Words
variable {blank} {s w rest : List α} {ws : List (List α)} {c : α}

@[simp] theorem wordsOf_nil : wordsOf blank [] = [] := rfl

theorem wordsOf_blank (hc : blank c = true) (s : List α) : wordsOf blank (c :: s) = wordsOf blank s := by
  rw [wordsOf, List.splitOnP_cons_eq_if_modifyHead, if_pos hc, List.filter_cons_of_neg (by simp)]
  rfl

theorem wordsOf_blanks {b : List α} (hb : ∀ c ∈ b, blank c = true) (s : List α) :
    wordsOf blank (b ++ s) = wordsOf blank s := by
  induction b with
  | nil => rfl
  | cons c b ih =>
    rw [List.cons_append, wordsOf_blank (hb c List.mem_cons_self)]
    exact ih fun a ha => hb a (List.mem_cons_of_mem c ha)

theorem wordsOf_word (hne : w ≠ []) (hw : ∀ c ∈ w, blank c = false)
    (hnext : ∀ c ∈ s.head?, blank c = true) : wordsOf blank (w ++ s) = w :: wordsOf blank s := by
  have hkeep (ws : List (List α)) :
      (w :: ws).filter (fun w => !w.isEmpty) = w :: ws.filter fun w => !w.isEmpty :=
    List.filter_cons_of_pos (by simpa using hne)
  cases s with
  | nil =>
    rw [List.append_nil, wordsOf, List.splitOnP_eq_singleton hw, hkeep, wordsOf_nil, List.filter_nil]
  | cons c s =>
    have hc : blank c = true := hnext c rfl
    rw [wordsOf_blank hc, wordsOf, List.splitOnP_append_cons_of_forall_mem hw c hc, hkeep, wordsOf]

/-! ## One extraction -/

theorem extract_none_iff : extract blank s = none ↔ ∀ c ∈ s, blank c = true := by
  rw [← List.dropWhile_eq_nil_iff, extract]
  split <;> simp [*]

theorem extract_inv (h : extract blank s = some (w, rest)) :
    ∃ b, s = b ++ (w ++ rest) ∧ (∀ c ∈ b, blank c = true) ∧ w ≠ [] ∧ (∀ c ∈ w, blank c = false) ∧
      ∀ c ∈ rest.head?, blank c = true := by
  rw [extract] at h
  split at h
  · cases h
  · rename_i c cs hdrop
    cases h
    have hsplit : s = s.takeWhile blank ++ (c :: cs) := by rw [← hdrop, List.takeWhile_append_dropWhile]
    have hc : blank c = false := by
      have hhead := List.head?_dropWhile_not blank s
      rw [hdrop] at hhead
      exact hhead
    refine ⟨s.takeWhile blank, ?_, fun a => List.mem_takeWhile_imp, List.cons_ne_nil _ _, ?_, ?_⟩
    · rw [List.cons_append, List.takeWhile_append_dropWhile]
      exact hsplit
    · intro a ha
      rcases List.mem_cons.mp ha with rfl | ha
      · exact hc
      · simpa using List.mem_takeWhile_imp ha
    · intro a ha
      have hhead := List.head?_dropWhile_not (fun a => !blank a) cs
      rw [Option.mem_def.mp ha] at hhead
      simpa using hhead

theorem wordsOf_extract_none (h : extract blank s = none) : wordsOf blank s = [] := by
  have hall := wordsOf_blanks (extract_none_iff.mp h) []
  rwa [List.append_nil] at hall

theorem wordsOf_extract (h : extract blank s = some (w, rest)) :
    wordsOf blank s = w :: wordsOf blank rest := by
  obtain ⟨b, rfl, hb, hne, hw, hnext⟩ := extract_inv h
  rw [wordsOf_blanks hb, wordsOf_word hne hw hnext]

theorem extract_length (h : extract blank s = some (w, rest)) : rest.length < s.length := by
  obtain ⟨b, rfl, -, hne, -⟩ := extract_inv h
  have hpos := List.length_pos_iff.mpr hne
  simp only [List.length_append]
  omega

/-! ## All of them -/

theorem wordsOf_eq_iff : wordsOf blank s = ws ↔ Spaced blank ws s := by
  constructor
  · rintro rfl
    induction hn : s.length using Nat.strongRecOn generalizing s with
    | _ n ih =>
      cases he : extract blank s with
      | none =>
        rw [wordsOf_extract_none he]
        exact .nil (extract_none_iff.mp he)
      | some p =>
        rw [wordsOf_extract he]
        obtain ⟨b, hs, hb, hne, hw, hnext⟩ := extract_inv he
        have hrest := ih p.2.length (hn ▸ extract_length he) rfl
        rw [hs]
        exact .cons hb hne hw hnext hrest
  · intro hs
    induction hs with
    | nil hs =>
      have hall := wordsOf_blanks hs []
      rwa [List.append_nil] at hall
    | cons hb hne hw hnext _ ih => rw [wordsOf_blanks hb, wordsOf_word hne hw hnext, ih]

/-! ## A text that is made of words -/

theorem extract_none_of_spaced (h : Spaced blank [] s) : extract blank s = none := by
  cases h with
  | nil hs => exact extract_none_iff.mpr hs

theorem extract_of_spaced (h : Spaced blank (w :: ws) s) :
    ∃ rest, extract blank s = some (w, rest) ∧ Spaced blank ws rest := by
  have hwords := wordsOf_eq_iff.mpr h
  cases he : extract blank s with
  | none => simp [wordsOf_extract_none he] at hwords
  | some p =>
    rw [wordsOf_extract he] at hwords
    obtain ⟨hw, hws⟩ := List.cons.inj hwords
    exact ⟨p.2, by rw [← hw], wordsOf_eq_iff.mp hws⟩

end Words

end SyncWizard.Foundation
