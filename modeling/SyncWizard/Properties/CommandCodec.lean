import SyncWizard.Common.CommandArray

/-! The command field as a codec. A list of fields is written as one text and read back as the same
list; every text that fits is the joined form of the fields that are read from it. -/

namespace SyncWizard.Properties
open Foundation Common

theorem not_mem_of_mem_splitOn {s f : Text} (hf : f ∈ s.splitOn bar) : bar ∉ f := by
  induction s generalizing f with
  | nil =>
    rw [List.splitOn_nil, List.mem_singleton] at hf
    rw [hf]
    exact List.not_mem_nil
  | cons c s ih =>
    rw [List.splitOn_cons_eq_if_modifyHead] at hf
    by_cases hc : (c == bar) = true
    · rw [if_pos hc, List.mem_cons] at hf
      rcases hf with rfl | hf
      exacts [List.not_mem_nil, ih hf]
    · rw [if_neg hc] at hf
      -- the byte goes in front of the first field
      cases hs : s.splitOn bar with
      | nil => exact absurd hs (List.splitOn_ne_nil bar s)
      | cons g gs =>
        rw [hs, List.modifyHead_cons, List.mem_cons] at hf
        rw [hs] at ih
        rcases hf with rfl | hf
        · rw [List.mem_cons, not_or]
          refine ⟨fun he => hc ?_, ih List.mem_cons_self⟩
          rw [he, beq_self_eq_true]
        · exact ih (List.mem_cons_of_mem g hf)

theorem joined_noNul {fields : List Text} (hne : fields ≠ []) (hf : ∀ f ∈ fields, IsField f) :
    nul ∉ joinFields fields := by
  obtain ⟨name, args, rfl⟩ := List.exists_cons_of_ne_nil hne
  exact Command.text_noNul (c := ⟨name, args⟩) hf

section Array
variable {text : Text} (a : Chars 1024)

theorem stored (hn : nul ∉ text) (hlen : text.length ≤ 1023) :
    ∃ b : Chars 1024, strcharrayInto text a = .ok () b ∧
      b.1 = text ++ List.replicate (1024 - text.length) nul := by
  have hlt : text.length < 1024 := by omega
  refine ⟨a.overwrite (text ++ List.replicate (1024 - text.length) nul), ?_, ?_⟩
  · rw [strcharrayInto_run (by decide), strcharray_ok (by decide) (by decide) hlt, strncpy_self hn]
  · apply Chars.overwrite_full
    rw [List.length_append, List.length_replicate]
    omega

theorem refused_iff :
    (∃ what b, strcharrayInto text a = .error (.raised what) b) ↔ 1023 < text.length := by
  rw [strcharrayInto_run (by decide)]
  constructor
  · rintro ⟨what, b, hraised⟩
    by_contra hshort
    rw [strcharray_ok (by decide) (by decide) (by omega)] at hraised
    cases hraised
  · intro hlong
    obtain ⟨what, hw⟩ := strcharray_long (s := text) (n := 1024) (by decide) (by decide) hlong
    exact ⟨what, a, by rw [hw]⟩

theorem refused_untouched {what : Text} {b : Chars 1024}
    (hraised : strcharrayInto text a = .error (.raised what) b) : b = a := by
  rw [strcharrayInto_run (by decide)] at hraised
  cases hstored : strcharray text 1024 with
  | error what' =>
    rw [hstored] at hraised
    cases hraised
    rfl
  | ok bs =>
    rw [hstored] at hraised
    cases hraised

end Array

/-- Writing and reading a command are inverse to each other, and a text that does not fit is refused
before anything is written. -/
theorem commands_bijective (σ : Type) :
    (∀ fields : List Text, fields ≠ [] → (∀ f ∈ fields, IsField f) →
      (joinFields fields).length ≤ 1023 → ∀ a : Chars 1024, ∃ b : Chars 1024,
        strcharrayInto (joinFields fields) a = .ok () b ∧
        b.1 = joinFields fields ++ List.replicate (1024 - (joinFields fields).length) nul ∧
        ∀ s : σ, splitWalk b.1 s = .ok fields s) ∧
    (∀ text : Text, nul ∉ text → text.length ≤ 1023 → ∀ (rest : Text) (s : σ), ∃ fields,
      splitWalk (text ++ nul :: rest) s = .ok fields s ∧ fields ≠ [] ∧ (∀ f ∈ fields, bar ∉ f) ∧
        joinFields fields = text) ∧
    ∀ (text : Text) (a : Chars 1024),
      ((∃ what b, strcharrayInto text a = .error (.raised what) b) ↔ 1023 < text.length) ∧
      ∀ what b, strcharrayInto text a = .error (.raised what) b → b = a := by
  refine ⟨fun fields hne hf hlen a => ?_, fun text hn _ rest s => ?_, fun text a => ?_⟩
  · have hn := joined_noNul hne hf
    obtain ⟨b, hrun, hb⟩ := stored a hn hlen
    refine ⟨b, hrun, hb, fun s => ?_⟩
    have hsize : 1024 - (joinFields fields).length = 1023 - (joinFields fields).length + 1 := by omega
    rw [hb, hsize, List.replicate_succ, splitWalk_eq, splitBuffer_terminated hn]
    refine congrArg (EStateM.Result.ok · s) ?_
    exact List.splitOn_intercalate bar (fun f hmem => (hf f hmem).1) hne
  · refine ⟨text.splitOn bar, ?_, List.splitOn_ne_nil bar text, fun f => not_mem_of_mem_splitOn, ?_⟩
    · rw [splitWalk_eq, splitBuffer_terminated hn]
      rfl
    · exact List.intercalate_splitOn bar
  · exact ⟨refused_iff a, fun what b => refused_untouched a⟩

end SyncWizard.Properties
