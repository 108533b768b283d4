import SyncWizard.Common.Packet

/-! Commands as both ends mean them: a name and its arguments, joined by `|` in the command field
of a packet. -/

namespace SyncWizard.Common

structure Command where
  name : Text
  args : List Text

def IsField (s : Text) : Prop := bar ∉ s ∧ nul ∉ s

instance (s : Text) : Decidable (IsField s) := inferInstanceAs (Decidable (bar ∉ s ∧ nul ∉ s))

namespace Command

def fields (c : Command) : List Text := c.name :: c.args

def text (c : Command) : Text := joinFields c.fields

theorem text_noNul {c : Command} (hc : ∀ f ∈ c.fields, IsField f) : nul ∉ c.text := by
  have hjoin : ∀ fs : List Text, (∀ f ∈ fs, IsField f) → nul ∉ joinFields fs := by
    intro fs
    induction fs with
    | nil => exact fun _ => List.not_mem_nil
    | cons f fs ih =>
      intro hfs
      obtain ⟨hf, hfs⟩ := List.forall_mem_cons.mp hfs
      cases fs with
      | nil =>
        rw [joinFields, List.intercalate_singleton]
        exact hf.2
      | cons g gs =>
        rw [joinFields, List.intercalate_cons_cons, List.mem_append, List.mem_append, not_or, not_or]
        exact ⟨⟨hf.2, by decide⟩, ih hfs⟩
  exact hjoin c.fields hc

theorem reads_one {name arg : Text} {p : Packet} (hp : p.Reads (name ++ txt "|" ++ arg)) :
    p.Reads (text ⟨name, [arg]⟩) := by
  have htext : text ⟨name, [arg]⟩ = name ++ txt "|" ++ arg := by
    rw [text, fields, joinFields, List.intercalate_cons_cons, List.intercalate_singleton]
    rfl
  rwa [htext]

theorem reads_two {name arg arg2 : Text} {p : Packet}
    (hp : p.Reads (name ++ txt "|" ++ arg ++ txt "|" ++ arg2)) :
    p.Reads (text ⟨name, [arg, arg2]⟩) := by
  have htext : text ⟨name, [arg, arg2]⟩ = name ++ txt "|" ++ arg ++ txt "|" ++ arg2 := by
    rw [text, fields, joinFields, List.intercalate_cons_cons, List.intercalate_cons_cons,
      List.intercalate_singleton, ← List.append_assoc, ← List.append_assoc]
    rfl
  rwa [htext]

theorem fields_read {c : Command} {p : Packet} (hc : ∀ f ∈ c.fields, IsField f) (hp : p.Reads c.text) :
    p.Terminated ∧ p.fields = c.fields := by
  obtain ⟨hterminated, hfields⟩ := hp.fields (text_noNul hc)
  refine ⟨hterminated, hfields.trans ?_⟩
  exact splitScan_join (fun f hf => (hc f hf).1) (List.cons_ne_nil _ _)

end Command

end SyncWizard.Common
