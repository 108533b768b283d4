import SyncWizard.Foundation.Programs

/-! Programs that keep an invariant and never crash in one given way. What a program reads while the
invariant holds may decide what it does next, so the rules speak of outcomes at one state as well as
of programs. -/

namespace SyncWizard.Foundation

variable {ε κ σ τ α β : Type}

/-- `I` holds in the end, which is not a crash by `bad`. -/
def Sane (bad : κ) (I : σ → Prop) (r : EStateM.Result (Fault ε κ) σ α) : Prop :=
  I (final r) ∧ ∀ s, r ≠ .error (.crashed bad) s

def Safe (bad : κ) (I : σ → Prop) (p : Prog ε κ σ α) : Prop := ∀ s, I s → Sane bad I (p s)

section Rules
variable {bad : κ} {I : σ → Prop} {p : Prog ε κ σ α} {f : α → Prog ε κ σ β} {s : σ}

theorem sane_ok {a : α} (hs : I s) : Sane bad I (.ok a s : EStateM.Result (Fault ε κ) σ α) :=
  ⟨hs, fun s' h => by cases h⟩

theorem sane_raised {e : ε} (hs : I s) :
    Sane bad I (.error (.raised e) s : EStateM.Result (Fault ε κ) σ α) :=
  ⟨hs, fun s' h => by cases h⟩

theorem sane_crashed {c : κ} (hc : c ≠ bad) (hs : I s) :
    Sane bad I (.error (.crashed c) s : EStateM.Result (Fault ε κ) σ α) := by
  refine ⟨hs, fun s' h => hc ?_⟩
  cases h
  rfl

theorem Sane.mono {J : σ → Prop} {r : EStateM.Result (Fault ε κ) σ α} (hr : Sane bad I r)
    (h : ∀ s, I s → J s) : Sane bad J r := ⟨h _ hr.1, hr.2⟩

theorem Sane.bind (hp : Sane bad I (p s)) (hf : ∀ a s', p s = .ok a s' → I s' → Sane bad I (f a s')) :
    Sane bad I ((p >>= f) s) := by
  cases hr : p s with
  | ok a s' =>
    rw [run_bind_ok hr]
    rw [hr] at hp
    exact hf a s' hr hp.1
  | error e s' =>
    rw [run_bind_error hr]
    rw [hr] at hp
    refine ⟨hp.1, fun s'' h => hp.2 s'' ?_⟩
    cases h
    rfl

theorem Sane.attempt {k : ε → Prog ε κ σ α} (hp : Sane bad I (p s))
    (hk : ∀ e s', I s' → Sane bad I (k e s')) :
    Sane bad I (attempt p k s) := by
  cases hr : p s with
  | ok a s' =>
    rw [run_attempt_ok hr]
    rwa [hr] at hp
  | error e s' =>
    rw [hr] at hp
    cases e with
    | raised e =>
      rw [run_attempt_raised hr]
      exact hk e s' hp.1
    | crashed c =>
      rw [run_attempt_crashed hr]
      exact sane_crashed (fun hc => hp.2 s' (by rw [hc])) hp.1

theorem Sane.quiet {p : Prog ε κ σ Unit} (hp : Sane bad I (p s)) : Sane bad I (quiet p s) :=
  hp.attempt fun _ _ hs => sane_ok hs

theorem Safe.pure (a : α) : Safe bad I (Pure.pure a : Prog ε κ σ α) := fun _ => sane_ok

theorem Safe.raise (e : ε) : Safe bad I (raise e : Prog ε κ σ α) := fun _ => sane_raised

theorem Safe.crash {c : κ} (hc : c ≠ bad) : Safe bad I (crash c : Prog ε κ σ α) :=
  fun _ => sane_crashed hc

theorem Safe.get : Safe bad I (MonadState.get : Prog ε κ σ σ) := fun _ => sane_ok

theorem Safe.modify {g : σ → σ} (hg : ∀ s, I s → I (g s)) : Safe bad I (modify g : Prog ε κ σ PUnit) :=
  fun s hs => sane_ok (hg s hs)

theorem Safe.bind (hp : Safe bad I p) (hf : ∀ a, Safe bad I (f a)) : Safe bad I (p >>= f) :=
  fun s hs => (hp s hs).bind fun a s' _ hs' => hf a s' hs'

theorem Safe.attempt {k : ε → Prog ε κ σ α} (hp : Safe bad I p) (hk : ∀ e, Safe bad I (k e)) :
    Safe bad I (attempt p k) := fun s hs => (hp s hs).attempt hk

theorem Safe.forEach {f : α → Prog ε κ σ Unit} {as : List α} (hf : ∀ a ∈ as, Safe bad I (f a)) :
    Safe bad I (forEach f as) := by
  induction as with
  | nil => exact Safe.pure ()
  | cons a as ih =>
    refine Safe.bind (hf a List.mem_cons_self) fun _ => ?_
    exact ih fun b hb => hf b (List.mem_cons_of_mem a hb)

theorem Sane.zoom {view : τ → σ} {put : σ → τ → τ} {J : τ → Prop} {t : τ}
    (hp : Sane bad (fun _ => True) (p (view t))) (hput : ∀ s, J (put s t)) :
    Sane bad J (zoom view put p t) := by
  rw [run_zoom]
  cases hr : p (view t) with
  | ok a s => exact sane_ok (hput s)
  | error e s =>
    rw [hr] at hp
    cases e with
    | raised e => exact sane_raised (hput s)
    | crashed c => exact sane_crashed (fun hc => hp.2 s (by rw [hc])) (hput s)

theorem Safe.zoom {view : τ → σ} {put : σ → τ → τ} {J : τ → Prop} (hp : Safe bad (fun _ => True) p)
    (hput : ∀ s t, J t → J (put s t)) : Safe bad J (zoom view put p) :=
  fun t ht => (hp (view t) trivial).zoom fun s => hput s t ht

theorem Sane.forEach {f : α → Prog ε κ σ Unit} {C : α → σ → Prop} {as : List α}
    (hf : ∀ a s, I s → C a s → Sane bad I (f a s)) (hs : I s) (hC : Along f C as s) :
    Sane bad I (forEach f as s) := by
  induction as generalizing s with
  | nil => exact sane_ok hs
  | cons a as ih =>
    obtain ⟨ha, hrest⟩ := hC
    exact (hf a s hs ha).bind fun _ s' hr hs' => ih hs' (hrest s' hr)

end Rules

end SyncWizard.Foundation
