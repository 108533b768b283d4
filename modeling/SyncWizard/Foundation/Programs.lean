import Mathlib.Order.Defs.Unbundled

/-! Programs over a mutable state that stop with a value or a fault. The state survives a
fault, so an exception never undoes the effects that came before it. A relation between the
states before and after a program is *kept* by it when every outcome, faults included,
satisfies the relation. -/

set_option linter.unusedSectionVars false

namespace SyncWizard.Foundation

/-- An exception can be caught by a handler, a crash ends the whole process. -/
inductive Fault (ε κ : Type) where
  | raised (what : ε)
  | crashed (how : κ)
  deriving DecidableEq, Repr

abbrev Prog (ε κ σ α : Type) := EStateM (Fault ε κ) σ α

variable {ε κ σ τ α β : Type}

def raise (e : ε) : Prog ε κ σ α := fun s => .error (.raised e) s

def crash (c : κ) : Prog ε κ σ α := fun s => .error (.crashed c) s

/-- `try p catch handler`; a crash passes through. -/
def attempt (p : Prog ε κ σ α) (handler : ε → Prog ε κ σ α) : Prog ε κ σ α := fun s =>
  match p s with
  | .ok a s' => .ok a s'
  | .error (.raised e) s' => handler e s'
  | .error (.crashed c) s' => .error (.crashed c) s'

def quiet (p : Prog ε κ σ Unit) : Prog ε κ σ Unit := attempt p fun _ => pure ()

def zoom (view : τ → σ) (put : σ → τ → τ) (p : Prog ε κ σ α) : Prog ε κ τ α := fun t =>
  match p (view t) with
  | .ok a s => .ok a (put s t)
  | .error e s => .error e (put s t)

def forEach (f : α → Prog ε κ σ Unit) : List α → Prog ε κ σ Unit
  | [] => pure ()
  | a :: as => do f a; forEach f as

def final {φ : Type} : EStateM.Result φ σ α → σ
  | .ok _ s => s
  | .error _ s => s

def Returns {φ : Type} (r : EStateM.Result φ σ α) : Prop := ∃ a s, r = .ok a s

section Runs

variable (s : σ)

@[simp] theorem final_ok {φ : Type} (a : α) : final (.ok a s : EStateM.Result φ σ α) = s := rfl

@[simp] theorem final_error {φ : Type} (e : φ) : final (.error e s : EStateM.Result φ σ α) = s := rfl

@[simp] theorem returns_ok {φ : Type} (a : α) : Returns (.ok a s : EStateM.Result φ σ α) :=
  ⟨a, s, rfl⟩

@[simp] theorem not_returns_error {φ : Type} (e : φ) :
    ¬ Returns (.error e s : EStateM.Result φ σ α) := by
  rintro ⟨a, s', h⟩
  cases h

@[simp] theorem run_pure (a : α) : (pure a : Prog ε κ σ α) s = .ok a s := rfl

@[simp] theorem run_raise (e : ε) : (raise e : Prog ε κ σ α) s = .error (.raised e) s := rfl

@[simp] theorem run_crash (c : κ) : (crash c : Prog ε κ σ α) s = .error (.crashed c) s := rfl

@[simp] theorem run_get : (get : Prog ε κ σ σ) s = .ok s s := rfl

@[simp] theorem run_modify (f : σ → σ) : (modify f : Prog ε κ σ PUnit) s = .ok ⟨⟩ (f s) := rfl

theorem run_bind (p : Prog ε κ σ α) (f : α → Prog ε κ σ β) :
    (p >>= f) s = match p s with
      | .ok a s' => f a s'
      | .error e s' => .error e s' := by
  change EStateM.bind p f s = _
  unfold EStateM.bind
  cases p s <;> rfl

theorem run_bind_ok {p : Prog ε κ σ α} {a : α} {s s' : σ} (h : p s = .ok a s')
    (f : α → Prog ε κ σ β) : (p >>= f) s = f a s' := by
  rw [run_bind, h]

theorem run_bind_error {p : Prog ε κ σ α} {e : Fault ε κ} {s s' : σ} (h : p s = .error e s')
    (f : α → Prog ε κ σ β) : (p >>= f) s = .error e s' := by
  rw [run_bind, h]

theorem run_bind_inv {p : Prog ε κ σ α} {f : α → Prog ε κ σ β} {b : β} {s s' : σ}
    (h : (p >>= f) s = .ok b s') : ∃ a t, p s = .ok a t ∧ f a t = .ok b s' := by
  rw [run_bind] at h
  cases hp : p s with
  | ok a t =>
    rw [hp] at h
    exact ⟨a, t, rfl, h⟩
  | error e t =>
    rw [hp] at h
    cases h

theorem run_attempt_ok {p : Prog ε κ σ α} {a : α} {s s' : σ} (h : p s = .ok a s')
    (k : ε → Prog ε κ σ α) : attempt p k s = .ok a s' := by
  simp only [attempt, h]

theorem run_attempt_raised {p : Prog ε κ σ α} {e : ε} {s s' : σ}
    (h : p s = .error (.raised e) s') (k : ε → Prog ε κ σ α) : attempt p k s = k e s' := by
  simp only [attempt, h]

theorem run_attempt_crashed {p : Prog ε κ σ α} {c : κ} {s s' : σ}
    (h : p s = .error (.crashed c) s') (k : ε → Prog ε κ σ α) :
    attempt p k s = .error (.crashed c) s' := by
  simp only [attempt, h]

theorem final_attempt_raise (p : Prog ε κ σ α) (f : ε → ε) (s : σ) :
    final (attempt p (fun e => raise (f e)) s) = final (p s) := by
  unfold attempt
  cases p s with
  | ok a t => rfl
  | error e t => cases e <;> rfl

theorem attempt_raise_inv {p : Prog ε κ σ α} {f : ε → ε} {s s' : σ} {a : α}
    (hr : attempt p (fun e => raise (f e)) s = .ok a s') : p s = .ok a s' := by
  unfold attempt at hr
  cases hp : p s with
  | ok b t => rwa [hp] at hr
  | error e t =>
    rw [hp] at hr
    cases e <;> cases hr

theorem run_quiet_ok {p : Prog ε κ σ Unit} {u : Unit} {s s' : σ} (h : p s = .ok u s') :
    quiet p s = .ok () s' := run_attempt_ok h _

theorem run_quiet_raised {p : Prog ε κ σ Unit} {e : ε} {s s' : σ} (h : p s = .error (.raised e) s') :
    quiet p s = .ok () s' := run_attempt_raised h _

theorem run_quiet_crashed {p : Prog ε κ σ Unit} {c : κ} {s s' : σ} (h : p s = .error (.crashed c) s') :
    quiet p s = .error (.crashed c) s' := run_attempt_crashed h _

theorem quiet_congr {p q : Prog ε κ σ Unit} {s : σ} (h : p s = q s) : quiet p s = quiet q s := by
  simp only [quiet, attempt, h]

theorem final_quiet (p : Prog ε κ σ Unit) (s : σ) : final (quiet p s) = final (p s) := by
  unfold quiet attempt
  cases p s with
  | ok u s' => rfl
  | error e s' => cases e <;> rfl

theorem run_zoom_ok {view : τ → σ} {put : σ → τ → τ} {p : Prog ε κ σ α} {a : α} {t : τ} {s : σ}
    (h : p (view t) = .ok a s) : zoom view put p t = .ok a (put s t) := by
  simp only [zoom, h]

theorem run_zoom_error {view : τ → σ} {put : σ → τ → τ} {p : Prog ε κ σ α} {e : Fault ε κ} {t : τ}
    {s : σ} (h : p (view t) = .error e s) : zoom view put p t = .error e (put s t) := by
  simp only [zoom, h]

theorem run_zoom (view : τ → σ) (put : σ → τ → τ) (p : Prog ε κ σ α) (t : τ) :
    zoom view put p t = match p (view t) with
      | .ok a s => .ok a (put s t)
      | .error e s => .error e (put s t) := rfl

theorem final_zoom (view : τ → σ) (put : σ → τ → τ) (p : Prog ε κ σ α) (t : τ) :
    final (zoom view put p t) = put (final (p (view t))) t := by
  rw [run_zoom]
  cases p (view t) <;> rfl

theorem zoom_quiet (view : τ → σ) (put : σ → τ → τ) (p : Prog ε κ σ Unit) :
    quiet (zoom view put p) = zoom view put (quiet p) := by
  funext t
  cases hp : p (view t) with
  | ok a s => exact (run_quiet_ok (run_zoom_ok hp)).trans (run_zoom_ok (run_quiet_ok hp)).symm
  | error e s =>
    cases e with
    | raised e =>
      exact (run_quiet_raised (run_zoom_error hp)).trans (run_zoom_ok (run_quiet_raised hp)).symm
    | crashed c =>
      exact (run_quiet_crashed (run_zoom_error hp)).trans (run_zoom_error (run_quiet_crashed hp)).symm

theorem zoom_bind {view : τ → σ} {put : σ → τ → τ} (hview : ∀ s t, view (put s t) = s)
    (hput : ∀ s s' t, put s (put s' t) = put s t) (p : Prog ε κ σ α) (f : α → Prog ε κ σ β) :
    zoom view put (p >>= f) = zoom view put p >>= fun a => zoom view put (f a) := by
  funext t
  rw [run_bind, run_zoom, run_zoom, run_bind]
  cases p (view t) with
  | error e s => rfl
  | ok a s =>
    dsimp only
    rw [run_zoom, hview]
    cases f a s with
    | ok b s' => exact congrArg (EStateM.Result.ok b) (hput s' s t).symm
    | error e s' => exact congrArg (EStateM.Result.error e) (hput s' s t).symm

theorem zoom_pure {view : τ → σ} {put : σ → τ → τ} (hsame : ∀ t, put (view t) t = t) (a : α) :
    zoom view put (pure a : Prog ε κ σ α) = pure a := by
  funext t
  exact congrArg (EStateM.Result.ok a) (hsame t)

theorem zoom_forEach {view : τ → σ} {put : σ → τ → τ} (hview : ∀ s t, view (put s t) = s)
    (hput : ∀ s s' t, put s (put s' t) = put s t) (hsame : ∀ t, put (view t) t = t)
    (f : α → Prog ε κ σ Unit) (as : List α) :
    zoom view put (forEach f as) = forEach (fun a => zoom view put (f a)) as := by
  induction as with
  | nil => exact zoom_pure hsame ()
  | cons a as ih =>
    rw [forEach, zoom_bind hview hput, forEach, ih]

theorem attempt_forEach (f : α → Prog ε κ σ Unit) (c : κ) (as : List α) :
    attempt (forEach f as) (fun _ => crash c) =
      forEach (fun a => attempt (f a) fun _ => crash c) as := by
  induction as with
  | nil => rfl
  | cons a as ih =>
    funext s
    rw [forEach, forEach, ← ih]
    cases hf : f a s with
    | ok u s' =>
      rw [run_bind_ok (run_attempt_ok hf _)]
      simp only [attempt, run_bind_ok hf]
    | error e s' =>
      cases e with
      | raised e =>
        rw [run_attempt_raised (run_bind_error hf _), run_bind_error (run_attempt_raised hf _)]
        rfl
      | crashed c' =>
        rw [run_attempt_crashed (run_bind_error hf _), run_bind_error (run_attempt_crashed hf _)]

theorem forEach_map (f : β → Prog ε κ σ Unit) (g : α → β) (as : List α) :
    forEach f (as.map g) = forEach (fun a => f (g a)) as := by
  induction as with
  | nil => rfl
  | cons a as ih => rw [List.map_cons, forEach, forEach, ih]

theorem run_zoom_inv {view : τ → σ} {put : σ → τ → τ} {p : Prog ε κ σ α} {a : α} {t t' : τ}
    (h : zoom view put p t = .ok a t') : ∃ s, p (view t) = .ok a s ∧ t' = put s t := by
  unfold zoom at h
  cases hp : p (view t) with
  | ok b s =>
    rw [hp] at h
    cases h
    exact ⟨s, rfl, rfl⟩
  | error e s =>
    rw [hp] at h
    cases h

theorem run_forEach_append {f : α → Prog ε κ σ Unit} {as : List α} {s t : σ}
    (h : forEach f as s = .ok () t) (bs : List α) : forEach f (as ++ bs) s = forEach f bs t := by
  induction as generalizing s with
  | nil =>
    cases h
    rfl
  | cons a as ih =>
    rw [List.cons_append, forEach]
    rw [forEach] at h
    obtain ⟨u, s', hfirst, hrest⟩ := run_bind_inv h
    rw [run_bind_ok hfirst]
    exact ih hrest

theorem run_forEach_same {f : α → Prog ε κ σ Unit} {as : List α} {s : σ}
    (h : ∀ a ∈ as, f a s = .ok () s) : forEach f as s = .ok () s := by
  induction as with
  | nil => rfl
  | cons a as ih =>
    exact (run_bind_ok (h a List.mem_cons_self) _).trans
      (ih fun b hb => h b (List.mem_cons_of_mem a hb))

theorem returns_bind_iff {p : Prog ε κ σ α} {f : α → Prog ε κ σ β} {s : σ} :
    Returns ((p >>= f) s) ↔ ∃ a t, p s = .ok a t ∧ Returns (f a t) := by
  constructor
  · rintro ⟨b, s', h⟩
    obtain ⟨a, t, hp, hf⟩ := run_bind_inv h
    exact ⟨a, t, hp, b, s', hf⟩
  · rintro ⟨a, t, hp, hf⟩
    rwa [run_bind_ok hp]

theorem Returns.bind {p : Prog ε κ σ α} {f : α → Prog ε κ σ β} {s : σ} (hp : Returns (p s))
    (hf : ∀ a t, p s = .ok a t → Returns (f a t)) : Returns ((p >>= f) s) := by
  obtain ⟨a, t, h⟩ := hp
  rw [run_bind_ok h]
  exact hf a t h

theorem Returns.attempt {p : Prog ε κ σ α} {s : σ} (hp : Returns (p s)) (k : ε → Prog ε κ σ α) :
    Returns (attempt p k s) := by
  obtain ⟨a, t, h⟩ := hp
  exact ⟨a, t, run_attempt_ok h k⟩

theorem Returns.forEach {f : α → Prog ε κ σ Unit} {as : List α} (hf : ∀ a ∈ as, ∀ s, Returns (f a s))
    (s : σ) : Returns (forEach f as s) := by
  induction as generalizing s with
  | nil => exact returns_ok s ()
  | cons a as ih =>
    exact (hf a List.mem_cons_self s).bind fun _ t _ =>
      ih (fun b hb => hf b (List.mem_cons_of_mem a hb)) t

end Runs

/-- `C` holds before each step of the run of `f` over `as`. -/
def Along (f : α → Prog ε κ σ Unit) (C : α → σ → Prop) : List α → σ → Prop
  | [], _ => True
  | a :: as, s => C a s ∧ ∀ s', f a s = .ok () s' → Along f C as s'

theorem along_congr {f : α → Prog ε κ σ Unit} {C D I : α → σ → Prop} {as : List α} {s : σ}
    (hI : ∀ a s s', f a s = .ok () s' → I a s → ∀ b, I b s') (h : ∀ a s, I a s → (C a s ↔ D a s))
    (hs : ∀ a, I a s) : Along f C as s ↔ Along f D as s := by
  induction as generalizing s with
  | nil => exact Iff.rfl
  | cons a as ih =>
    refine and_congr (h a s (hs a)) (forall_congr' fun s' => forall_congr' fun hrun => ?_)
    exact ih (hI a s s' hrun (hs a))

def Kept (R : σ → σ → Prop) (p : Prog ε κ σ α) : Prop := ∀ s, R s (final (p s))

section Rules

variable {R : σ → σ → Prop} [Std.Refl R] [IsTrans σ R]

theorem Kept.mono {R' : σ → σ → Prop} {p : Prog ε κ σ α} (hp : Kept R p)
    (h : ∀ s s', R s s' → R' s s') : Kept R' p := fun s => h _ _ (hp s)

theorem Kept.pure (a : α) : Kept R (Pure.pure a : Prog ε κ σ α) := fun s => refl_of R s

theorem Kept.raise (e : ε) : Kept R (raise e : Prog ε κ σ α) := fun s => refl_of R s

theorem Kept.crash (c : κ) : Kept R (crash c : Prog ε κ σ α) := fun s => refl_of R s

theorem Kept.get : Kept R (MonadState.get : Prog ε κ σ σ) := fun s => refl_of R s

theorem Kept.modify {f : σ → σ} (h : ∀ s, R s (f s)) : Kept R (modify f : Prog ε κ σ PUnit) :=
  h

theorem Kept.bind {p : Prog ε κ σ α} {f : α → Prog ε κ σ β} (hp : Kept R p)
    (hf : ∀ a, Kept R (f a)) : Kept R (p >>= f) := by
  intro s
  have h := hp s
  rw [run_bind]
  cases hr : p s with
  | ok a t =>
    rw [hr] at h
    exact trans_of R h (hf a t)
  | error e t =>
    rw [hr] at h
    exact h

def Yields (p : Prog ε κ σ α) (a : α) : Prop := ∃ s s', p s = .ok a s'

theorem Kept.bindOf {p : Prog ε κ σ α} {f : α → Prog ε κ σ β} (hp : Kept R p)
    (hf : ∀ a, Yields p a → Kept R (f a)) : Kept R (p >>= f) := by
  intro s
  have h := hp s
  rw [run_bind]
  cases hr : p s with
  | ok a t =>
    rw [hr] at h
    exact trans_of R h (hf a ⟨s, t, hr⟩ t)
  | error e t =>
    rw [hr] at h
    exact h

theorem Kept.attempt {p : Prog ε κ σ α} {k : ε → Prog ε κ σ α} (hp : Kept R p)
    (hk : ∀ e, Kept R (k e)) : Kept R (attempt p k) := by
  intro s
  have h := hp s
  unfold SyncWizard.Foundation.attempt
  cases hr : p s with
  | ok a t =>
    rw [hr] at h
    exact h
  | error e t =>
    rw [hr] at h
    cases e with
    | raised e => exact trans_of R h (hk e t)
    | crashed c => exact h

theorem Kept.forEach {f : α → Prog ε κ σ Unit} {as : List α} (hf : ∀ a ∈ as, Kept R (f a)) :
    Kept R (forEach f as) := by
  induction as with
  | nil => exact Kept.pure ()
  | cons a as ih =>
    exact Kept.bind (hf a List.mem_cons_self)
      fun _ => ih fun b hb => hf b (List.mem_cons_of_mem a hb)

theorem Kept.zoom {view : τ → σ} {put : σ → τ → τ} {S : τ → τ → Prop} {p : Prog ε κ σ α}
    (hp : Kept R p) (h : ∀ t s, R (view t) s → S t (put s t)) : Kept S (zoom view put p) := by
  intro t
  have hr := hp (view t)
  unfold SyncWizard.Foundation.zoom
  cases hz : p (view t) with
  | ok a s =>
    rw [hz] at hr
    exact h t s hr
  | error e s =>
    rw [hz] at hr
    exact h t s hr

theorem run_bind_still {p : Prog ε κ σ α} (hp : Kept (· = ·) p) (f : α → Prog ε κ σ β) (s : σ) :
    (∃ e, (p >>= f) s = .error e s) ∨ ∃ a, p s = .ok a s ∧ (p >>= f) s = f a s := by
  have hs := hp s
  cases hr : p s with
  | error e t =>
    rw [hr, final_error] at hs
    subst hs
    exact .inl ⟨e, run_bind_error hr _⟩
  | ok a t =>
    rw [hr, final_ok] at hs
    subst hs
    exact .inr ⟨a, rfl, run_bind_ok hr _⟩

def Leads (R : σ → σ → Prop) (p : Prog ε κ σ α) (q : Prog ε κ σ β) : Prop :=
  ∀ s, R (final (p s)) (final (q s))

theorem Leads.refl (p : Prog ε κ σ α) : Leads R p p := fun s => refl_of R (final (p s))

theorem Leads.raise (e : ε) {q : Prog ε κ σ β} (hq : Kept R q) :
    Leads R (SyncWizard.Foundation.raise e : Prog ε κ σ α) q := hq

theorem Leads.bind {α' β' : Type} (p : Prog ε κ σ α) {f : α → Prog ε κ σ α'}
    {g : α → Prog ε κ σ β'} (hf : ∀ a, Leads R (f a) (g a)) : Leads R (p >>= f) (p >>= g) := by
  intro s
  rw [run_bind, run_bind]
  cases p s with
  | ok a t => exact hf a t
  | error e t => exact refl_of R t

theorem Leads.before_pure {p : Prog ε κ σ Unit} {q : Prog ε κ σ β} (h : Leads R p q) (a : α) :
    Leads R (p >>= fun _ => Pure.pure a) q := by
  intro s
  have hr := h s
  rw [run_bind]
  cases hp : p s <;> rwa [hp] at hr

theorem Leads.zoom {view : τ → σ} {put : σ → τ → τ} {S : τ → τ → Prop} {p : Prog ε κ σ α}
    {q : Prog ε κ σ β} (h : Leads R p q) (hS : ∀ t s s', R s s' → S (put s t) (put s' t)) :
    Leads S (zoom view put p) (zoom view put q) := by
  intro t
  rw [final_zoom, final_zoom]
  exact hS t _ _ (h (view t))

theorem Leads.bind_kept {α' : Type} {p : Prog ε κ σ α} {q : Prog ε κ σ β} (h : Leads R p q)
    {f : β → Prog ε κ σ α'} (hf : ∀ b, Kept R (f b)) : Leads R p (q >>= f) := by
  intro s
  have hr := h s
  rw [run_bind]
  cases hq : q s with
  | ok b t =>
    rw [hq] at hr
    exact trans_of R hr (hf b t)
  | error e t =>
    rw [hq] at hr
    exact hr

theorem Leads.attempt_kept {p : Prog ε κ σ α} {q : Prog ε κ σ β} (h : Leads R p q)
    {k : ε → Prog ε κ σ β} (hk : ∀ e, Kept R (k e)) :
    Leads R p (SyncWizard.Foundation.attempt q k) := by
  intro s
  have hr := h s
  unfold SyncWizard.Foundation.attempt
  cases hq : q s with
  | ok b t =>
    rw [hq] at hr
    exact hr
  | error e t =>
    rw [hq] at hr
    cases e with
    | raised e => exact trans_of R hr (hk e t)
    | crashed c => exact hr

end Rules

end SyncWizard.Foundation
