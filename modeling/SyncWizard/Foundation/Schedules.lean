import Mathlib.Data.List.Induction

/-! Steps that are possible in some states only, as the steps of threads that wait for one another
are. A schedule is a list of steps; a property of all schedules is carried along them by what one
more step does to it. -/

namespace SyncWizard.Foundation

variable {σ ε : Type} (step : ε → σ → Option σ)

/-- The state a schedule leads to, if each of its steps is possible when its turn comes. -/
def runSteps : List ε → σ → Option σ
  | [], s => some s
  | e :: es, s => (step e s).bind (runSteps es)

def Throughout (C : ε → σ → Prop) : List ε → σ → Prop
  | [], _ => True
  | e :: es, s => C e s ∧ ∀ s', step e s = some s' → Throughout C es s'

def outputs {ω : Type} (out : ε → σ → Option ω) : List ε → σ → List ω
  | [], _ => []
  | e :: es, s => (out e s).toList ++ ((step e s).elim [] (outputs out es))

def CanReach (ok : ε → Prop) (P : σ → Prop) (s : σ) : Prop :=
  ∃ es s', (∀ e ∈ es, ok e) ∧ runSteps step es s = some s' ∧ P s'

section Schedules
variable {step} {C : ε → σ → Prop} {e : ε} {es as bs : List ε} {s s' s'' : σ}

@[simp] theorem runSteps_nil : runSteps step [] s = some s := rfl

theorem runSteps_cons (h : step e s = some s') : runSteps step (e :: es) s = runSteps step es s' := by
  rw [runSteps, h, Option.bind_some]

theorem runSteps_cons_inv (h : runSteps step (e :: es) s = some s'') :
    ∃ s', step e s = some s' ∧ runSteps step es s' = some s'' := Option.bind_eq_some_iff.mp h

theorem runSteps_append (bs : List ε) (h : runSteps step as s = some s') :
    runSteps step (as ++ bs) s = runSteps step bs s' := by
  induction as generalizing s with
  | nil =>
    rw [runSteps_nil] at h
    rw [Option.some.inj h, List.nil_append]
  | cons a as ih =>
    obtain ⟨t, ht, hrest⟩ := runSteps_cons_inv h
    rw [List.cons_append, runSteps_cons ht]
    exact ih hrest

theorem outputs_append {ω : Type} (out : ε → σ → Option ω) (bs : List ε)
    (h : runSteps step as s = some s') :
    outputs step out (as ++ bs) s = outputs step out as s ++ outputs step out bs s' := by
  induction as generalizing s with
  | nil =>
    rw [runSteps_nil] at h
    rw [Option.some.inj h]
    rfl
  | cons a as ih =>
    obtain ⟨t, ht, hrest⟩ := runSteps_cons_inv h
    rw [List.cons_append, outputs, outputs, ht, Option.elim_some, Option.elim_some, ih hrest,
      List.append_assoc]

theorem runSteps_append_inv (h : runSteps step (as ++ bs) s = some s'') :
    ∃ s', runSteps step as s = some s' ∧ runSteps step bs s' = some s'' := by
  induction as generalizing s with
  | nil => exact ⟨s, rfl, h⟩
  | cons a as ih =>
    obtain ⟨t, ht, hrest⟩ := runSteps_cons_inv h
    obtain ⟨s', has, hbs⟩ := ih hrest
    exact ⟨s', (runSteps_cons ht).trans has, hbs⟩

theorem runSteps_preserves {I : σ → Prop} (hstep : ∀ e ∈ es, ∀ s s', I s → step e s = some s' → I s')
    (hstart : I s) (hrun : runSteps step es s = some s') : I s' := by
  induction es generalizing s with
  | nil =>
    rw [runSteps_nil] at hrun
    exact Option.some.inj hrun ▸ hstart
  | cons e es ih =>
    obtain ⟨t, ht, hrest⟩ := runSteps_cons_inv hrun
    exact ih (fun e' he => hstep e' (List.mem_cons_of_mem e he))
      (hstep e List.mem_cons_self s t hstart ht) hrest

theorem throughout_of_forall (h : ∀ e ∈ es, ∀ s, C e s) (s : σ) : Throughout step C es s := by
  induction es generalizing s with
  | nil => trivial
  | cons e es ih =>
    exact ⟨h e List.mem_cons_self s, fun s' _ => ih (fun e' he => h e' (List.mem_cons_of_mem e he)) s'⟩

theorem Throughout.and {D : ε → σ → Prop} (hC : Throughout step C es s)
    (hD : Throughout step D es s) : Throughout step (fun e s => C e s ∧ D e s) es s := by
  induction es generalizing s with
  | nil => trivial
  | cons e es ih => exact ⟨⟨hC.1, hD.1⟩, fun s' hs' => ih (hC.2 s' hs') (hD.2 s' hs')⟩

theorem throughout_append (h : runSteps step as s = some s') :
    Throughout step C (as ++ bs) s ↔ Throughout step C as s ∧ Throughout step C bs s' := by
  induction as generalizing s with
  | nil =>
    rw [runSteps_nil] at h
    rw [Option.some.inj h, List.nil_append]
    exact (and_iff_right trivial).symm
  | cons a as ih =>
    obtain ⟨t, ht, hrest⟩ := runSteps_cons_inv h
    have hunique : ∀ {P : σ → Prop}, (∀ u, step a s = some u → P u) ↔ P t := by
      intro P
      constructor
      · exact fun hall => hall t ht
      · intro hp u hu
        rw [ht] at hu
        exact Option.some.inj hu ▸ hp
    simp only [List.cons_append, Throughout, hunique, ih hrest, and_assoc]

theorem throughout_congr {D : ε → σ → Prop} {I : σ → Prop} (hI : I s)
    (hiff : ∀ e s, I s → (C e s ↔ D e s))
    (hstep : ∀ e s s', I s → C e s → step e s = some s' → I s') :
    Throughout step C es s ↔ Throughout step D es s := by
  induction es generalizing s with
  | nil => exact Iff.rfl
  | cons e es ih =>
    rw [Throughout, Throughout, ← hiff e s hI]
    exact and_congr_right fun hC => forall₂_congr fun s' hs' => ih (hstep e s s' hI hC hs')

/-- What holds at the start and survives one more step under `C` holds of every schedule that keeps to
`C`, and of its end. -/
theorem runSteps_invariant_along {I : List ε → σ → Prop} (hstart : I [] s)
    (hstep : ∀ es e s s', I es s → C e s → step e s = some s' → I (es ++ [e]) s')
    (hC : Throughout step C es s) (hrun : runSteps step es s = some s') : I es s' := by
  induction es using List.reverseRecOn generalizing s' with
  | nil =>
    rw [runSteps_nil] at hrun
    exact Option.some.inj hrun ▸ hstart
  | append_singleton es e ih =>
    obtain ⟨t, ht, hlast⟩ := runSteps_append_inv hrun
    obtain ⟨t', hstepped, hend⟩ := runSteps_cons_inv hlast
    obtain ⟨hbefore, hhere, -⟩ := (throughout_append ht).mp hC
    rw [runSteps_nil] at hend
    exact hstep es e t s' (ih hbefore ht) hhere (Option.some.inj hend ▸ hstepped)

theorem runSteps_invariant {I : List ε → σ → Prop} (hstart : I [] s)
    (hstep : ∀ es e s s', I es s → step e s = some s' → I (es ++ [e]) s')
    (hrun : runSteps step es s = some s') : I es s' := by
  have hC : Throughout step (fun _ _ => True) es s := throughout_of_forall (fun _ _ _ => trivial) s
  exact runSteps_invariant_along hstart (fun es e s s' hi _ => hstep es e s s' hi) hC hrun

theorem outputs_preserves {ω : Type} (out : ε → σ → Option ω) {I : List ω → σ → Prop} {o : List ω}
    (hI : I o s) (hstep : ∀ o e s s', I o s → step e s = some s' → I (o ++ (out e s).toList) s')
    (hrun : runSteps step es s = some s') : I (o ++ outputs step out es s) s' := by
  induction es generalizing o s with
  | nil =>
    rw [runSteps_nil] at hrun
    rw [outputs, List.append_nil]
    exact Option.some.inj hrun ▸ hI
  | cons e es ih =>
    obtain ⟨t, ht, hrest⟩ := runSteps_cons_inv hrun
    rw [outputs, ht, Option.elim_some, ← List.append_assoc]
    exact ih (hstep o e s t hI ht) hrest

theorem outputs_invariant {ω : Type} (out : ε → σ → Option ω) {I : List ω → σ → Prop}
    (hstart : I [] s)
    (hstep : ∀ o e s s', I o s → step e s = some s' → I (o ++ (out e s).toList) s')
    (hrun : runSteps step es s = some s') : I (outputs step out es s) s' :=
  outputs_preserves out hstart hstep hrun

/-- Where `C` says of a step whether `P` survives it, a schedule keeps to `C` exactly when every state
it goes through has `P`. -/
theorem throughout_iff_reached {I P : σ → Prop} (hI : I s) (hP : P s)
    (hstep : ∀ e s s', I s → step e s = some s' → I s')
    (hC : ∀ e s s', I s → P s → step e s = some s' → (C e s ↔ P s'))
    (hrun : runSteps step es s = some s'') :
    Throughout step C es s ↔ ∀ as s', as <+: es → runSteps step as s = some s' → P s' := by
  induction es generalizing s with
  | nil =>
    refine iff_of_true trivial fun as s' has hrun' => ?_
    rw [List.prefix_nil.mp has, runSteps_nil] at hrun'
    exact Option.some.inj hrun' ▸ hP
  | cons e es ih =>
    obtain ⟨t, ht, hrest⟩ := runSteps_cons_inv hrun
    have hstate := hC e s t hI hP ht
    constructor
    · rintro ⟨hhere, hlater⟩ as s' has hrun'
      cases as with
      | nil =>
        rw [runSteps_nil] at hrun'
        exact Option.some.inj hrun' ▸ hP
      | cons a as =>
        obtain ⟨rfl, htail⟩ := List.cons_prefix_cons.mp has
        rw [runSteps_cons ht] at hrun'
        have hall := (ih (hstep a s t hI ht) (hstate.mp hhere) hrest).mp (hlater t ht)
        exact hall as s' htail hrun'
    · intro hall
      have hPt : P t := hall [e] t (List.cons_prefix_cons.mpr ⟨rfl, List.nil_prefix⟩) (runSteps_cons ht)
      refine ⟨hstate.mpr hPt, fun t' ht' => ?_⟩
      obtain rfl := Option.some.inj (ht.symm.trans ht')
      refine (ih (hstep e s t hI ht) hPt hrest).mpr fun as s' has hrun' => ?_
      exact hall (e :: as) s' (List.cons_prefix_cons.mpr ⟨rfl, has⟩) ((runSteps_cons ht).trans hrun')

section Reaching
variable {ok : ε → Prop} {P : σ → Prop}

theorem CanReach.here (hs : P s) : CanReach step ok P s := ⟨[], s, by simp, rfl, hs⟩

theorem CanReach.of_run (hes : ∀ e ∈ es, ok e) (hrun : runSteps step es s = some s')
    (hr : CanReach step ok P s') : CanReach step ok P s := by
  obtain ⟨more, t, hmore, hto, hP⟩ := hr
  exact ⟨es ++ more, t, List.forall_mem_append.mpr ⟨hes, hmore⟩,
    (runSteps_append more hrun).trans hto, hP⟩

theorem CanReach.of_step (he : ok e) (hstep : step e s = some s') (hr : CanReach step ok P s') :
    CanReach step ok P s := by
  have hok : ∀ x ∈ [e], ok x := by simpa using he
  exact hr.of_run hok (runSteps_cons hstep)

theorem not_canReach {I : σ → Prop} (hstart : I s)
    (hstep : ∀ e s s', ok e → I s → step e s = some s' → I s') (hI : ∀ s, I s → ¬ P s) :
    ¬ CanReach step ok P s := by
  rintro ⟨es, s', hes, hrun, hP⟩
  exact hI s' (runSteps_preserves (fun e he s s' => hstep e s s' (hes e he)) hstart hrun) hP

end Reaching

end Schedules

end SyncWizard.Foundation
