import SyncWizard.Common.SenderLoop

/-! Whether a sender that is stopped can stay asleep. The flag is cleared without the mutex, so that it
may be cleared after the sender has looked at it and before the sender sleeps. -/

namespace SyncWizard.Properties
open Foundation Common

section Stopping
variable {ι : Type}

def Coming (q : SenderState ι) : Prop := ∃ i, .notifies ∈ q.rest i

/-- The sender sleeps although an operation has cleared the flag, and that operation, like all the
others, has no notification left. At most it waits for the sender. -/
structure Stranded (q : SenderState ι) : Prop where
  cleared : q.runningSender = false
  asleep : q.place = .asleep
  silent : ¬ Coming q

/-- No state on the way of a schedule has a stranded sender. -/
def NeverStranded [DecidableEq ι] (l : SenderLoop) (es : List (SenderEvent ι)) : Prop :=
  ∀ as q, as <+: es → runSteps (loopStep l) as SenderState.fresh = some q → ¬ Stranded q

/-- Before a step: the flag is not cleared under a sleeping sender, and a sender that has missed it does
not go to sleep, unless a notification is ahead. -/
structure Attended (e : SenderEvent ι) (q : SenderState ι) : Prop where
  clears : ∀ i more, e = .acts i → q.rest i = .clears :: more → q.place = .asleep → Coming q
  sleeps : e = .turns → q.place = .deciding → q.runningSender = false → Coming q

end Stopping

/-! ## One step -/

section Steps
variable {ι : Type} {l : SenderLoop} {e : SenderEvent ι} {i : ι} {q q' : SenderState ι}

theorem not_stranded_of_place (hp : q.place ≠ .asleep) : ¬ Stranded q := fun hs => hp hs.asleep

theorem not_stranded_of_same (hn : ¬ Stranded q) (hf : q'.runningSender = q.runningSender)
    (hp : q'.place = q.place) (hc : Coming q → Coming q') : ¬ Stranded q' :=
  fun hs => hn ⟨hf.symm.trans hs.cleared, hp.symm.trans hs.asleep, fun h => hs.silent (hc h)⟩

theorem attended_of_place (ha : q.place ≠ .asleep) (hd : q.place ≠ .deciding) : Attended e q :=
  ⟨fun _ _ _ _ h => absurd h ha, fun _ h => absurd h hd⟩

theorem attended_other (ha : ∀ i, e ≠ .acts i) (ht : e ≠ .turns) : Attended e q :=
  ⟨fun i _ he => absurd he (ha i), fun he => absurd he ht⟩

variable [DecidableEq ι]

theorem coming_setRest {a : Instruction} {more : List Instruction} (hr : q.rest i = a :: more)
    (ha : a ≠ .notifies) (hq : q'.rest = Function.update q.rest i more) : Coming q' ↔ Coming q := by
  refine exists_congr fun j => ?_
  rw [hq]
  by_cases hj : j = i
  · subst hj
    rw [Function.update_self, hr, List.mem_cons, or_iff_right (Ne.symm ha)]
  · rw [Function.update_of_ne hj]

theorem acts_attended_iff (hn : ¬ Stranded q) (hs : loopStep l (.acts i) q = some q') :
    Attended (.acts i) q ↔ ¬ Stranded q' := by
  obtain ⟨a, more, hrest, hperform⟩ := act_inv hs
  have hattended : a ≠ .clears → Attended (.acts i) q := by
    refine fun ha => ⟨fun j more' he hr _ => ?_, fun he => by cases he⟩
    cases he
    exact absurd (List.cons.inj (hrest.symm.trans hr)).1 ha
  by_cases hnotify : a = .notifies
  · subst hnotify
    refine iff_of_true (hattended fun he => by cases he) (not_stranded_of_place ?_)
    cases hperform
    dsimp only
    split_ifs with hp
    · exact fun he => by cases he
    · exact hp
  obtain ⟨hplace, hcode, hflag⟩ := perform_place hnotify hperform
  have hcoming : Coming q' ↔ Coming q := coming_setRest hrest hnotify hcode
  by_cases hclear : a = .clears
  · subst hclear
    cases hperform
    constructor
    · intro hat hstranded
      exact hstranded.silent (hcoming.mpr (hat.clears i more rfl hrest hstranded.asleep))
    · refine fun hnot => ⟨fun j more' he hr hp => ?_, fun he => by cases he⟩
      by_contra hsilent
      exact hnot ⟨rfl, hp, fun hc => hsilent (hcoming.mp hc)⟩
  · exact iff_of_true (hattended hclear)
      (not_stranded_of_same hn (hflag hclear) hplace hcoming.mpr)

omit [DecidableEq ι] in
theorem turns_attended_iff (ht : LoopTurn q q') : Attended .turns q ↔ ¬ Stranded q' := by
  have hattended : q.place ≠ .deciding → Attended (.turns : SenderEvent ι) q :=
    fun hp => ⟨fun _ _ he => (by cases he), fun _ hd => absurd hd hp⟩
  cases ht with
  | sleeps hp =>
    constructor
    · exact fun hat hs => hs.silent (hat.sleeps rfl hp hs.cleared)
    · refine fun hnot => ⟨fun _ _ he => (by cases he), fun _ _ hf => ?_⟩
      by_contra hsilent
      exact hnot ⟨hf, rfl, hsilent⟩
  | locks hp =>
    refine iff_of_true (hattended ?_) (not_stranded_of_place fun he => by cases he)
    rcases hp with hp | hp
    · simp [hp]
    · simp [hp]
  | enters hp | goesOn hp | leaves hp | finds hp | decides hp | stops hp | rests hp | starts hp
  | notifies hp =>
    exact iff_of_true (hattended (by simp [hp])) (not_stranded_of_place fun he => by cases he)

theorem attended_iff (hw : Written l q) (hn : ¬ Stranded q) (hs : loopStep l e q = some q') :
    Attended e q ↔ ¬ Stranded q' := by
  cases e with
  | acts i => exact acts_attended_iff hn hs
  | turns => exact turns_attended_iff (turn_inv hs)
  | begins i o =>
    obtain ⟨hrest, -, rfl⟩ := loop_begins_inv hs
    refine iff_of_true (attended_other (by simp) (by simp)) ?_
    refine not_stranded_of_same hn rfl rfl fun ⟨j, hj⟩ => ⟨j, ?_⟩
    have hne : j ≠ i := by
      rintro rfl
      rw [hrest] at hj
      cases hj
    change _ ∈ Function.update q.rest i o.code j
    rw [Function.update_of_ne hne]
    exact hj
  | breaks i =>
    obtain ⟨⟨more, hrest⟩, hcode, hplace, hflag⟩ := breakOff_inv hs
    refine iff_of_true (attended_other (by simp) (by simp)) ?_
    refine not_stranded_of_same hn hflag hplace fun ⟨j, hj⟩ => ⟨j, ?_⟩
    have hne : j ≠ i := by
      rintro rfl
      obtain ⟨o, -, hsuffix⟩ := hw j
      refine code_unnotified (o := o) ?_ (hsuffix.subset hj)
      rcases hrest with hrest | hrest
      · exact .inl (hsuffix.subset (hrest ▸ List.mem_cons_self))
      · exact .inr (hsuffix.subset (hrest ▸ List.mem_cons_self))
    rw [hcode, Function.update_of_ne hne]
    exact hj
  | sends | fails | wakes =>
    obtain ⟨-, he⟩ := Option.ite_none_right_eq_some.mp hs
    cases he
    refine iff_of_true (attended_other (by simp) (by simp)) ?_
    exact not_stranded_of_place fun he => by cases he

end Steps

/-! ## Runs -/

section Runs
variable {ι : Type} [DecidableEq ι] {l : SenderLoop} {es : List (SenderEvent ι)} {q : SenderState ι}

structure Begun (es : List (SenderEvent ι)) (q : SenderState ι) : Prop where
  ahead : ∀ i, .clears ∈ q.rest i → ∃ o : Operation, .begins i o ∈ es ∧ o.Stops
  cleared : q.runningSender = false → ∃ i, ∃ o : Operation, .begins i o ∈ es ∧ o.Stops

theorem Begun.step {e : SenderEvent ι} {q' : SenderState ι} (hb : Begun es q)
    (hs : loopStep l e q = some q') : Begun (es ++ [e]) q' := by
  have hlonger : ∀ {i : ι}, (∃ o : Operation, .begins i o ∈ es ∧ o.Stops) →
      ∃ o : Operation, .begins i o ∈ es ++ [e] ∧ o.Stops :=
    fun ⟨o, ho, hstops⟩ => ⟨o, List.mem_append_left _ ho, hstops⟩
  refine ⟨fun j hj => ?_, fun hf => ?_⟩
  · rcases loopStep_rest hs j with hsuffix | ⟨o, rfl, -, hcode⟩
    · exact hlonger (hb.ahead j (hsuffix.subset hj))
    · rw [hcode] at hj
      exact ⟨o, List.mem_append_right _ List.mem_cons_self, hj⟩
  · rcases loopStep_flag hs hf with hf | ⟨i, more, -, hrest⟩
    · obtain ⟨i, ho⟩ := hb.cleared hf
      exact ⟨i, hlonger ho⟩
    · refine ⟨i, hlonger (hb.ahead i ?_)⟩
      rw [hrest]
      exact List.mem_cons_self

theorem cleared_stops (hrun : runSteps (loopStep l) es SenderState.fresh = some q)
    (hf : q.runningSender = false) : ∃ i, ∃ o : Operation, .begins i o ∈ es ∧ o.Stops := by
  have hbegun : Begun es q := by
    refine runSteps_invariant ⟨fun i hi => ?_, fun hf => ?_⟩ (fun _ _ _ _ hb hs => hb.step hs) hrun
    · cases hi
    · cases hf
  exact hbegun.cleared hf

end Runs

/-- A run goes through no state in which a stopped sender is left asleep exactly when, in every step of
it, a notification is ahead of the sender if the flag is cleared while it sleeps, or if it goes to sleep
with the flag cleared. -/
theorem stopped_sender_wakes_iff {ι : Type} [DecidableEq ι] (l : SenderLoop)
    (es : List (SenderEvent ι)) (q : SenderState ι)
    (hrun : runSteps (loopStep l) es SenderState.fresh = some q) :
    NeverStranded l es ↔ Throughout (loopStep l) Attended es SenderState.fresh := by
  refine (throughout_iff_reached (I := Written l) fresh_written (not_stranded_of_place ?_)
    (fun e s s' hw hs => hw.step hs) (fun e s s' hw hn hs => attended_iff hw hn hs) hrun).symm
  exact fun he => by cases he

/-! ## Senders that do not wake up -/

def strandingRun (o : Operation) : List (SenderEvent Unit) :=
  match o with
  -- the flag is cleared under the sleeping sender
  | .sessionStopSender | .clientRequestedLogout =>
    [.turns, .turns, .turns, .turns, .turns, .begins () o, .acts ()]
  | .serverExitCommand =>
    [.turns, .turns, .turns, .turns, .turns, .begins () o, .acts (), .acts ()]
  | .exitCommand =>
    [.turns, .turns, .turns, .turns, .turns, .begins () o, .acts (), .acts (), .acts (), .acts (),
      .acts ()]
  -- the notification comes before the sender sleeps
  | .stopSender =>
    [.turns, .turns, .turns, .turns, .begins () o, .acts (), .acts (), .turns]
  -- the packet of the operation is sent before the flag is cleared
  | .disconnect _ =>
    [.turns, .turns, .turns, .turns, .turns, .begins () o, .acts (), .acts (), .acts (),
      .turns, .turns, .turns, .sends, .turns, .turns, .turns, .turns, .acts (), .acts (), .turns]
  | .produces _ | .lists _ => []

def asleepBeside (o : Operation) : SenderState Unit := ⟨[], true, none, .asleep, fun _ => o.code⟩

theorem asleep_begins {l : SenderLoop} {o : Operation} (ho : o.within l = true)
    (es : List (SenderEvent Unit)) :
    runSteps (loopStep l) (.turns :: .turns :: .turns :: .turns :: .turns :: .begins () o :: es)
      SenderState.fresh = runSteps (loopStep l) es (asleepBeside o) := by
  have hrest : Function.update (fun _ : Unit => ([] : List Instruction))
      () o.code = fun _ => o.code := by
    funext i
    exact Function.update_self ..
  have hbegins : loopStep l (.begins () o) ⟨[], true, none, .asleep, fun _ => []⟩ =
      some (asleepBeside o) := by
    have hidle : (([] : List Instruction).isEmpty && o.within l) = true := by rw [ho]; rfl
    refine (if_pos hidle).trans ?_
    rw [SenderState.setRest, hrest, asleepBeside]
  exact runSteps_cons hbegins

/-- A run of an operation alone leaves the sender stranded, with the operation at its end or waiting
for the sender. -/
def LeavesAsleep (l : SenderLoop) (o : Operation) : Prop :=
  ∃ q, runSteps (loopStep l) (strandingRun o) SenderState.fresh = some q ∧ Stranded q ∧
    (q.rest () = [] ∨ q.rest () = [.joins])

theorem leavesAsleep_of_run {l : SenderLoop} {o : Operation} {q : SenderState Unit}
    (hrun : runSteps (loopStep l) (strandingRun o) SenderState.fresh = some q)
    (hf : q.runningSender = false) (hp : q.place = .asleep)
    (hr : q.rest () = [] ∨ q.rest () = [.joins]) : LeavesAsleep l o := by
  refine ⟨q, hrun, ⟨hf, hp, ?_⟩, hr⟩
  rintro ⟨i, hi⟩
  rcases hr with hr | hr
  · simp [hr] at hi
  · simp [hr] at hi

theorem exit_leavesAsleep : LeavesAsleep .client .exitCommand := by
  have hrun := asleep_begins (o := .exitCommand) (l := .client) rfl
    [.acts (), .acts (), .acts (), .acts (), .acts ()]
  exact leavesAsleep_of_run (hrun.trans rfl) rfl rfl (.inl rfl)

theorem stopSender_leavesAsleep : LeavesAsleep .client .stopSender :=
  leavesAsleep_of_run rfl rfl rfl (.inr rfl)

theorem disconnect_leavesAsleep : LeavesAsleep .session (.disconnect []) := by
  have hrun := asleep_begins (o := .disconnect []) (l := .session) rfl
    [.acts (), .acts (), .acts (), .turns, .turns, .turns, .sends, .turns, .turns, .turns, .turns,
      .acts (), .acts (), .turns]
  rw [asleepBeside, Operation.code, disconnectCode_nil] at hrun
  exact leavesAsleep_of_run (hrun.trans rfl) rfl rfl (.inl rfl)

/-- Each of the six operations, alone with the sender, can leave it asleep. -/
theorem every_stop_strands :
    LeavesAsleep .session .sessionStopSender ∧ LeavesAsleep .session .clientRequestedLogout ∧
      LeavesAsleep .session (.disconnect []) ∧ LeavesAsleep .client .stopSender ∧
      LeavesAsleep .client .exitCommand ∧ LeavesAsleep .client .serverExitCommand := by
  have hstop : LeavesAsleep .session .sessionStopSender :=
    leavesAsleep_of_run rfl rfl rfl (.inr rfl)
  have hlogout : LeavesAsleep .session .clientRequestedLogout :=
    leavesAsleep_of_run rfl rfl rfl (.inl rfl)
  have hserverExit : LeavesAsleep .client .serverExitCommand :=
    leavesAsleep_of_run rfl rfl rfl (.inl rfl)
  exact ⟨hstop, hlogout, disconnect_leavesAsleep, stopSender_leavesAsleep, exit_leavesAsleep,
    hserverExit⟩

def stoppedInTime : List (SenderEvent Unit) :=
  [.turns, .begins () .sessionStopSender, .acts (), .turns, .acts ()]

theorem stoppedInTime_wakes : NeverStranded .session stoppedInTime := by
  refine (stopped_sender_wakes_iff .session stoppedInTime _ rfl).mpr ?_
  refine ⟨attended_of_place (by simp [SenderState.fresh]) (by simp [SenderState.fresh]), fun _ hs => ?_⟩
  cases hs
  refine ⟨attended_other (by simp) (by simp), fun _ hs => ?_⟩
  cases hs
  refine ⟨attended_of_place
    (by simp [SenderState.setRest]) (by simp [SenderState.setRest]), fun _ hs => ?_⟩
  cases hs
  refine ⟨attended_of_place
    (by simp [SenderState.setRest]) (by simp [SenderState.setRest]), fun _ hs => ?_⟩
  cases hs
  exact ⟨attended_of_place (by simp) (by simp), fun _ _ => trivial⟩

end SyncWizard.Properties
