import SyncWizard.Common.SenderLoop
import SyncWizard.Server.SendQueue

/-! The sender of a session among the other threads, with and without notifications. What is left of
`send_cv_` when one only looks at the queue is that a sleeping sender may wake up at any time. -/

namespace SyncWizard.Server
open Foundation Common

section Showing
variable {ι : Type}

def nextPushed : List Instruction → Option Packet
  | .pushes p :: _ => some p
  | _ => none

/-- A sender that has decided to sleep has, as far as the queue is concerned, let the mutex go. -/
def shownPlace (q : SenderState ι) : Place :=
  match q.place with
  | .entry => .entry
  | .test | .notifying => .test
  | .locking => .locking
  | .waiting => .waiting
  | .deciding | .asleep | .roused => .asleep
  | .awake => .woken
  | .sending => .sending
  | .returned => .returned
  | .raised => .raised (q.senderBuffer.headD .init)

def shownHolder (q : SenderState ι) : Option (Holder ι) :=
  match q.sendMtx with
  | none => none
  | some .sender => if q.place = .deciding then none else some .sender
  | some (.thread i) => (nextPushed (q.rest i)).map (.producer i)

def queueOf (q : SenderState ι) : SendQueue ι :=
  ⟨q.senderBuffer, q.runningSender, shownHolder q, shownPlace q⟩

def shownActions (e : SenderEvent ι) (q : SenderState ι) : List (SendAction ι) :=
  match e with
  | .begins _ _ | .breaks _ | .wakes => []
  | .acts i =>
    match q.rest i with
    | .locks :: more => (nextPushed more).toList.map (.locks i)
    | .pushes p :: _ => [.pushes i p]
    | .clears :: _ => [.clears]
    | _ => []
  | .turns => if q.place = .deciding ∨ q.place = .notifying then [] else [.turns]
  | .sends => [.sends (q.senderBuffer.headD .init)]
  | .fails => [.fails (q.senderBuffer.headD .init)]

inductive Paired : List Instruction → Prop where
  | nil : Paired []
  | push {more : List Instruction} (p : Packet) (h : Paired more) : Paired (.locks :: .pushes p :: more)
  | notifies {more : List Instruction} (h : Paired more) : Paired (.notifies :: more)
  | clears {more : List Instruction} (h : Paired more) : Paired (.clears :: more)
  | joins {more : List Instruction} (h : Paired more) : Paired (.joins :: more)

structure Orderly (q : SenderState ι) : Prop where
  owned : q.sendMtx = some .sender ↔
    q.place = .waiting ∨ q.place = .deciding ∨ q.place = .awake ∨ q.place = .sending
  pushing : ∀ i, q.sendMtx = some (.thread i) ↔ (nextPushed (q.rest i)).isSome = true
  paired : ∀ i, Paired (q.rest i) ∨ ∃ p more, q.rest i = .pushes p :: more ∧ Paired more
  front : q.place = .sending ∨ q.place = .raised → q.senderBuffer ≠ []

theorem fresh_orderly : Orderly (SenderState.fresh : SenderState ι) where
  owned := by simp [SenderState.fresh]
  pushing i := by simp [SenderState.fresh, nextPushed]
  paired i := .inl .nil
  front := by simp [SenderState.fresh]

theorem queueOf_fresh : queueOf (SenderState.fresh : SenderState ι) = SendQueue.fresh := rfl

theorem Paired.nextPushed {code : List Instruction} (h : Paired code) : nextPushed code = none := by
  cases h <;> rfl

theorem session_paired {o : Operation} (ho : o.within .session = true) : Paired o.code := by
  cases o with
  | produces p => exact .push p (.notifies .nil)
  | lists p => exact .push p .nil
  | sessionStopSender => exact .clears (.joins .nil)
  | clientRequestedLogout => exact .clears .nil
  | disconnect reason =>
    rcases eq_or_ne reason [] with rfl | hne
    · rw [Operation.code, disconnectCode_nil]
      exact .push _ (.notifies (.clears (.notifies .nil)))
    · rw [Operation.code, disconnectCode_reason hne]
      exact .nil
  | stopSender | exitCommand | serverExitCommand => cases ho

end Showing

/-! ## One event -/

section Events
variable {ι : Type} [DecidableEq ι] {e : SenderEvent ι} {i : ι} {q q' : SenderState ι}

omit [DecidableEq ι] in
theorem shownPlace_congr (hp : q'.place = q.place)
    (hb : q.place = .raised → q'.senderBuffer.headD .init = q.senderBuffer.headD .init) :
    shownPlace q' = shownPlace q := by
  unfold shownPlace
  rw [hp]
  cases hplace : q.place with
  | raised => rw [hb hplace]
  | _ => rfl

omit [DecidableEq ι] in
theorem queueOf_congr (hb : q'.senderBuffer = q.senderBuffer) (hf : q'.runningSender = q.runningSender)
    (hm : q'.sendMtx = q.sendMtx) (hp : q'.place = q.place)
    (hr : ∀ i, nextPushed (q'.rest i) = nextPushed (q.rest i)) : queueOf q' = queueOf q := by
  have hholder : shownHolder q' = shownHolder q := by
    unfold shownHolder
    rw [hm, hp]
    split
    · rfl
    · rfl
    · rw [hr]
  have hplace : shownPlace q' = shownPlace q := shownPlace_congr hp fun _ => by rw [hb]
  rw [queueOf, queueOf, hb, hf, hholder, hplace]

omit [DecidableEq ι] in
theorem Orderly.of_same (ho : Orderly q) (hb : q'.senderBuffer = q.senderBuffer)
    (hm : q'.sendMtx = q.sendMtx) (hp : q'.place = q.place)
    (hr : ∀ i, nextPushed (q'.rest i) = nextPushed (q.rest i))
    (hpaired : ∀ i, Paired (q'.rest i) ∨ ∃ p more, q'.rest i = .pushes p :: more ∧ Paired more) :
    Orderly q' where
  owned := by rw [hm, hp, ho.owned]
  pushing i := by rw [hm, hr, ho.pushing]
  paired := hpaired
  front := by rw [hp, hb]; exact ho.front

structure Shown (e : SenderEvent ι) (q q' : SenderState ι) : Prop where
  run : runSteps sendStep (shownActions e q) (queueOf q) = some (queueOf q')
  orderly : Orderly q'

theorem turns_shown (ho : Orderly q) (ht : LoopTurn q q') : Shown .turns q q' := by
  obtain ⟨buffer, running, mtx, place, rest⟩ := q
  obtain ⟨howned, hpushing, hpaired, hfront⟩ := ho
  dsimp only at howned hpushing hpaired hfront
  cases ht with
  | enters hp =>
    dsimp only at hp
    subst hp
    refine ⟨?_, by simpa using howned, by simpa using hpushing, hpaired, by simp⟩
    rcases mtx with - | - | i <;> rfl
  | goesOn hp hr | leaves hp hr =>
    dsimp only at hp hr
    subst hp hr
    refine ⟨?_, by simpa using howned, by simpa using hpushing, hpaired, by simp⟩
    rcases mtx with - | - | i <;> rfl
  | notifies hp =>
    dsimp only at hp
    subst hp
    refine ⟨?_, by simpa using howned, by simpa using hpushing, hpaired, by simp⟩
    rcases mtx with - | - | i <;> rfl
  | locks hp hm =>
    dsimp only at hp hm
    subst hm
    refine ⟨?_, by simp, by simpa using hpushing, hpaired, by simp⟩
    rcases hp with rfl | rfl <;> rfl
  | finds hp hw =>
    dsimp only at hp hw
    subst hp
    obtain rfl := howned.mpr (.inl rfl)
    refine ⟨?_, by simp, hpushing, hpaired, by simp⟩
    rcases hw with hw | rfl
    · obtain ⟨p, buffer, rfl⟩ := List.exists_cons_of_ne_nil hw
      rfl
    · cases buffer <;> rfl
  | decides hp hq hr =>
    dsimp only at hp hq hr
    subst hp hq hr
    obtain rfl := howned.mpr (.inl rfl)
    exact ⟨rfl, by simp, hpushing, hpaired, by simp⟩
  | sleeps hp =>
    dsimp only at hp
    subst hp
    obtain rfl := howned.mpr (.inr (.inl rfl))
    exact ⟨rfl, by simp, by simpa using hpushing, hpaired, by simp⟩
  | stops hp hr =>
    dsimp only at hp hr
    subst hp hr
    obtain rfl := howned.mpr (.inr (.inr (.inl rfl)))
    exact ⟨rfl, by simp, by simpa using hpushing, hpaired, by simp⟩
  | rests hp hq hr =>
    dsimp only at hp hq hr
    subst hp hq hr
    obtain rfl := howned.mpr (.inr (.inr (.inl rfl)))
    exact ⟨rfl, by simp, by simpa using hpushing, hpaired, by simp⟩
  | starts hp hq hr =>
    dsimp only at hp hq hr
    subst hp hr
    obtain rfl := howned.mpr (.inr (.inr (.inl rfl)))
    obtain ⟨p, buffer, rfl⟩ := List.exists_cons_of_ne_nil hq
    exact ⟨rfl, by simp, hpushing, hpaired, by simp⟩

theorem paired_tail {a : Instruction} {more : List Instruction}
    (h : Paired (a :: more) ∨ ∃ p rest, a :: more = .pushes p :: rest ∧ Paired rest) :
    (a = .locks ∧ ∃ p rest, more = .pushes p :: rest ∧ Paired rest) ∨
      (a ≠ .locks ∧ Paired more ∧ (a = .notifies ∨ a = .clears ∨ a = .joins ∨ ∃ p, a = .pushes p)) := by
  rcases h with h | ⟨p, rest, he, h⟩
  · cases h with
    | push p h => exact .inl ⟨rfl, p, _, rfl, h⟩
    | notifies h | clears h | joins h => exact .inr ⟨by simp, h, by simp⟩
  · obtain ⟨rfl, rfl⟩ := List.cons.inj he
    exact .inr ⟨by simp, h, by simp⟩

theorem nextPushed_update {rest : ι → List Instruction} {a : Instruction} {more : List Instruction}
    (hr : rest i = a :: more) (ha : ∀ p, a ≠ .pushes p) (hm : Paired more) (j : ι) :
    nextPushed (Function.update rest i more j) = nextPushed (rest j) := by
  by_cases hj : j = i
  · subst hj
    rw [Function.update_self, hm.nextPushed, hr]
    cases a with
    | pushes p => exact absurd rfl (ha p)
    | _ => rfl
  · rw [Function.update_of_ne hj]

theorem paired_update {rest : ι → List Instruction} {more : List Instruction}
    (hp : ∀ i, Paired (rest i) ∨ ∃ p more, rest i = .pushes p :: more ∧ Paired more)
    (hm : Paired more ∨ ∃ p tail, more = .pushes p :: tail ∧ Paired tail) (j : ι) :
    Paired (Function.update rest i more j) ∨
      ∃ p tail, Function.update rest i more j = .pushes p :: tail ∧ Paired tail := by
  by_cases hj : j = i
  · subst hj
    rw [Function.update_self]
    exact hm
  · rw [Function.update_of_ne hj]
    exact hp j

omit [DecidableEq ι] in
theorem roused_shown (hp : q.place = .asleep) (ho : Orderly q) :
    queueOf { q with place := .roused } = queueOf q ∧ Orderly { q with place := .roused } := by
  have hplace : shownPlace q = .asleep := by
    rw [shownPlace, hp]
  have hholder : shownHolder { q with place := .roused } = shownHolder q := by
    unfold shownHolder
    rw [hp]
    rfl
  have howned := ho.owned
  rw [hp] at howned
  refine ⟨?_, by simpa using howned, ho.pushing, ho.paired, by simp⟩
  rw [queueOf, queueOf, hholder, hplace]
  rfl

theorem locks_shown (ho : Orderly q) {p : Packet} {tail : List Instruction}
    (hrest : q.rest i = .locks :: .pushes p :: tail) (htail : Paired tail)
    (hs : (q.setRest i (.pushes p :: tail)).perform i .locks = some q') : Shown (.acts i) q q' := by
  obtain ⟨hfree, he⟩ := Option.ite_none_right_eq_some.mp hs
  have hm : q.sendMtx = none := Option.isNone_iff_eq_none.mp hfree
  cases he
  have hholder : shownHolder q = none := by rw [shownHolder, hm]
  refine ⟨?_, ?_, fun j => ?_, paired_update ho.paired (.inr ⟨p, tail, rfl, htail⟩), ho.front⟩
  · have hactions : shownActions (.acts i) q = [.locks i p] := by
      simp only [shownActions, hrest]
      rfl
    have hlocked : shownHolder { q.setRest i (.pushes p :: tail) with sendMtx := some (.thread i) } =
        some (.producer i p) := by
      change (nextPushed (Function.update q.rest i (.pushes p :: tail) i)).map _ = _
      rw [Function.update_self]
      rfl
    rw [hactions, queueOf, queueOf, hlocked, hholder]
    rfl
  · have howned := ho.owned
    rw [hm] at howned
    simpa using howned
  · have hpushing := ho.pushing j
    rw [hm] at hpushing
    change some (Owner.thread i) = some (Owner.thread j) ↔
      (nextPushed (Function.update q.rest i (.pushes p :: tail) j)).isSome = true
    by_cases hj : j = i
    · subst hj
      rw [Function.update_self]
      exact iff_of_true rfl rfl
    · rw [Function.update_of_ne hj, ← hpushing]
      simpa using Ne.symm hj

theorem pushes_shown (ho : Orderly q) {p : Packet} {more : List Instruction}
    (hrest : q.rest i = .pushes p :: more) (hmore : Paired more)
    (hs : (q.setRest i more).perform i (.pushes p) = some q') : Shown (.acts i) q q' := by
  have hm : q.sendMtx = some (.thread i) := by
    rw [ho.pushing, hrest]
    rfl
  obtain ⟨hb, hf, hm', hp, hr⟩ : q'.senderBuffer = q.senderBuffer ++ [p] ∧
      q'.runningSender = q.runningSender ∧ q'.sendMtx = none ∧ q'.place = q.place ∧
      q'.rest = Function.update q.rest i more := by
    cases hs
    exact ⟨rfl, rfl, rfl, rfl, rfl⟩
  refine ⟨?_, ?_, fun j => ?_, ?_, fun _ => ?_⟩
  · have hactions : shownActions (.acts i) q = [.pushes i p] := by
      simp only [shownActions, hrest]
    have hholder : shownHolder q = some (.producer i p) := by
      rw [shownHolder, hm]
      change (nextPushed (q.rest i)).map _ = _
      rw [hrest]
      rfl
    have hholder' : shownHolder q' = none := by rw [shownHolder, hm']
    have hplace : shownPlace q' = shownPlace q := by
      refine shownPlace_congr hp fun hraised => ?_
      obtain ⟨first, buffer, hfirst⟩ := List.exists_cons_of_ne_nil (ho.front (.inr hraised))
      rw [hb, hfirst]
      rfl
    rw [hactions, queueOf, queueOf, hplace, hholder, hholder', hb, hf]
    exact runSteps_cons (if_pos rfl)
  · have howned := ho.owned
    rw [hm] at howned
    rw [hm', hp]
    simpa using howned
  · have hpushing := ho.pushing j
    rw [hm] at hpushing
    rw [hm', hr]
    by_cases hj : j = i
    · subst hj
      rw [Function.update_self, hmore.nextPushed]
      simp
    · rw [Function.update_of_ne hj, ← hpushing]
      simpa using Ne.symm hj
  · rw [hr]
    exact paired_update ho.paired (.inl hmore)
  · rw [hb]
    simp

theorem others_shown (ho : Orderly q) {a : Instruction} {more : List Instruction}
    (hrest : q.rest i = a :: more) (hmore : Paired more) (ha : a = .notifies ∨ a = .clears ∨ a = .joins)
    (hs : (q.setRest i more).perform i a = some q') : Shown (.acts i) q q' := by
  have hnext : ∀ j, nextPushed (Function.update q.rest i more j) = nextPushed (q.rest j) :=
    nextPushed_update hrest (by rcases ha with rfl | rfl | rfl <;> simp) hmore
  have hpaired := paired_update ho.paired (i := i) (.inl hmore)
  have hshown : queueOf (q.setRest i more) = queueOf q := queueOf_congr rfl rfl rfl rfl hnext
  have horderly : Orderly (q.setRest i more) := ho.of_same rfl rfl rfl hnext hpaired
  rcases ha with rfl | rfl | rfl
  · have hactions : shownActions (.acts i) q = [] := by
      simp only [shownActions, hrest]
    by_cases hp : q.place = .asleep
    · obtain rfl : q' = { q.setRest i more with place := .roused } := by
        have hplace : (if (q.setRest i more).place = .asleep then LoopPlace.roused
            else (q.setRest i more).place) = .roused := if_pos hp
        rw [SenderState.perform, hplace] at hs
        exact (Option.some.inj hs).symm
      obtain ⟨hqueue, hroused⟩ := roused_shown (q := q.setRest i more) hp horderly
      refine ⟨?_, hroused⟩
      rw [hactions, hqueue, hshown]
      rfl
    · obtain rfl : q' = q.setRest i more := by
        have hplace : (if (q.setRest i more).place = .asleep then LoopPlace.roused
            else (q.setRest i more).place) = (q.setRest i more).place := if_neg hp
        rw [SenderState.perform, hplace] at hs
        exact (Option.some.inj hs).symm
      refine ⟨?_, horderly⟩
      rw [hactions, hshown]
      rfl
  · have hactions : shownActions (.acts i) q = [.clears] := by
      simp only [shownActions, hrest]
    cases hs
    refine ⟨?_, ho.of_same rfl rfl rfl hnext hpaired⟩
    rw [hactions, ← hshown]
    rfl
  · have hactions : shownActions (.acts i) q = [] := by
      simp only [shownActions, hrest]
    obtain ⟨-, he⟩ := Option.ite_none_right_eq_some.mp hs
    cases he
    refine ⟨?_, horderly⟩
    rw [hactions, hshown]
    rfl

theorem acts_shown (ho : Orderly q) (hs : loopStep .session (.acts i) q = some q') :
    Shown (.acts i) q q' := by
  obtain ⟨a, more, hrest, hperform⟩ := act_inv hs
  have hnow := ho.paired i
  rw [hrest] at hnow
  rcases paired_tail hnow with ⟨rfl, p, tail, rfl, htail⟩ | ⟨-, hmore, ha⟩
  · exact locks_shown ho hrest htail hperform
  rcases ha with rfl | rfl | rfl | ⟨p, rfl⟩
  · exact others_shown ho hrest hmore (.inl rfl) hperform
  · exact others_shown ho hrest hmore (.inr (.inl rfl)) hperform
  · exact others_shown ho hrest hmore (.inr (.inr rfl)) hperform
  · exact pushes_shown ho hrest hmore hperform

theorem loopStep_shown (ho : Orderly q) (hs : loopStep .session e q = some q') : Shown e q q' := by
  cases e with
  | acts i => exact acts_shown ho hs
  | turns => exact turns_shown ho (turn_inv hs)
  | begins i o =>
    obtain ⟨hrest, hsession, rfl⟩ := loop_begins_inv hs
    have hcode := session_paired hsession
    have hnext : ∀ j, nextPushed (Function.update q.rest i o.code j) = nextPushed (q.rest j) := by
      intro j
      by_cases hj : j = i
      · subst hj
        rw [Function.update_self, hcode.nextPushed, hrest]
        rfl
      · rw [Function.update_of_ne hj]
    have hshown : queueOf (q.setRest i o.code) = queueOf q := queueOf_congr rfl rfl rfl rfl hnext
    exact ⟨congrArg some hshown.symm,
      ho.of_same rfl rfl rfl hnext (paired_update ho.paired (.inl hcode))⟩
  | breaks i =>
    obtain ⟨⟨more, hrest⟩, -⟩ := breakOff_inv hs
    rcases ho.paired i with hpaired | ⟨p, tail, hpush, -⟩
    · rcases hrest with hrest | hrest
      · rw [hrest] at hpaired
        cases hpaired
      · rw [hrest] at hpaired
        cases hpaired
    · rcases hrest with hrest | hrest
      · cases hrest.symm.trans hpush
      · cases hrest.symm.trans hpush
  | wakes =>
    obtain ⟨hp, he⟩ := Option.ite_none_right_eq_some.mp hs
    cases he
    obtain ⟨hqueue, hroused⟩ := roused_shown hp ho
    exact ⟨congrArg some hqueue.symm, hroused⟩
  | sends | fails =>
    obtain ⟨hp, he⟩ := Option.ite_none_right_eq_some.mp hs
    obtain ⟨buffer, running, mtx, place, rest⟩ := q
    dsimp only at hp
    subst hp
    obtain ⟨p, buffer, rfl⟩ := List.exists_cons_of_ne_nil (ho.front (.inl rfl))
    obtain rfl := ho.owned.mpr (.inr (.inr (.inr rfl)))
    cases he
    refine ⟨runSteps_cons (if_pos rfl), by simp, ?_, ho.paired, by simp⟩
    have hpushing := ho.pushing
    simpa using hpushing

end Events

/-! ## Runs -/

section Runs
variable {ι : Type} [DecidableEq ι] {es : List (SenderEvent ι)} {q q' : SenderState ι}

def shownAll : List (SenderEvent ι) → SenderState ι → List (SendAction ι)
  | [], _ => []
  | e :: es, q => shownActions e q ++ (loopStep .session e q).elim [] (shownAll es)

/-- With notifications or without, to the queue of a session it is the same. -/
theorem shown_run (ho : Orderly q) (hrun : runSteps (loopStep .session) es q = some q') :
    runSteps sendStep (shownAll es q) (queueOf q) = some (queueOf q') := by
  induction es generalizing q with
  | nil =>
    rw [runSteps_nil] at hrun
    rw [shownAll, runSteps_nil, Option.some.inj hrun]
  | cons e es ih =>
    obtain ⟨t, ht, hrest⟩ := runSteps_cons_inv hrun
    obtain ⟨hstep, ht'⟩ := loopStep_shown ho ht
    rw [shownAll, ht, Option.elim_some, runSteps_append _ hstep]
    exact ih ht' hrest

/-- So the packets keep their order with sleeping senders and lost notifications too. -/
theorem loop_fifo (hrun : runSteps (loopStep .session) es SenderState.fresh = some q) :
    (shownAll es SenderState.fresh).filterMap SendAction.sent ++ q.senderBuffer =
      (shownAll es SenderState.fresh).filterMap SendAction.pushed := by
  have hshown := shown_run fresh_orderly hrun
  rw [queueOf_fresh] at hshown
  exact runSteps_fifo hshown

end Runs

end SyncWizard.Server
