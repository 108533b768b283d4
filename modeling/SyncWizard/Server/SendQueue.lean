import SyncWizard.Foundation.Schedules
import SyncWizard.Server.Runs

/-! The queue of a session between its sender thread and the threads that fill it, instruction by
instruction. `send_mtx_` is the only thing the threads wait for; `send_cv_` lets the sender sleep,
and may wake it at any time. -/

namespace SyncWizard.Server
open Foundation Common

inductive Place where
  | entry
  | test
  | locking
  | waiting
  | asleep
  | woken
  | sending
  | returned
  | raised (p : Packet)
  deriving DecidableEq

def Place.holdsLock : Place → Bool
  | .waiting | .woken | .sending => true
  | _ => false

inductive Holder (ι : Type) where
  | sender
  | producer (i : ι) (p : Packet)
  deriving DecidableEq

structure SendQueue (ι : Type) where
  senderBuffer : List Packet
  runningSender : Bool
  sendMtx : Option (Holder ι)
  place : Place

inductive SendAction (ι : Type) where
  | locks (i : ι) (p : Packet)
  | pushes (i : ι) (p : Packet)
  | clears
  | turns
  | sends (p : Packet)
  | fails (p : Packet)
  deriving DecidableEq

namespace SendAction
variable {ι : Type}

def locked : SendAction ι → Option Packet
  | .locks _ p => some p
  | _ => none

def pushed : SendAction ι → Option Packet
  | .pushes _ p => some p
  | _ => none

def sent : SendAction ι → Option Packet
  | .sends p => some p
  | _ => none

end SendAction

section Queue
variable {ι : Type}

def SendQueue.fresh : SendQueue ι := ⟨[], true, none, .entry⟩

def SendQueue.turn (q : SendQueue ι) : Option (SendQueue ι) :=
  match q.place with
  | .entry => some { q with runningSender := true, place := .test }
  | .test => some { q with place := if q.runningSender then .locking else .returned }
  -- a thread that is woken has to lock the mutex again
  | .locking | .asleep =>
    if q.sendMtx.isNone then some { q with sendMtx := some .sender, place := .waiting } else none
  -- the predicate of `send_cv_.wait`
  | .waiting =>
    if !q.senderBuffer.isEmpty || !q.runningSender then some { q with place := .woken }
    else some { q with sendMtx := none, place := .asleep }
  | .woken =>
    if q.runningSender = false then some { q with sendMtx := none, place := .returned }
    else if q.senderBuffer.isEmpty then some { q with sendMtx := none, place := .test }
    else some { q with place := .sending }
  | .sending | .returned | .raised _ => none

def SendQueue.outgoing (q : SendQueue ι) : Option Packet :=
  if q.place = .sending then q.senderBuffer.head? else none

def SendQueue.pending (q : SendQueue ι) : List Packet :=
  match q.sendMtx with
  | some (.producer _ p) => [p]
  | _ => []

variable [DecidableEq ι]

def sendStep : SendAction ι → SendQueue ι → Option (SendQueue ι)
  | .locks i p, q => if q.sendMtx.isNone then some { q with sendMtx := some (.producer i p) } else none
  | .pushes i p, q =>
    if q.sendMtx = some (.producer i p) then
      some { q with senderBuffer := q.senderBuffer ++ [p], sendMtx := none }
    else none
  | .clears, q => some { q with runningSender := false }
  | .turns, q => q.turn
  -- the front is erased before the mutex is free again, so no other thread sees it sent and queued
  | .sends p, q =>
    if q.outgoing = some p then
      some { q with senderBuffer := q.senderBuffer.tail, sendMtx := none, place := .test }
    else none
  -- the exception unlocks the mutex, passes the erase and leaves the thread
  | .fails p, q =>
    if q.outgoing = some p then some { q with sendMtx := none, place := .raised p } else none

end Queue

/-! ## What one action does -/

inductive Turned {ι : Type} (q : SendQueue ι) : SendQueue ι → Prop where
  | enters (hp : q.place = .entry) : Turned q { q with runningSender := true, place := .test }
  | goesOn (hp : q.place = .test) (hr : q.runningSender = true) : Turned q { q with place := .locking }
  | leaves (hp : q.place = .test) (hr : q.runningSender = false) :
      Turned q { q with place := .returned }
  | locks (hp : q.place = .locking ∨ q.place = .asleep) (hm : q.sendMtx = none) :
    Turned q { q with sendMtx := some .sender, place := .waiting }
  | wakes (hp : q.place = .waiting) : Turned q { q with place := .woken }
  | sleeps (hp : q.place = .waiting) (hq : q.senderBuffer = []) (hr : q.runningSender = true) :
    Turned q { q with sendMtx := none, place := .asleep }
  | stops (hp : q.place = .woken) (hr : q.runningSender = false) :
    Turned q { q with sendMtx := none, place := .returned }
  | rests (hp : q.place = .woken) (hq : q.senderBuffer = []) (hr : q.runningSender = true) :
    Turned q { q with sendMtx := none, place := .test }
  | begins (hp : q.place = .woken) (hq : q.senderBuffer ≠ []) (hr : q.runningSender = true) :
    Turned q { q with place := .sending }

section Actions
variable {ι : Type} {q q' : SendQueue ι} {i : ι} {p : Packet}

theorem outgoing_eq (h : q.outgoing = some p) :
    q.place = .sending ∧ q.senderBuffer = p :: q.senderBuffer.tail := by
  unfold SendQueue.outgoing at h
  split_ifs at h with hp
  exact ⟨hp, List.eq_cons_of_mem_head? h⟩

theorem turn_turned (h : q.turn = some q') : Turned q q' := by
  unfold SendQueue.turn at h
  split at h
  case h_1 hp =>
    cases h
    exact .enters hp
  case h_2 hp =>
    cases h
    by_cases hr : q.runningSender = true
    · rw [if_pos hr]
      exact .goesOn hp hr
    · rw [if_neg hr]
      exact .leaves hp (Bool.eq_false_iff.mpr hr)
  case h_3 hp =>
    split_ifs at h with hm
    cases h
    exact .locks (.inl hp) (Option.isNone_iff_eq_none.mp hm)
  case h_4 hp =>
    split_ifs at h with hm
    cases h
    exact .locks (.inr hp) (Option.isNone_iff_eq_none.mp hm)
  case h_5 hp =>
    split_ifs at h with hw
    · cases h
      exact .wakes hp
    · cases h
      rw [Bool.or_eq_true, not_or, Bool.not_eq_true', Bool.not_eq_false,
        Bool.not_eq_true', Bool.not_eq_false] at hw
      exact .sleeps hp (List.isEmpty_iff.mp hw.1) hw.2
  case h_6 hp =>
    split_ifs at h with hr hq
    · cases h
      exact .stops hp hr
    · cases h
      exact .rests hp (List.isEmpty_iff.mp hq) (Bool.not_eq_false _ ▸ hr)
    · cases h
      exact .begins hp (mt List.isEmpty_iff.mpr hq) (Bool.not_eq_false _ ▸ hr)
  all_goals cases h

def SendQueue.Owned (q : SendQueue ι) : Prop := q.sendMtx = some .sender ↔ q.place.holdsLock = true

theorem fresh_owned : (SendQueue.fresh : SendQueue ι).Owned := by
  constructor
  · intro h
    cases h
  · intro h
    cases h

theorem turned_kept (ht : Turned q q') (ho : q.Owned) :
    q'.senderBuffer = q.senderBuffer ∧ q'.pending = q.pending ∧ q'.Owned ∧
      ∀ p, q.place ≠ .raised p := by
  have hfree : q.place.holdsLock = true → q.pending = [] := by
    intro hh
    rw [SendQueue.pending, ho.mpr hh]
  -- the mutex stays as it is, is taken, or is given back
  cases ht with
  | enters hp | goesOn hp | leaves hp | wakes hp | begins hp =>
    rw [SendQueue.Owned, hp] at ho
    rw [hp]
    exact ⟨rfl, rfl, ho, by simp⟩
  | locks hp hm =>
    refine ⟨rfl, ?_, by simp [SendQueue.Owned, Place.holdsLock], ?_⟩
    · rw [SendQueue.pending, SendQueue.pending, hm]
    · intro p he
      rw [he] at hp
      simp at hp
  | sleeps hp | stops hp | rests hp =>
    rw [hp] at hfree ⊢
    exact ⟨rfl, (hfree rfl).symm, by simp [SendQueue.Owned, Place.holdsLock], by simp⟩

theorem filterMap_concat (f : SendAction ι → Option Packet) (es : List (SendAction ι))
    (e : SendAction ι) : (es ++ [e]).filterMap f = es.filterMap f ++ (f e).toList := by
  rw [List.filterMap_append]
  cases hf : f e <;> simp [hf]

variable [DecidableEq ι]

theorem locks_inv (h : sendStep (.locks i p) q = some q') :
    q.sendMtx = none ∧ q' = { q with sendMtx := some (.producer i p) } := by
  obtain ⟨hm, h⟩ := Option.ite_none_right_eq_some.mp h
  exact ⟨Option.isNone_iff_eq_none.mp hm, (Option.some.inj h).symm⟩

theorem pushes_inv (h : sendStep (.pushes i p) q = some q') :
    q.sendMtx = some (.producer i p) ∧
      q' = { q with senderBuffer := q.senderBuffer ++ [p], sendMtx := none } := by
  obtain ⟨hm, h⟩ := Option.ite_none_right_eq_some.mp h
  exact ⟨hm, (Option.some.inj h).symm⟩

theorem sends_inv (h : sendStep (.sends p) q = some q') :
    q.outgoing = some p ∧
      q' = { q with senderBuffer := q.senderBuffer.tail, sendMtx := none, place := .test } := by
  obtain ⟨ho, h⟩ := Option.ite_none_right_eq_some.mp h
  exact ⟨ho, (Option.some.inj h).symm⟩

theorem fails_inv (h : sendStep (.fails p) q = some q') :
    q.outgoing = some p ∧ q' = { q with sendMtx := none, place := .raised p } := by
  obtain ⟨ho, h⟩ := Option.ite_none_right_eq_some.mp h
  exact ⟨ho, (Option.some.inj h).symm⟩

theorem sendStep_fifo {e : SendAction ι} (h : sendStep e q = some q') :
    e.sent.toList ++ q'.senderBuffer = q.senderBuffer ++ e.pushed.toList := by
  cases e with
  | locks i p =>
    obtain ⟨-, rfl⟩ := locks_inv h
    exact (List.append_nil _).symm
  | pushes i p =>
    obtain ⟨-, rfl⟩ := pushes_inv h
    rfl
  | clears =>
    cases h
    exact (List.append_nil _).symm
  | turns =>
    rw [show q'.senderBuffer = q.senderBuffer by cases turn_turned h <;> rfl]
    exact (List.append_nil _).symm
  | sends p =>
    obtain ⟨ho, rfl⟩ := sends_inv h
    exact (outgoing_eq ho).2.symm.trans (List.append_nil _).symm
  | fails p =>
    obtain ⟨-, rfl⟩ := fails_inv h
    exact (List.append_nil _).symm

theorem runSteps_fifo {es : List (SendAction ι)} (hrun : runSteps sendStep es q = some q') :
    es.filterMap SendAction.sent ++ q'.senderBuffer = q.senderBuffer ++
      es.filterMap SendAction.pushed := by
  refine runSteps_invariant (I := fun es q' => es.filterMap SendAction.sent ++ q'.senderBuffer =
    q.senderBuffer ++ es.filterMap SendAction.pushed) (List.append_nil _).symm
      (fun es e q₁ q₂ hi hs => ?_) hrun
  rw [filterMap_concat, filterMap_concat, List.append_assoc, sendStep_fifo hs, ← List.append_assoc,
    hi, List.append_assoc]

theorem sendStep_pending {e : SendAction ι} (ho : q.Owned) (h : sendStep e q = some q') :
    e.pushed.toList ++ q'.pending = q.pending ++ e.locked.toList := by
  have hsending {p : Packet} (hout : q.outgoing = some p) : q.pending = [] := by
    rw [SendQueue.Owned, (outgoing_eq hout).1] at ho
    rw [SendQueue.pending, ho.mpr rfl]
  cases e with
  | locks i p =>
    obtain ⟨hm, rfl⟩ := locks_inv h
    rw [SendQueue.pending, SendQueue.pending, hm]
    rfl
  | pushes i p =>
    obtain ⟨hm, rfl⟩ := pushes_inv h
    rw [SendQueue.pending, SendQueue.pending, hm]
    rfl
  | clears =>
    cases h
    exact (List.append_nil _).symm
  | turns => exact (turned_kept (turn_turned h) ho).2.1.trans (List.append_nil _).symm
  | sends p =>
    obtain ⟨hout, rfl⟩ := sends_inv h
    rw [hsending hout]
    rfl
  | fails p =>
    obtain ⟨hout, rfl⟩ := fails_inv h
    rw [hsending hout]
    rfl

theorem sendStep_owned {e : SendAction ι} (ho : q.Owned) (h : sendStep e q = some q') : q'.Owned := by
  cases e with
  | locks i p =>
    obtain ⟨hm, rfl⟩ := locks_inv h
    rw [SendQueue.Owned, hm] at ho
    simpa [SendQueue.Owned] using ho
  | pushes i p =>
    obtain ⟨hm, rfl⟩ := pushes_inv h
    rw [SendQueue.Owned, hm] at ho
    simpa [SendQueue.Owned] using ho
  | clears =>
    cases h
    exact ho
  | turns => exact (turned_kept (turn_turned h) ho).2.2.1
  | sends p =>
    obtain ⟨-, rfl⟩ := sends_inv h
    simp [SendQueue.Owned, Place.holdsLock]
  | fails p =>
    obtain ⟨-, rfl⟩ := fails_inv h
    simp [SendQueue.Owned, Place.holdsLock]

theorem sendStep_raised {e : SendAction ι} (ho : q.Owned) (h : sendStep e q = some q')
    (hp : q.place = .raised p) : q'.place = .raised p ∧
      ∀ rest, q.senderBuffer = p :: rest → ∃ rest', q'.senderBuffer = p :: rest' := by
  have hsending {r : Packet} (hout : q.outgoing = some r) : False := by
    have hplace := (outgoing_eq hout).1
    rw [hp] at hplace
    cases hplace
  cases e with
  | locks i r =>
    obtain ⟨-, rfl⟩ := locks_inv h
    exact ⟨hp, fun rest hrest => ⟨rest, hrest⟩⟩
  | pushes i r =>
    obtain ⟨-, rfl⟩ := pushes_inv h
    exact ⟨hp, fun rest hrest => ⟨rest ++ [r], by rw [hrest, List.cons_append]⟩⟩
  | clears =>
    cases h
    exact ⟨hp, fun rest hrest => ⟨rest, hrest⟩⟩
  | turns => exact absurd hp ((turned_kept (turn_turned h) ho).2.2.2 p)
  | sends r => exact (hsending (sends_inv h).1).elim
  | fails r => exact (hsending (fails_inv h).1).elim

end Actions

/-! ## The queues of the server's sessions -/

section Sessions
variable {ι : Type}

def queueState (w : ServerState) (s : SessionId) : SendQueue ι :=
  ⟨(w.session s).senderBuffer, (w.session s).runningSender, none, .test⟩

def pushAll (i : ι) (packets : List Packet) : List (SendAction ι) :=
  packets.flatMap fun p => [.locks i p, .pushes i p]

variable [DecidableEq ι] (i : ι)

theorem pushAll_run (packets queue : List Packet) (running : Bool) (place : Place) :
    runSteps sendStep (pushAll i packets) ⟨queue, running, none, place⟩ =
      some ⟨queue ++ packets, running, none, place⟩ := by
  induction packets generalizing queue with
  | nil => simp [pushAll]
  | cons p packets ih =>
    have hlock : sendStep (.locks i p) ⟨queue, running, none, place⟩ =
        some ⟨queue, running, some (.producer i p), place⟩ := rfl
    have hpush : sendStep (.pushes i p) ⟨queue, running, some (.producer i p), place⟩ =
        some ⟨queue ++ [p], running, none, place⟩ := if_pos rfl
    have hrest := ih (queue ++ [p])
    rw [List.append_assoc, List.singleton_append] at hrest
    rw [pushAll, List.flatMap_cons, ← pushAll]
    exact (runSteps_cons hlock).trans ((runSteps_cons hpush).trans hrest)

def Produces (s : SessionId) (w w' : ServerState) : Prop :=
  ∃ packets, (w'.session s).senderBuffer = (w.session s).senderBuffer ++ packets ∧
    ((w'.session s).runningSender = (w.session s).runningSender ∨ (w'.session s).runningSender = false)

theorem produces_run {s : SessionId} {w w' : ServerState} (hp : Produces s w w') :
    ∃ packets stops, (∀ e ∈ stops, e = SendAction.clears) ∧
      runSteps sendStep (pushAll i packets ++ stops) (queueState w s) = some (queueState w' s) := by
  obtain ⟨packets, hqueue, hflag⟩ := hp
  have hrun := pushAll_run i packets (w.session s).senderBuffer (w.session s).runningSender .test
  rcases hflag with hflag | hflag
  · refine ⟨packets, [], by simp, ?_⟩
    rw [List.append_nil, queueState, hrun, queueState, hqueue, hflag]
  · refine ⟨packets, [.clears], by simp, ?_⟩
    rw [queueState, runSteps_append _ hrun, queueState, hqueue, hflag]
    rfl

variable (s : SessionId)

instance : Std.Refl (Produces s) := ⟨fun _ => ⟨[], (List.append_nil _).symm, .inl rfl⟩⟩

instance : IsTrans ServerState (Produces s) := ⟨by
  rintro w₁ w₂ w₃ ⟨new₁, hq₁, hr₁⟩ ⟨new₂, hq₂, hr₂⟩
  refine ⟨new₁ ++ new₂, by rw [hq₂, hq₁, List.append_assoc], ?_⟩
  rcases hr₂ with hr₂ | hr₂
  · rw [hr₂]
    exact hr₁
  · exact .inr hr₂⟩

theorem setSession_produces (w : ServerState) (t : SessionId) {c : ClientSession} {new : List Packet}
    (hq : c.senderBuffer = (w.session t).senderBuffer ++ new)
    (hr : c.runningSender = (w.session t).runningSender ∨ c.runningSender = false) :
    Produces s w (w.setSession t c) := by
  by_cases ht : s = t
  · subst ht
    have hsame : (w.setSession s c).session s = c := Function.update_self ..
    rw [Produces, hsame]
    exact ⟨new, hq, hr⟩
  · have hother : (w.setSession t c).session s = w.session s := Function.update_of_ne ht ..
    rw [Produces, hother]
    exact ⟨[], (List.append_nil _).symm, .inl rfl⟩

theorem produces_admits (t : SessionId) : Admits t (fun _ => True) (fun _ => True) (Produces s) where
  files w _ _ := refl_of (Produces s) w
  push w _ _ := setSession_produces s w t rfl (.inl rfl)
  lock w _ _ := setSession_produces s w t (List.append_nil _).symm (.inl rfl)
  stop w := setSession_produces s w t (List.append_nil _).symm (.inr rfl)

theorem step_produces {e : Event} (hsend : ∀ t, e.activity ≠ .sends t) :
    Kept (Produces s) (step e) := by
  have hreceive : ∀ me, Kept (Produces s) (receiveCallback e.host me) := by
    intro me w
    rw [receiveCallback_state]
    exact refl_of (Produces s) w
  unfold step
  split
  · exact Kept.modify fun w => refl_of (Produces s) w
  · exact sessionReceiverRound_kept (produces_admits s) (fun _ _ _ _ => trivial) hreceive _ _
  · exact absurd ‹_› (hsend _)
  · exact sendPing_kept (produces_admits s _) fun _ _ => trivial
  · exact disconnect_kept (produces_admits s _) (fun _ _ => trivial) _

end Sessions

section Sending
variable {ι : Type} [DecidableEq ι] {h : Host} {fuel : ℕ} {s : SessionId}
  {w w' : ServerState} {p : Packet}
variable {rest : List Packet}

theorem reaches_send (hr : (w.session s).runningSender = true)
    (hq : (w.session s).senderBuffer = p :: rest) :
    runSteps sendStep [.turns, .turns, .turns, .turns] (queueState w s : SendQueue ι) =
      some ⟨p :: rest, true, some .sender, .sending⟩ := by
  rw [queueState, hr, hq]
  rfl

theorem senderRound_sends_action (hr : (w.session s).runningSender = true)
    (hq : (w.session s).senderBuffer = p :: rest) {u : Unit}
    (hrun : senderRound h fuel s w = .ok u w') :
    runSteps sendStep [.turns, .turns, .turns, .turns, .sends p] (queueState w s : SendQueue ι) =
      some (queueState w' s) := by
  have hw : (w'.session s).senderBuffer = rest ∧ (w'.session s).runningSender = true := by
    cases hsend : sendPacket h fuel p (-1) w.net with
    | ok u m =>
      have hround := senderRound_sends hr hq hsend
      rw [hround] at hrun
      cases hrun
      have hself : (({ w with net := m } : ServerState).setSession s
          { w.session s with senderBuffer := rest }).session s =
            { w.session s with senderBuffer := rest } :=
        Function.update_self ..
      rw [hself]
      exact ⟨rfl, hr⟩
    | error e m =>
      have hround := senderRound_error hr hq hsend
      rw [hrun] at hround
      obtain ⟨e', he⟩ := hround
      cases he
  have hsends : sendStep (.sends p) (⟨p :: rest, true, some .sender, .sending⟩ : SendQueue ι) =
      some ⟨rest, true, none, .test⟩ := if_pos rfl
  have hlast := (runSteps_append [.sends p] (reaches_send (ι := ι) hr hq)).trans (runSteps_cons hsends)
  have hend : (queueState w' s : SendQueue ι) = ⟨rest, true, none, .test⟩ := by
    rw [queueState, hw.1, hw.2]
  rw [hend]
  exact hlast

theorem senderRound_fails_action (hr : (w.session s).runningSender = true)
    (hq : (w.session s).senderBuffer = p :: rest) {e : Fault Text Crash}
    (hrun : senderRound h fuel s w = .error e w') :
    runSteps sendStep [.turns, .turns, .turns, .turns, .fails p] (queueState w s : SendQueue ι) =
      some { (queueState w' s : SendQueue ι) with place := .raised p } := by
  have hw : w'.session = w.session := by
    cases hsend : sendPacket h fuel p (-1) w.net with
    | ok u m =>
      rw [senderRound_sends hr hq hsend] at hrun
      cases hrun
    | error e' m =>
      obtain ⟨e'', hround⟩ := senderRound_error hr hq hsend
      rw [hround] at hrun
      cases hrun
      rfl
  have hfails : sendStep (.fails p) (⟨p :: rest, true, some .sender, .sending⟩ : SendQueue ι) =
      some ⟨p :: rest, true, none, .raised p⟩ := if_pos rfl
  have hlast := (runSteps_append [.fails p] (reaches_send (ι := ι) hr hq)).trans (runSteps_cons hfails)
  have hend : (queueState w' s : SendQueue ι) = ⟨p :: rest, true, none, .test⟩ := by
    rw [queueState, hw, hr, hq]
  rw [hend]
  exact hlast

end Sending

end SyncWizard.Server
