import SyncWizard.Server.SendQueue

/-! Whether a session that is disconnected still sends what it owes. `disconnect` clears the flag the
sender tests before it looks at the queue, so that what matters is what is queued at that moment. -/

namespace SyncWizard.Properties
open Foundation Common Server

def disconnectActions (reason : Text) : List (SendAction Unit) :=
  match (Packet.mountWith (fun p => modify fun ps => ps ++ [p]) (txt "exit") reason :
    Exec (List Packet) Unit) [] with
  | .ok _ packets => pushAll () packets ++ [.clears]
  | .error _ packets => pushAll () packets

def ofSender : SendAction Unit → Bool
  | .turns | .sends _ | .fails _ => true
  | _ => false

structure Disconnects (reason : Text) (es : List (SendAction Unit)) : Prop where
  calls : es.filter (fun e => !ofSender e) = disconnectActions reason
  succeeds : ∀ p, .fails p ∉ es

def AtRest (q : SendQueue Unit) : Prop := q.place = .returned ∨ q.place = .asleep ∧ q.senderBuffer = []

/-- All that was queued has been sent, and then the farewell with its reason. -/
def Flushed (queued : List Packet) (reason : Text) (es : List (SendAction Unit)) : Prop :=
  ∃ p, Packet.Reads (txt "exit") p ∧ p.bytes = reason ∧ es.filterMap SendAction.sent = queued ++ [p]

/-- The flag is cleared only when the loop will set it again, nothing is queued, or the one packet that
is queued is on its way. -/
def Timely (e : SendAction Unit) (q : SendQueue Unit) : Prop :=
  e = .clears → q.place = .entry ∨ q.senderBuffer = [] ∨ q.place = .sending ∧ q.senderBuffer.length = 1

def exitPacket : Packet := Packet.ofCommand (txt "exit")

theorem exitPacket_carries : Packet.Carries (txt "exit") exitPacket :=
  Packet.ofCommand_carries (by decide)

theorem disconnectActions_nil :
    disconnectActions [] = [.locks () exitPacket, .pushes () exitPacket, .clears] := by
  rw [disconnectActions, Packet.mountWith_nil (by decide)]
  rfl

theorem disconnectActions_pushed :
    (disconnectActions []).filterMap SendAction.pushed = [exitPacket] := by
  rw [disconnectActions_nil]
  rfl

theorem disconnectActions_reason {reason : Text} (hne : reason ≠ []) :
    disconnectActions reason = [] := by
  obtain ⟨what, hraise⟩ :
      ∃ what, (Packet.mountWith (fun p => modify fun ps => ps ++ [p]) (txt "exit") reason :
      Exec (List Packet) Unit) [] = .error (.raised what) [] := Packet.mountWith_raises hne
  rw [disconnectActions, hraise]
  rfl

theorem disconnect_actions (s : SessionId) (reason : Text) (w : ServerState) :
    runSteps sendStep (disconnectActions reason) (queueState w s) =
      some (queueState (final (disconnect s reason w)) s) := by
  by_cases hr : reason = []
  · subst hr
    have hpush : answerWith s (txt "exit") [] w = .ok () (w.push s exitPacket) :=
      Packet.mountWith_nil (by decide)
    rw [disconnectActions_nil, disconnect, run_bind_ok hpush, run_modify, final_ok]
    have hactions : ([.locks () exitPacket, .pushes () exitPacket, .clears] : List (SendAction Unit)) =
        pushAll () [exitPacket] ++ [.clears] := rfl
    rw [hactions, queueState, runSteps_append _ (pushAll_run () _ _ _ _)]
    simp [queueState, runSteps, sendStep, ServerState.stop, ServerState.push, ServerState.setSession]
  · obtain ⟨what, hraise⟩ : ∃ what, answerWith s (txt "exit") reason w = .error (.raised what) w :=
      Packet.mountWith_raises hr
    rw [disconnectActions_reason hr, disconnect, run_bind_error hraise, final_error]
    rfl

/-! ## What becomes of the queue once the flag is cleared -/

section Draining
variable {q q' : SendQueue Unit} {es : List (SendAction Unit)} {e : SendAction Unit}

def Drains (q : SendQueue Unit) : Prop :=
  q.place = .entry ∨ (q.runningSender = true ∧ q.place ≠ .returned) ∨ q.senderBuffer = [] ∨
    q.place = .sending ∧ q.senderBuffer.length = 1

def Strands (q : SendQueue Unit) : Prop :=
  q.runningSender = false ∧ q.place ≠ .entry ∧ q.senderBuffer ≠ [] ∧
    (q.place = .sending → q.senderBuffer.length ≠ 1)

theorem sender_cases (he : ofSender e = true) (hf : ∀ p, e ≠ .fails p) (hs : sendStep e q = some q') :
    Turned q q' ∨ ∃ p, q.place = .sending ∧ q.senderBuffer = p :: q'.senderBuffer ∧ q'.place = .test ∧
      q'.runningSender = q.runningSender := by
  cases e with
  | turns => exact .inl (turn_turned hs)
  | sends p =>
    obtain ⟨ho, rfl⟩ := sends_inv hs
    obtain ⟨hplace, hfront⟩ := outgoing_eq ho
    exact .inr ⟨p, hplace, hfront, rfl, rfl⟩
  | fails p => exact absurd rfl (hf p)
  | locks i p | pushes i p | clears => cases he

theorem turned_drains (ht : Turned q q') (hd : Drains q) : Drains q' := by
  cases ht with
  | locks hp hm => rcases hp with hp | hp <;> simp_all [Drains]
  | _ => simp_all [Drains]

theorem drains_step (he : ofSender e = true) (hf : ∀ p, e ≠ .fails p) (hd : Drains q)
    (hs : sendStep e q = some q') : Drains q' := by
  rcases sender_cases he hf hs with ht | ⟨p, hplace, hfront, hplace', hrun⟩
  · exact turned_drains ht hd
  · rw [Drains, hplace, hfront] at hd
    rw [Drains, hplace', hrun]
    simpa using hd

theorem turned_strands (ht : Turned q q') (hd : Strands q) : Strands q' := by
  cases ht <;> simp_all [Strands]

theorem strands_step (he : ofSender e = true) (hf : ∀ p, e ≠ .fails p) (hd : Strands q)
    (hs : sendStep e q = some q') : Strands q' := by
  rcases sender_cases he hf hs with ht | ⟨p, hplace, hfront, hplace', hrun⟩
  · exact turned_strands ht hd
  · rw [Strands, hplace, hfront] at hd
    rw [Strands, hplace', hrun]
    simpa using hd

theorem cleared_empties_iff (hes : ∀ e ∈ es, ofSender e = true ∧ ∀ p, e ≠ .fails p)
    (hrun : runSteps sendStep (.clears :: es) q = some q') (hrest : AtRest q') :
    q'.senderBuffer = [] ↔ Timely .clears q := by
  obtain ⟨q₁, hclear, hafter⟩ := runSteps_cons_inv hrun
  cases hclear
  constructor
  · intro hempty
    by_contra htimely
    have hstrands : Strands q' := by
      refine runSteps_preserves
        (fun e he s s' hd hs => strands_step (hes e he).1 (hes e he).2 hd hs) ?_ hafter
      simp_all [Strands, Timely]
    exact hstrands.2.2.1 hempty
  · intro htimely
    have hdrains : Drains q' := by
      refine runSteps_preserves
        (fun e he s s' hd hs => drains_step (hes e he).1 (hes e he).2 hd hs) ?_ hafter
      simpa [Drains] using htimely rfl
    rcases hrest with hp | ⟨hp, hq⟩
    · rw [Drains, hp] at hdrains
      simpa using hdrains
    · exact hq

end Draining

/-! ## The loop comes to rest -/

def ComesToRest (q : SendQueue Unit) : Prop :=
  ∃ es q', (∀ e ∈ es, ofSender e = true ∧ ∀ p, e ≠ .fails p) ∧
    runSteps sendStep es q = some q' ∧ AtRest q'

theorem ComesToRest.of_step {q q' : SendQueue Unit} {e : SendAction Unit} (he : ofSender e = true)
    (hf : ∀ p, e ≠ .fails p) (hs : sendStep e q = some q') (hr : ComesToRest q') : ComesToRest q := by
  obtain ⟨es, q'', hes, hrun, hrest⟩ := hr
  exact ⟨e :: es, q'', List.forall_mem_cons.mpr ⟨⟨he, hf⟩, hes⟩, (runSteps_cons hs).trans hrun, hrest⟩

theorem ComesToRest.turn {q q' : SendQueue Unit} (hs : q.turn = some q')
    (hr : ComesToRest q') : ComesToRest q :=
  hr.of_step (e := .turns) rfl (by simp) hs

theorem atRest_comesToRest {q : SendQueue Unit} (hr : AtRest q) : ComesToRest q :=
  ⟨[], q, by simp, rfl, hr⟩

theorem woken_comesToRest {queue : List Packet} {running : Bool}
    (hnext : ∀ p rest, queue = p :: rest → ComesToRest ⟨rest, running, none, .test⟩)
    (hempty : queue = [] → running = true → ComesToRest ⟨[], true, none, .test⟩) :
    ComesToRest ⟨queue, running, some .sender, .woken⟩ := by
  cases running with
  | false => exact .turn rfl (atRest_comesToRest (.inl rfl))
  | true =>
    cases queue with
    | nil => exact .turn rfl (hempty rfl rfl)
    | cons p rest =>
      refine .turn rfl ((hnext p rest rfl).of_step (e := .sends p) rfl (by simp) (if_pos rfl))

theorem waiting_comesToRest {queue : List Packet} {running : Bool}
    (hnext : ∀ p rest, queue = p :: rest → ComesToRest ⟨rest, running, none, .test⟩) :
    ComesToRest ⟨queue, running, some .sender, .waiting⟩ := by
  cases queue with
  | nil =>
    cases running with
    | false => exact .turn rfl (woken_comesToRest hnext fun _ h => absurd h Bool.false_ne_true)
    | true => exact .turn rfl (atRest_comesToRest (.inr ⟨rfl, rfl⟩))
  | cons p rest => exact .turn rfl (woken_comesToRest hnext fun h => absurd h (List.cons_ne_nil p rest))

theorem test_comesToRest (queue : List Packet) (running : Bool) :
    ComesToRest ⟨queue, running, none, .test⟩ := by
  induction queue with
  | nil =>
    cases running with
    | false => exact .turn rfl (atRest_comesToRest (.inl rfl))
    | true =>
      refine .turn rfl (.turn rfl (waiting_comesToRest fun p rest h => ?_))
      exact absurd h.symm (List.cons_ne_nil p rest)
  | cons p rest ih =>
    cases running with
    | false => exact .turn rfl (atRest_comesToRest (.inl rfl))
    | true =>
      apply ComesToRest.turn rfl
      apply ComesToRest.turn rfl
      apply waiting_comesToRest
      intro p' rest' h
      cases h
      exact ih

/-- Wherever the sender is, if it does not wait for a mutex that another thread has, its loop comes to
rest after finitely many of its own steps. -/
theorem loop_comesToRest {q : SendQueue Unit} (ho : q.Owned)
    (hm : q.sendMtx = none ∨ q.sendMtx = some .sender)
    (hs : q.place = .sending → q.senderBuffer ≠ [])
    (hr : ∀ p, q.place ≠ .raised p) : ComesToRest q := by
  obtain ⟨queue, running, mutex, place⟩ := q
  have hfree : place.holdsLock = false → mutex = none := fun h =>
    hm.resolve_right fun he => Bool.false_ne_true (h.symm.trans (ho.mp he))
  have hheld : place.holdsLock = true → mutex = some .sender := ho.mpr
  cases place with
  | entry =>
    obtain rfl := hfree rfl
    exact .turn rfl (test_comesToRest queue true)
  | test =>
    obtain rfl := hfree rfl
    exact test_comesToRest queue running
  | locking | asleep =>
    obtain rfl := hfree rfl
    exact .turn rfl (waiting_comesToRest fun p rest _ => test_comesToRest rest running)
  | waiting =>
    obtain rfl := hheld rfl
    exact waiting_comesToRest fun p rest _ => test_comesToRest rest running
  | woken =>
    obtain rfl := hheld rfl
    exact woken_comesToRest (fun p rest _ => test_comesToRest rest running)
      fun _ _ => test_comesToRest [] true
  | sending =>
    obtain rfl := hheld rfl
    obtain ⟨p, rest, rfl⟩ := List.exists_cons_of_ne_nil (hs rfl)
    exact (test_comesToRest rest running).of_step (e := .sends p) rfl (by simp) (if_pos rfl)
  | returned => exact atRest_comesToRest (.inl rfl)
  | raised p => exact absurd rfl (hr p)

/-! ## The call of `disconnect` -/

section Calls
variable {reason : Text} {es : List (SendAction Unit)} {q q' : SendQueue Unit}

theorem Disconnects.pushed (hes : Disconnects reason es) :
    es.filterMap SendAction.pushed = (disconnectActions reason).filterMap SendAction.pushed := by
  rw [← hes.calls, List.filterMap_filter]
  refine List.filterMap_congr fun e _ => ?_
  cases e <;> rfl

theorem Disconnects.split (hes : Disconnects [] es) :
    ∃ before after, es = before ++ .clears :: after ∧ (∀ e ∈ before, e ≠ .clears) ∧
      ∀ e ∈ after, ofSender e = true ∧ ∀ p, e ≠ .fails p := by
  have hcalls : es.filter (fun e => !ofSender e) =
      [.locks () exitPacket, .pushes () exitPacket] ++ [.clears] :=
        hes.calls.trans disconnectActions_nil
  obtain ⟨front, back, rfl, hfront, hback⟩ := List.filter_eq_append_iff.mp hcalls
  obtain ⟨between, after, rfl, hbetween, -, hafter⟩ := List.filter_eq_cons_iff.mp hback
  refine ⟨front ++ between, after, (List.append_assoc ..).symm, fun e he => ?_, fun e he => ?_⟩
  · rintro rfl
    rcases List.mem_append.mp he with he | he
    · have hmem : SendAction.clears ∈ front.filter fun e => !ofSender e := List.mem_filter.mpr ⟨he, rfl⟩
      rw [hfront] at hmem
      simp at hmem
    · exact hbetween _ he rfl
  · have hsender := List.filter_eq_nil_iff.mp hafter e he
    refine ⟨by simpa using hsender, fun p hp => hes.succeeds p ?_⟩
    rw [← hp]
    simp [he]

theorem flushed_iff (hes : Disconnects [] es) (hrun : runSteps sendStep es q = some q') :
    Flushed q.senderBuffer [] es ↔ q'.senderBuffer = [] := by
  have hfifo := runSteps_fifo hrun
  rw [hes.pushed, disconnectActions_pushed] at hfifo
  constructor
  · rintro ⟨p, -, -, hsent⟩
    have hlength := congrArg List.length hfifo
    rw [hsent] at hlength
    simpa using hlength
  · intro hempty
    rw [hempty, List.append_nil] at hfifo
    exact ⟨exitPacket, exitPacket_carries.toReads, exitPacket_carries.bytes, hfifo⟩

theorem not_flushed (hne : reason ≠ []) (hes : Disconnects reason es)
    (hrun : runSteps sendStep es q = some q') :
    ¬ Flushed q.senderBuffer reason es := by
  rintro ⟨p, -, -, hsent⟩
  have hfifo := runSteps_fifo hrun
  rw [hes.pushed, disconnectActions_reason hne, hsent] at hfifo
  have hlength := congrArg List.length hfifo
  simp at hlength

end Calls

/-- Whatever is queued and wherever the loop is: all of it and the farewell are sent by the time the
loop is at rest exactly if there is no reason to carry and the flag is cleared in time. -/
theorem disconnect_flushes_iff (q q' : SendQueue Unit) (reason : Text) (es : List (SendAction Unit))
    (hes : Disconnects reason es) (hrun : runSteps sendStep es q = some q') (hrest : AtRest q') :
    Flushed q.senderBuffer reason es ↔ reason = [] ∧ Throughout sendStep Timely es q := by
  by_cases hr : reason = []
  · subst hr
    rw [flushed_iff hes hrun, and_iff_right rfl]
    obtain ⟨before, after, rfl, hbefore, hafter⟩ := hes.split
    obtain ⟨q₁, hq₁, hclear⟩ := runSteps_append_inv hrun
    have htimely (e : SendAction Unit) (he : e ≠ .clears) (s : SendQueue Unit) : Timely e s :=
      fun h => absurd h he
    have hlater (e : SendAction Unit) (he : e ∈ after) : e ≠ .clears := by
      rintro rfl
      cases (hafter _ he).1
    rw [cleared_empties_iff hafter hclear hrest, throughout_append hq₁, Throughout]
    constructor
    · intro hcleared
      exact ⟨throughout_of_forall (fun e he => htimely e (hbefore e he)) q, hcleared,
        fun s' _ => throughout_of_forall (fun e he => htimely e (hlater e he)) s'⟩
    · exact fun h => h.2.1
  · exact iff_of_false (not_flushed hr hes hrun) fun h => hr h.1


def sleeping : SendQueue Unit := ⟨[], true, none, .asleep⟩

def inTime : List (SendAction Unit) :=
  [.locks () exitPacket, .pushes () exitPacket, .turns, .turns, .turns, .clears,
    .sends exitPacket, .turns]

theorem inTime_flushes : Flushed [] [] inTime := by
  have hrun : runSteps sendStep inTime sleeping = some ⟨[], false, none, .returned⟩ := by
    generalize hp : exitPacket = p
    simp [inTime, sleeping, runSteps, sendStep, SendQueue.turn, SendQueue.outgoing, hp]
  have hcalls : Disconnects [] inTime := ⟨disconnectActions_nil.symm, by simp [inTime]⟩
  refine (disconnect_flushes_iff sleeping _ [] inTime hcalls hrun (.inl rfl)).mpr ⟨rfl, ?_⟩
  generalize hp : exitPacket = p
  simp [inTime, sleeping, Throughout, Timely, sendStep, SendQueue.turn, SendQueue.outgoing, hp]

def tooSoon : List (SendAction Unit) :=
  [.locks () exitPacket, .pushes () exitPacket, .clears, .turns, .turns, .turns]

theorem tooSoon_loses :
    ¬ ∀ (q q' : SendQueue Unit) (reason : Text) (es : List (SendAction Unit)), Disconnects reason es →
      runSteps sendStep es q = some q' → AtRest q' → Flushed q.senderBuffer reason es := by
  intro hall
  have hrun : runSteps sendStep tooSoon sleeping = some ⟨[exitPacket], false, none, .returned⟩ := by
    generalize hp : exitPacket = p
    simp [tooSoon, sleeping, runSteps, sendStep, SendQueue.turn, hp]
  have hcalls : Disconnects [] tooSoon := ⟨disconnectActions_nil.symm, by simp [tooSoon]⟩
  have hempty := (flushed_iff hcalls hrun).mp (hall _ _ _ _ hcalls hrun (.inl rfl))
  cases hempty

end SyncWizard.Properties
