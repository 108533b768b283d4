import SyncWizard.Server.SendQueue

/-! The send queue of a session loses, repeats and reorders nothing. Packets are pushed in the order in
which their threads locked the queue, and what has been sent is a first part of what was pushed. -/

namespace SyncWizard.Properties
open Foundation Common Server

structure Settled {ι : Type} (es : List (SendAction ι)) (q : SendQueue ι) : Prop where
  order : es.filterMap SendAction.locked = es.filterMap SendAction.pushed ++ q.pending
  owned : q.Owned
  failed : ∀ p, .fails p ∈ es → q.place = .raised p ∧ ∃ rest, q.senderBuffer = p :: rest

section Queues
variable {ι : Type} {es : List (SendAction ι)} {q q' : SendQueue ι}

theorem fresh_settled : Settled [] (SendQueue.fresh : SendQueue ι) where
  order := rfl
  owned := fresh_owned
  failed p hp := by cases hp

theorem Settled.step [DecidableEq ι] {e : SendAction ι} (hi : Settled es q)
    (hs : sendStep e q = some q') : Settled (es ++ [e]) q' := by
  refine ⟨?_, sendStep_owned hi.owned hs, fun p hp => ?_⟩
  · rw [filterMap_concat, filterMap_concat, hi.order, List.append_assoc, List.append_assoc,
      sendStep_pending hi.owned hs]
  · rcases List.mem_append.mp hp with hp | hp
    -- it failed before, and the thread is gone
    · obtain ⟨hplace, rest, hrest⟩ := hi.failed p hp
      obtain ⟨hplace', hfront⟩ := sendStep_raised hi.owned hs hplace
      exact ⟨hplace', hfront rest hrest⟩
    · obtain rfl := List.mem_singleton.mp hp
      obtain ⟨hout, rfl⟩ := fails_inv hs
      exact ⟨rfl, _, (outgoing_eq hout).2⟩

end Queues

/-- In every state that any number of producers and the sender can reach, what has been sent and what
is queued make up what was pushed, in the order of the lock; a packet whose send failed is in front. -/
theorem reachable_lossless {ι : Type} [DecidableEq ι] (es : List (SendAction ι)) (q : SendQueue ι)
    (hrun : runSteps sendStep es SendQueue.fresh = some q) :
    es.filterMap SendAction.sent ++ q.senderBuffer = es.filterMap SendAction.pushed ∧
      es.filterMap SendAction.pushed <+: es.filterMap SendAction.locked ∧
      ∀ p, .fails p ∈ es → ∃ rest, q.senderBuffer = p :: rest := by
  have hi : Settled es q := by
    apply runSteps_invariant fresh_settled _ hrun
    exact fun _ _ _ _ hi hs => hi.step hs
  exact ⟨runSteps_fifo hrun, ⟨q.pending, hi.order.symm⟩, fun p hp => (hi.failed p hp).2⟩

def oneFails (p p' : Packet) : List (SendAction Bool) :=
  [.locks true p, .pushes true p, .turns, .turns, .turns, .turns, .turns, .sends p,
    .locks false p', .pushes false p',
    .turns, .turns, .turns, .turns, .fails p']

theorem oneFails_runs (p p' : Packet) : runSteps sendStep (oneFails p p') SendQueue.fresh =
    some ⟨[p'], true, none, .raised p'⟩ := by
  have hpushed : runSteps sendStep (pushAll true [p]) SendQueue.fresh =
      some ⟨[p], true, none, .entry⟩ := pushAll_run true [p] [] true .entry
  have hsent : runSteps sendStep [.turns, .turns, .turns, .turns, .turns, .sends p]
      (⟨[p], true, none, .entry⟩ : SendQueue Bool) = some ⟨[], true, none, .test⟩ := by
    simp [runSteps, sendStep, SendQueue.turn, SendQueue.outgoing]
  have hpushed' : runSteps sendStep (pushAll false [p']) ⟨[], true, none, .test⟩ =
      some ⟨[p'], true, none, .test⟩ := pushAll_run false [p'] [] true .test
  have hfailed : runSteps sendStep [.turns, .turns, .turns, .turns, .fails p']
      (⟨[p'], true, none, .test⟩ : SendQueue Bool) = some ⟨[p'], true, none, .raised p'⟩ := by
    simp [runSteps, sendStep, SendQueue.turn, SendQueue.outgoing]
  exact (runSteps_append _ hpushed).trans ((runSteps_append _ hsent).trans
    ((runSteps_append _ hpushed').trans hfailed))

theorem pingThenPong_lossless :
    ∃ q : SendQueue Bool,
      (oneFails (Packet.ofCommand (txt "ping")) (Packet.ofCommand (txt "pong"))).filterMap
        SendAction.sent ++ q.senderBuffer =
        [Packet.ofCommand (txt "ping"), Packet.ofCommand (txt "pong")] ∧
      ∃ rest, q.senderBuffer = Packet.ofCommand (txt "pong") :: rest := by
  obtain ⟨hfifo, -, hfront⟩ :=
    reachable_lossless _ _
      (oneFails_runs (Packet.ofCommand (txt "ping")) (Packet.ofCommand (txt "pong")))
  exact ⟨_, hfifo, hfront _ (by simp [oneFails])⟩

end SyncWizard.Properties
