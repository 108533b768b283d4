import SyncWizard.Server.Runs

/-! Where the packets of a session go. The sender loop names no socket, so everything it sends
is written on the socket of the connection manager, the one the server listens on; only a
session that has this very socket is served by it. -/

namespace SyncWizard.Properties
open Foundation Common Server

def socketOfSession (w : ServerState) (s : SessionId) : ℤ := (w.session s).identity.socketFd

def queueOf (w : ServerState) (s : SessionId) : List Packet := (w.session s).senderBuffer

def framing (ps : List Packet) : Text := ps.flatMap Packet.wire

/-- Sessions registered at the same time: no two of them share a socket, and what is queued for
them came from the handlers. -/
structure Registered (sessions : List SessionId) (w : ServerState) : Prop where
  sockets : ∀ s ∈ sessions, ∀ t ∈ sessions, socketOfSession w s = socketOfSession w t → s = t
  bare : ∀ s ∈ sessions, ∀ p ∈ queueOf w s, p.bytes = []

def addedTo (w w' : ServerState) (s : SessionId) : List Packet :=
  (queueOf w' s).drop (queueOf w s).length

def enqueuedIn (s : SessionId) : List Event → ServerState → List Packet
  | [], _ => []
  | e :: es, w =>
    addedTo w (final (step e w)) s ++
      match step e w with
      | .ok _ w' => enqueuedIn s es w'
      | .error _ _ => []

/-- From `w` to `w'`, during which `new` was queued for `s`: the socket of `s` got the framing of
the packets that left the queue, in order, and after a failure the beginning of the next one. -/
def Writes (w w' : ServerState) (s : SessionId) (new : List Packet) (finished : Bool) : Prop :=
  ∃ sent part, queueOf w s ++ new = sent ++ queueOf w' s ∧ part <+: framing (queueOf w' s) ∧
    (finished = true → part = []) ∧
    w'.net.outbox (socketOfSession w s) = w.net.outbox (socketOfSession w s) ++ framing sent ++ part

def WritesNowhereElse (sessions : List SessionId) (w w' : ServerState) : Prop :=
  ∀ fd, (∀ s ∈ sessions, socketOfSession w s ≠ fd) → w'.net.outbox fd = w.net.outbox fd

def finished {α : Type} (r : EStateM.Result (Fault Text Crash) ServerState α) : Bool :=
  match r with
  | .ok _ _ => true
  | .error _ _ => false

/-- A round that finds a packet does with it what `send_packet` does on the session's own socket; where
that socket takes data, a packet with all the bytes it announces leaves the queue. -/
def HandsOver (e : Event) (w : ServerState) : Prop :=
  ∀ s p q, e.activity = .sends s → (w.session s).runningSender = true → queueOf w s = p :: q →
    (final (step e w)).net = final (sendPacket e.host e.fuel p (socketOfSession w s) w.net) ∧
      (p.Exact → e.host.Takes (socketOfSession w s) → p.wire.length < e.fuel →
        ∃ w', step e w = .ok () w' ∧ queueOf w' s = q)

/-- Each session's packets are written on its own socket, in queue order, and on no other. -/
structure OwnSocketsOnly (sessions : List SessionId) (es : List Event) (w : ServerState) : Prop where
  writes : ∀ s ∈ sessions,
    Writes w (run es w) s (enqueuedIn s es w) (finished (forEach step es w))
  nowhereElse : WritesNowhereElse sessions w (run es w)
  handsOver : Along step HandsOver es w

/-- A sender that finds a packet serves a session whose socket is that of the manager. -/
def SendsHome (e : Event) (w : ServerState) : Prop :=
  ∀ s, e.activity = .sends s → (w.session s).runningSender = true → queueOf w s ≠ [] →
    socketOfSession w s = w.net.sockfd

theorem framing_append (ps qs : List Packet) : framing (ps ++ qs) = framing ps ++ framing qs :=
  List.flatMap_append

section Steps
variable {sessions : List SessionId} {w w' : ServerState}

theorem Writes.refl (s : SessionId) (b : Bool) : Writes w w s [] b :=
  ⟨[], [], List.append_nil _, List.nil_prefix, fun _ => rfl, by
    rw [List.append_nil, framing, List.flatMap_nil, List.append_nil]⟩

theorem Writes.trans {w₁ w₂ w₃ : ServerState} {s : SessionId} {new₁ new₂ : List Packet} {b : Bool}
    (hid : socketOfSession w₂ s = socketOfSession w₁ s) (h₁ : Writes w₁ w₂ s new₁ true)
    (h₂ : Writes w₂ w₃ s new₂ b) : Writes w₁ w₃ s (new₁ ++ new₂) b := by
  obtain ⟨sent₁, part₁, hq₁, -, hpart₁, ho₁⟩ := h₁
  obtain ⟨sent₂, part₂, hq₂, hprefix, hpart₂, ho₂⟩ := h₂
  rw [hid] at ho₂
  rw [hpart₁ rfl, List.append_nil] at ho₁
  refine ⟨sent₁ ++ sent₂, part₂, ?_, hprefix, hpart₂, ?_⟩
  · rw [← List.append_assoc, hq₁, List.append_assoc, hq₂, List.append_assoc]
  · rw [ho₂, ho₁, framing_append, List.append_assoc (w₁.net.outbox _)]

theorem writes_of_onlyQueues {packets : Packet → Prop} (hq : OnlyQueues packets w w')
    (s : SessionId) (b : Bool) :
    Writes w w' s (addedTo w w' s) b := by
  obtain ⟨ho, -, hs⟩ := hq
  obtain ⟨-, new, hnew, -⟩ := hs s
  refine ⟨[], [], ?_, List.nil_prefix, fun _ => rfl, ?_⟩
  · rw [addedTo, queueOf, queueOf, hnew, List.drop_left, List.nil_append]
  · rw [ho, List.append_nil, framing, List.flatMap_nil, List.append_nil]

theorem writes_same {s : SessionId} (hq : queueOf w' s = queueOf w s)
    (ho : w'.net.outbox (socketOfSession w s) = w.net.outbox (socketOfSession w s)) (b : Bool) :
    Writes w w' s (addedTo w w' s) b := by
  rw [addedTo, hq, List.drop_length]
  refine ⟨[], [], ?_, List.nil_prefix, fun _ => rfl, ?_⟩
  · rw [hq, List.append_nil, List.nil_append]
  · rw [ho, List.append_nil, framing, List.flatMap_nil, List.append_nil]

theorem writes_popped {s : SessionId} {p : Packet} {q : List Packet} (hq : queueOf w s = p :: q)
    (hq' : queueOf w' s = q)
    (ho : w'.net.outbox (socketOfSession w s) = w.net.outbox (socketOfSession w s) ++ p.wire)
    (b : Bool) :
    Writes w w' s (addedTo w w' s) b := by
  have hadded : addedTo w w' s = [] := by
    rw [addedTo, hq, hq', List.length_cons]
    exact List.drop_of_length_le (Nat.le_succ _)
  rw [hadded]
  refine ⟨[p], [], ?_, List.nil_prefix, fun _ => rfl, ?_⟩
  · rw [hq, hq', List.append_nil, List.singleton_append]
  · rw [ho, List.append_nil, framing, List.flatMap_singleton]

theorem writes_failed {s : SessionId} {p : Packet} {q : List Packet} {out : Text}
    (hq : queueOf w s = p :: q) (hq' : queueOf w' s = queueOf w s) (hout : out <+: p.wire)
    (ho : w'.net.outbox (socketOfSession w s) = w.net.outbox (socketOfSession w s) ++ out) :
    Writes w w' s (addedTo w w' s) false := by
  rw [addedTo, hq', List.drop_length]
  refine ⟨[], out, ?_, ?_, fun hf => Bool.noConfusion hf, ?_⟩
  · rw [hq', List.append_nil, List.nil_append]
  · rw [hq', hq, framing, List.flatMap_cons]
    exact hout.trans (List.prefix_append _ _)
  · rw [ho, framing, List.flatMap_nil, List.append_nil]

theorem registered_of_onlyQueues (hr : Registered sessions w)
    (hq : OnlyQueues (fun p => p.bytes = []) w w') : Registered sessions w' where
  sockets s hs t ht heq := by
    have hid (s : SessionId) : socketOfSession w' s = socketOfSession w s :=
      congrArg Identity.socketFd (hq.2.2 s).1
    rw [hid, hid] at heq
    exact hr.sockets s hs t ht heq
  bare s hs p hp := by
    obtain ⟨-, new, hnew, hb⟩ := hq.2.2 s
    rw [queueOf, hnew] at hp
    rcases List.mem_append.mp hp with hp | hp
    exacts [hr.bare s hs p hp, hb p hp]

structure Progress (sessions : List SessionId) (w w' : ServerState) (b : Bool) : Prop where
  writes : ∀ s ∈ sessions, Writes w w' s (addedTo w w' s) b
  nowhereElse : WritesNowhereElse sessions w w'
  registered : Registered sessions w'
  sockets : ∀ s, socketOfSession w' s = socketOfSession w s

theorem progress_of_onlyQueues (hr : Registered sessions w)
    (hq : OnlyQueues (fun p => p.bytes = []) w w')
    (b : Bool) : Progress sessions w w' b where
  writes s _ := writes_of_onlyQueues hq s b
  nowhereElse fd _ := congrFun hq.1 fd
  registered := registered_of_onlyQueues hr hq
  sockets s := congrArg Identity.socketFd (hq.2.2 s).1

section Sending
variable {s t : SessionId} {p : Packet} {q : List Packet} {out : Text} {m : ConnectionManager}

theorem Registered.outbox_other (hr : Registered sessions w) (hs : s ∈ sessions)
    (hsent : w.net.Sent (socketOfSession w s) out m) (ht : t ∈ sessions) (hts : t ≠ s) :
    m.outbox (socketOfSession w t) = w.net.outbox (socketOfSession w t) :=
  hsent.outbox_ne fun heq => hts (hr.sockets t ht s hs heq)

theorem progress_sent (hr : Registered sessions w) (hs : s ∈ sessions) (hq : queueOf w s = p :: q)
    (hsent : w.net.Sent (socketOfSession w s) p.wire m) (b : Bool) :
    Progress sessions w
      ({ w with net := m }.setSession s { w.session s with senderBuffer := q }) b := by
  let c : ClientSession := { w.session s with senderBuffer := q }
  let w' : ServerState := { w with net := m }.setSession s c
  have hself : w'.session s = c := Function.update_self ..
  have hrest {t : SessionId} (hts : t ≠ s) : w'.session t = w.session t := Function.update_of_ne hts ..
  have hpopped : queueOf w' s = q := by rw [queueOf, hself]
  have hkept {t : SessionId} (hts : t ≠ s) : queueOf w' t = queueOf w t := by
    rw [queueOf, hrest hts, queueOf]
  have hid (t : SessionId) : socketOfSession w' t = socketOfSession w t := by
    rcases eq_or_ne t s with rfl | hts
    · rw [socketOfSession, hself, socketOfSession]
    · rw [socketOfSession, hrest hts, socketOfSession]
  refine ⟨fun t ht => ?_, fun fd hfd => hsent.outbox_ne (hfd s hs).symm,
    ⟨fun t ht t' ht' heq => ?_, fun t ht r hr' => ?_⟩, hid⟩
  · rcases eq_or_ne t s with rfl | hts
    · exact writes_popped hq hpopped hsent.outbox_self _
    · exact writes_same (hkept hts) (hr.outbox_other hs hsent ht hts) _
  · rw [hid, hid] at heq
    exact hr.sockets t ht t' ht' heq
  · rcases eq_or_ne t s with rfl | hts
    · rw [hpopped] at hr'
      exact hr.bare t ht r (hq ▸ List.mem_cons_of_mem p hr')
    · rw [hkept hts] at hr'
      exact hr.bare t ht r hr'

theorem progress_failed (hr : Registered sessions w) (hs : s ∈ sessions) (hq : queueOf w s = p :: q)
    (hsent : w.net.Sent (socketOfSession w s) out m) (hout : out <+: p.wire) :
    Progress sessions w { w with net := m } false := by
  have hkept (t : SessionId) : queueOf { w with net := m } t = queueOf w t := rfl
  refine ⟨fun t ht => ?_, fun fd hfd => hsent.outbox_ne (hfd s hs).symm,
    ⟨hr.sockets, hr.bare⟩, fun _ => rfl⟩
  rcases eq_or_ne t s with rfl | hts
  · exact writes_failed hq (hkept t) hout hsent.outbox_self
  · exact writes_same (hkept t) (hr.outbox_other hs hsent ht hts) _

end Sending

theorem step_progress (hr : Registered sessions w) {e : Event} (he : e.Of sessions)
    (hhome : SendsHome e w) :
    Progress sessions w (final (step e w)) (finished (step e w)) := by
  by_cases hsend : ∀ s, e.activity ≠ .sends s
  · exact progress_of_onlyQueues hr
      (step_onlyQueues (fun _ _ _ hc => Packet.Carries.bytes hc) hsend w) _
  simp only [not_forall, not_not] at hsend
  obtain ⟨s, hs⟩ := hsend
  have hmem : s ∈ sessions := by
    unfold Event.Of at he
    rwa [hs] at he
  have hround : step e w = senderRound e.host e.fuel s w := by
    unfold step
    rw [hs]
  rw [hround]
  by_cases hidle : (w.session s).runningSender = false ∨ queueOf w s = []
  · rw [senderRound_idle hidle, final_ok]
    exact ⟨fun t _ => writes_same rfl rfl _, fun _ _ => rfl, hr, fun _ => rfl⟩
  rw [not_or, Bool.not_eq_false] at hidle
  obtain ⟨hrunning, hne⟩ := hidle
  obtain ⟨p, q, hq⟩ := List.exists_cons_of_ne_nil hne
  have hbare : p.bytes = [] := hr.bare s hmem p (hq ▸ List.mem_cons_self)
  obtain ⟨out, m, hsent, hcases⟩ := senderRound_bare e.host e.fuel hrunning hq hbare
  rw [← hhome s hs hrunning hne] at hsent
  rcases hcases with ⟨hok, rfl⟩ | ⟨⟨err, herror⟩, hout⟩
  · rw [hok]
    exact progress_sent hr hmem hq hsent _
  · rw [herror]
    exact progress_failed hr hmem hq hsent hout

theorem step_handsOver (hr : Registered sessions w) {e : Event} (he : e.Of sessions)
    (hhome : SendsHome e w) : HandsOver e w := by
  intro s p q hs hrunning hq
  have hmem : s ∈ sessions := by
    unfold Event.Of at he
    rwa [hs] at he
  have hbare : p.bytes = [] := hr.bare s hmem p (hq ▸ List.mem_cons_self)
  have hround : step e w = senderRound e.host e.fuel s w := by
    unfold step
    rw [hs]
  rw [hround, hhome s hs hrunning (by rw [hq]; exact List.cons_ne_nil p q), ← sendPacket_default]
  constructor
  · cases hsend : sendPacket e.host e.fuel p (-1) w.net with
    | ok u m =>
      rw [senderRound_sends hrunning hq hsend]
      rfl
    | error err m =>
      obtain ⟨err', herror⟩ := senderRound_error hrunning hq hsend
      rw [herror]
      rfl
  · intro hexact htakes hfuel
    have hown : w.net.socketOf (-1) = w.net.sockfd := if_pos rfl
    obtain ⟨m, hsend, -⟩ := sendPacket_takes (hown.symm ▸ htakes) hexact
      (by rw [hbare]; exact Nat.zero_le _) hfuel
    let c : ClientSession := { w.session s with senderBuffer := q }
    have hself : (({ w with net := m } : ServerState).setSession s c).session s = c :=
      Function.update_self ..
    exact ⟨_, senderRound_sends hrunning hq hsend, by rw [queueOf, hself]⟩

end Steps

/-- In a run whose senders all send home, the packets reach the clients they were queued for. -/
theorem run_ownSocketsOnly {sessions : List SessionId} {es : List Event} {w : ServerState}
    (hr : Registered sessions w) (hes : ∀ e ∈ es, e.Of sessions) (hhome : Along step SendsHome es w) :
    OwnSocketsOnly sessions es w := by
  induction es generalizing w with
  | nil => exact ⟨fun s _ => Writes.refl s _, fun _ _ => rfl, trivial⟩
  | cons e es ih =>
    obtain ⟨hhome₁, hlater⟩ := hhome
    obtain ⟨hwrites, helse, hr', hid⟩ := step_progress hr (hes e List.mem_cons_self) hhome₁
    have hhands := step_handsOver hr (hes e List.mem_cons_self) hhome₁
    cases hstep : step e w with
    | error err w' =>
      have hend : forEach step (e :: es) w = .error err w' := run_bind_error hstep _
      rw [hstep] at hwrites helse
      refine ⟨fun s hs => ?_, ?_, hhands, fun _ hok => by cases hstep.symm.trans hok⟩
      · rw [enqueuedIn, run, hend, hstep, List.append_nil]
        exact hwrites s hs
      · rw [run, hend]
        exact helse
    | ok u w' =>
      have hrest : forEach step (e :: es) w = forEach step es w' := run_bind_ok hstep _
      rw [hstep, final_ok] at hwrites helse hr' hid
      obtain ⟨hw, he, hh⟩ :=
        ih hr' (fun e' he' => hes e' (List.mem_cons_of_mem e he')) (hlater w' hstep)
      refine ⟨fun s hs => ?_, fun fd hfd => ?_, hhands, fun v hok => ?_⟩
      · rw [enqueuedIn, run, hrest, hstep, final_ok]
        exact (hwrites s hs).trans (hid s) (hw s hs)
      · rw [run, hrest]
        exact (he fd fun s hs => by rw [hid s]; exact hfd s hs).trans (helse fd hfd)
      · cases hstep.symm.trans hok
        exact hh

def oneDevice (fd : ℤ) : ServerState :=
  let w := ServerState.init ⟨3, 0, fun _ => [], fun _ => [], fun _ => true⟩ ⟨[], ∅, []⟩
  { (w.setSession 0
      ⟨⟨fd, txt "ana", txt "laptop", syncDir, 0⟩, [], fun _ => none, true, true⟩).setUser 0
      ⟨txt "ana", 2, [0]⟩ with
    users := [0], nextSession := 1, nextUser := 1 }

def pingRun (h : Host) : List Event := [⟨h, 2000, 1, .pings 0⟩, ⟨h, 2000, 1, .sends 0⟩]

theorem oneDevice_registered (fd : ℤ) : Registered [0] (oneDevice fd) where
  sockets s hs t ht _ := (List.mem_singleton.mp hs).trans (List.mem_singleton.mp ht).symm
  bare s hs p hp := by
    rw [List.mem_singleton.mp hs] at hp
    cases hp

theorem pingRun_of (h : Host) : ∀ e ∈ pingRun h, e.Of [0] := by
  intro e he
  rcases List.mem_cons.mp he with rfl | he
  · exact List.mem_singleton_self 0
  · rw [List.mem_singleton.mp he]
    exact List.mem_singleton_self 0

def pingPacket : Packet := Packet.init.withCommand (Packet.commandArray (txt "ping"))

/-- `select` never reports the listening socket ready for writing; the others take data. -/
def listeningHost : Host :=
  { pageHost.1 with selectWrite := fun _ fd => if fd = 3 then .timedOut else .ready }

theorem listeningHost_takes {fd : ℤ} (hfd : fd ≠ 3) : listeningHost.Takes fd :=
  ⟨fun _ => if_neg hfd, fun call offered hoffered => pageHost.2.send call fd offered hoffered⟩

theorem oneDevice_pings (h : Host) (fd : ℤ) :
    step ⟨h, 2000, 1, .pings 0⟩ (oneDevice fd) = .ok () ((oneDevice fd).push 0 pingPacket) :=
  run_bind_ok (Packet.setCommand_fits (show Packet.Fits (txt "ping") by decide) _) _

def idleRun : List Event :=
  [⟨listeningHost, 2000, 1, .sends 0⟩, ⟨listeningHost, 2000, 1, .pings 0⟩,
    ⟨listeningHost, 2000, 1, .disconnects 0 []⟩, ⟨listeningHost, 2000, 1, .sends 0⟩]

theorem oneDevice_ownSocketsOnly : OwnSocketsOnly [0] idleRun (oneDevice 4) := by
  refine run_ownSocketsOnly (oneDevice_registered 4) (by simp [idleRun, Event.Of]) ⟨?_, fun w₁ _ => ?_⟩
  · intro s hs _ hne
    cases hs
    exact absurd rfl hne
  refine ⟨fun s hs => (by cases hs), fun w₂ _ => ⟨fun s hs => (by cases hs), fun w₃ hstop => ?_⟩⟩
  obtain ⟨-, w, -, hmodify⟩ := run_bind_inv hstop
  cases hmodify
  refine ⟨fun s hs hrunning => ?_, fun _ _ => trivial⟩
  cases hs
  have hstopped : ((w.stop 0).session 0).runningSender = false :=
    congrArg ClientSession.runningSender (Function.update_self 0 _ w.session)
  cases hstopped.symm.trans hrunning

/-- A ping for the client on socket 4 is tried on the listening socket, and that ends the process. -/
theorem ping_on_listening_socket :
    ¬ ∀ (sessions : List SessionId) (es : List Event) (w : ServerState), Registered sessions w →
      (∀ e ∈ es, e.Of sessions) → OwnSocketsOnly sessions es w := by
  intro hall
  obtain ⟨-, -, -, hlater⟩ := hall [0] (pingRun listeningHost) (oneDevice 4) (oneDevice_registered 4)
    (pingRun_of _)
  let w := (oneDevice 4).push 0 pingPacket
  have hexact : pingPacket.Exact := rfl
  obtain ⟨hhands, -⟩ := hlater w (oneDevice_pings _ _)
  obtain ⟨-, htaken⟩ := hhands 0 pingPacket [] rfl rfl rfl
  obtain ⟨w', hround, -⟩ := htaken hexact (listeningHost_takes (by decide))
    (by rw [Packet.wire_length hexact]; decide)
  have hrefused : listeningHost.Refuses w.net (w.net.socketOf (-1)) headerSize := .inl (by decide)
  obtain ⟨what, m, hsend, -⟩ := sendPacket_refused pingPacket hrefused 1999
  obtain ⟨e, herror⟩ := senderRound_error (s := 0) (q := []) rfl rfl hsend
  cases herror.symm.trans hround

end SyncWizard.Properties
