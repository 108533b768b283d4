import SyncWizard.Properties.LoginAgreement

/-! Who owns a socket. `handle_new_session` registers a session inside the accept loop, which closes
the socket again when the second approval cannot be sent, and leaves the session registered. -/

namespace SyncWizard.Properties
open Foundation Common Server

/-- A connection as the accept loop meets it: how the machine behaves, the descriptor that the kernel
hands out, and what the client has sent on it. -/
structure Arrival where
  host : Host
  newSocket : ℤ
  sent : Text

def connected (w : ServerState) (a : Arrival) : ServerState :=
  { w with net := { w.net with
      inbox := Function.update w.net.inbox a.newSocket a.sent
      isOpen := Function.update w.net.isOpen a.newSocket true } }

theorem connected_inbox (w : ServerState) (a : Arrival) :
    (connected w a).net.inbox a.newSocket = a.sent :=
  Function.update_self ..

def acceptRound (a : Arrival) : ServerExec Unit := do
  modify fun w => connected w a
  acceptConnection a.host (headerSize + 1) a.newSocket

/-- The states the loop leads to from an empty group, by connections on descriptors that are not open
and that come where `C` allows them. -/
inductive AcceptReachable (C : Arrival → ServerState → Prop) : ServerState → Prop where
  | empty (w : ServerState) : w.users = [] → AcceptReachable C w
  | accept (w : ServerState) (a : Arrival) : AcceptReachable C w → 0 ≤ a.newSocket →
      w.net.isOpen a.newSocket = false → C a w → AcceptReachable C (final (acceptRound a w))

def socketsOf (w : ServerState) (u : UserId) : List ℤ :=
  (w.user u).sessions.map fun s => (w.session s).identity.socketFd

def registeredSockets (w : ServerState) : List ℤ := w.users.flatMap (socketsOf w)

structure SocketsOwned (w : ServerState) : Prop where
  opened : ∀ fd ∈ registeredSockets w, w.net.isOpen fd = true
  distinct : (registeredSockets w).Nodup

/-- The second approval to a client that has its confirmation is too long for a command or cannot be
sent. -/
def ApprovalRefused (h : Host) (fd : ℤ) (username : Text) (w : ServerState) : Prop :=
  ∃ text, approvalText h fd = some text ∧ (Packet.Fits text → ∃ what m,
    sendPacket h (headerSize + 1) (Packet.ofCommand text) fd (confirmedNet h fd username w) =
      .error (.raised what) m)

def ApprovalFails (a : Arrival) (w : ServerState) : Prop :=
  ∃ p m, receivePacket a.host a.newSocket (connected w a).net = .ok p m ∧
    p.Terminated ∧ p.fields.length = 3 ∧ isValidUsername (usernameOf p) = true ∧
    Admitted a.host (headerSize + 1) a.newSocket (usernameOf p) { connected w a with net := m } ∧
    ApprovalRefused a.host a.newSocket (usernameOf p) { connected w a with net := m }

def ApprovalSent (a : Arrival) (w : ServerState) : Prop := ¬ ApprovalFails a w

/-! ## The sockets on the lists -/

section Lists
variable {w w' : ServerState}

theorem flatMap_perm {α β : Type} {f g : α → List β} {u : α} {x : β} {us : List α}
    (hn : us.Nodup) (hu : u ∈ us)
    (hself : g u = f u ++ [x]) (hother : ∀ v, v ≠ u → g v = f v) :
    (us.flatMap g).Perm (x :: us.flatMap f) := by
  induction us with
  | nil => cases hu
  | cons v us ih =>
    obtain ⟨hv, hn⟩ := List.nodup_cons.mp hn
    rw [List.flatMap_cons, List.flatMap_cons]
    rcases List.mem_cons.mp hu with rfl | hu
    · have hrest : us.flatMap g = us.flatMap f := by
        refine List.flatMap_congr fun v' hv' => hother v' ?_
        rintro rfl
        exact hv hv'
      rw [hself, hrest, List.append_assoc, List.singleton_append]
      exact List.perm_middle
    · have hne : v ≠ u := by
        rintro rfl
        exact hv hu
      rw [hother v hne]
      exact ((ih hn hu).append_left (f v)).trans List.perm_middle

theorem Invariant.users_nodup (hi : Invariant w) : w.users.Nodup := hi.names.of_map

theorem SameRegistry.sockets (hs : SameRegistry w w') : registeredSockets w' = registeredSockets w := by
  rw [hs]
  rfl

theorem load_sockets (hi : Invariant w) {v : User} (hv : v.sessions = []) :
    registeredSockets (w.load v) = registeredSockets w := by
  have hold : w.users.flatMap (socketsOf (w.load v)) = registeredSockets w := by
    refine List.flatMap_congr fun u hu => ?_
    rw [socketsOf, load_user_old v (Nat.ne_of_lt (hi.knownUsers u hu))]
    rfl
  have hnew : socketsOf (w.load v) w.nextUser = [] := by
    rw [socketsOf, load_user_new, hv]
    rfl
  rw [registeredSockets, show (w.load v).users = w.users ++ [w.nextUser] from rfl,
    List.flatMap_append, hold,
    List.flatMap_singleton, hnew, List.append_nil]

theorem allocate_socketsOf (hi : Invariant w) (me : Identity) {u : UserId} (hu : u ∈ w.users) :
    socketsOf (w.allocate me) u = socketsOf w u :=
  List.map_congr_left fun s hs => by rw [allocate_session_old me (hi.knownSessions u hu s hs)]

theorem allocate_sockets (hi : Invariant w) (me : Identity) :
    registeredSockets (w.allocate me) = registeredSockets w :=
  List.flatMap_congr fun _ hu => allocate_socketsOf hi me hu

theorem append_sockets (hi : Invariant w) {u : UserId} (hu : u ∈ w.users) (me : Identity) :
    (registeredSockets ((w.allocate me).appendSession u w.nextSession)).Perm
      (me.socketFd :: registeredSockets w) := by
  have hself : socketsOf ((w.allocate me).appendSession u w.nextSession) u =
      socketsOf (w.allocate me) u ++ [me.socketFd] := by
    rw [socketsOf, appendSession_user_self, List.map_append, List.map_singleton]
    exact congrArg (fun me' : Identity => _ ++ [me'.socketFd]) (allocate_identity_new me)
  have hother (v : UserId) (hv : v ≠ u) : socketsOf ((w.allocate me).appendSession u w.nextSession) v =
      socketsOf (w.allocate me) v := by
    rw [socketsOf, appendSession_user_ne _ hv]
    rfl
  rw [← allocate_sockets hi me]
  exact flatMap_perm hi.users_nodup hu hself hother

theorem registerSession_sockets (hi : Invariant w) (h : Host) (fuel : ℕ) (fd : ℤ)
    (username machine : Text) :
    (∃ e v, registerSession h fuel fd username machine w = .error e v ∧
        registeredSockets v = registeredSockets w) ∨
      ∃ v, registerSession h fuel fd username machine w = .ok () v ∧
        (registeredSockets v).Perm (fd :: registeredSockets w) := by
  have hadd (v : ServerState) (u : UserId) (hiv : Invariant v)
      (hv : registeredSockets v = registeredSockets w) (hu : u ∈ v.users) :
      (registeredSockets ((v.allocate (registeredAs fd username machine u)).appendSession u
        v.nextSession)).Perm (fd :: registeredSockets w) := by
    rw [← hv]
    exact append_sockets hiv hu (registeredAs fd username machine u)
  apply registerSession_stages h fuel fd username machine hi
    (P := fun v => registeredSockets v = registeredSockets w) rfl
  · exact fun v v' hv hs => (SameRegistry.sockets hs).trans hv
  · exact fun v c hiv hv _ _ hsessions _ => (load_sockets hiv hsessions).trans hv
  · exact fun v hv => hv
  · exact fun v u hiv hv => (allocate_sockets hiv _).trans hv
  · exact fun v u hiv hv hu _ _ _ => hadd v u hiv hv hu

theorem sendPacket_isOpen {h : Host} {p : Packet} (hp : p.bytes = []) (fuel : ℕ) (fd : ℤ)
    (m : ConnectionManager) :
    (final (sendPacket h fuel p fd m)).isOpen = m.isOpen := by
  obtain ⟨out, -, hsent, -⟩ := sendPacket_bare (h := h) hp fuel fd m
  exact hsent.isOpen

theorem receivePacket_isOpen (h : Host) (fd : ℤ) (m : ConnectionManager) :
    (final (receivePacket h fd m)).isOpen = m.isOpen := by
  obtain ⟨n, -, htook, -⟩ := receivePacket_took (h := h) fd m
  exact htook.isOpen

theorem registerSession_isOpen (hi : Invariant w) (h : Host) (fuel : ℕ) (fd : ℤ)
    (username machine : Text) :
    (final (registerSession h fuel fd username machine w)).net.isOpen = w.net.isOpen := by
  rcases registerSession_net h fuel fd username machine
      hi.knownUsers with ⟨e, v, hrun, hnet⟩ | ⟨-, hnet⟩
  · rw [hrun, final_error, hnet]
  · rw [hnet]
    exact sendPacket_isOpen rfl fuel fd w.net

end Lists

/-! ## One connection -/

section Round
variable {w v : ServerState} {fd : ℤ}

def Dismissed (fd : ℤ) (w v : ServerState) : Prop :=
  registeredSockets v = registeredSockets w ∧ ∀ fd', fd' ≠ fd → v.net.isOpen fd' = w.net.isOpen fd'

def Enrolled (fd : ℤ) (w v : ServerState) : Prop :=
  (registeredSockets v).Perm (fd :: registeredSockets w) ∧
    ∀ fd', fd' ≠ fd → v.net.isOpen fd' = w.net.isOpen fd'

theorem closed_isOpen_ne (v : ServerState) {fd fd' : ℤ} (hne : fd' ≠ fd) :
    (closed v fd).net.isOpen fd' = v.net.isOpen fd' := Function.update_of_ne hne ..

theorem closed_isOpen_self (v : ServerState) (fd : ℤ) : (closed v fd).net.isOpen fd = false :=
  Function.update_self ..

theorem Enrolled.net {m : ConnectionManager} (he : Enrolled fd w v) (hm : m.isOpen = v.net.isOpen) :
    Enrolled fd w { v with net := m } :=
  ⟨he.1, fun fd' hne => (congrFun hm fd').trans (he.2 fd' hne)⟩

theorem Enrolled.closed (he : Enrolled fd w v) : Enrolled fd w (Properties.closed v fd) :=
  ⟨he.1, fun fd' hne => (closed_isOpen_ne v hne).trans (he.2 fd' hne)⟩

theorem Dismissed.closed (hd : Dismissed fd w v) : Dismissed fd w (Properties.closed v fd) :=
  ⟨hd.1, fun fd' hne => (closed_isOpen_ne v hne).trans (hd.2 fd' hne)⟩

theorem Dismissed.trans {w₁ w₂ : ServerState} (h₁ : Dismissed fd w w₁) (h₂ : Dismissed fd w₁ w₂) :
    Dismissed fd w w₂ := ⟨h₂.1.trans h₁.1, fun fd' hne => (h₂.2 fd' hne).trans (h₁.2 fd' hne)⟩

theorem Dismissed.enrolled {w₁ w₂ : ServerState} (h₁ : Dismissed fd w w₁) (h₂ : Enrolled fd w₁ w₂) :
    Enrolled fd w w₂ := ⟨h₁.1 ▸ h₂.1, fun fd' hne => (h₂.2 fd' hne).trans (h₁.2 fd' hne)⟩

theorem SocketsOwned.unused (ho : SocketsOwned w) (hnew : w.net.isOpen fd = false) :
    fd ∉ registeredSockets w := by
  intro hfd
  rw [ho.opened fd hfd] at hnew
  cases hnew

theorem SocketsOwned.dismissed (ho : SocketsOwned w) (hnew : w.net.isOpen fd = false)
    (hd : Dismissed fd w v) :
    SocketsOwned v := by
  obtain ⟨hsockets, hopen⟩ := hd
  refine ⟨fun fd' hfd' => ?_, hsockets ▸ ho.distinct⟩
  rw [hsockets] at hfd'
  have hne : fd' ≠ fd := fun he => ho.unused hnew (he ▸ hfd')
  rw [hopen fd' hne]
  exact ho.opened fd' hfd'

theorem SocketsOwned.enrolled (ho : SocketsOwned w)
    (hnew : w.net.isOpen fd = false) (he : Enrolled fd w v) :
    SocketsOwned v ↔ v.net.isOpen fd = true := by
  obtain ⟨hsockets, hopen⟩ := he
  constructor
  · exact fun hv => hv.opened fd (hsockets.mem_iff.mpr List.mem_cons_self)
  · intro hfd
    refine ⟨fun fd' hfd' => ?_,
      hsockets.nodup_iff.mpr (List.nodup_cons.mpr ⟨ho.unused hnew, ho.distinct⟩)⟩
    rcases List.mem_cons.mp (hsockets.mem_iff.mp hfd') with rfl | hold
    · exact hfd
    · have hne : fd' ≠ fd := fun he => ho.unused hnew (he ▸ hold)
      rw [hopen fd' hne]
      exact ho.opened fd' hold

theorem closed_invariant (hi : Invariant v) (fd : ℤ) : Invariant (closed v fd) :=
  SameRegistry.invariant (w := v) rfl hi

theorem answered_dismissed {h : Host} {p : Packet}
    {username machine command : Text} {e : Fault Text Crash}
    (hp : p.Terminated ∧ p.fields = [command, username, machine] ∧ isValidUsername username = true)
    (hrun : registerSession h (headerSize + 1) fd username machine w = .error e v) (hi : Invariant v)
    (hd : Dismissed fd w v) :
    Invariant (final (answered h fd p w)) ∧ Dismissed fd w (final (answered h fd p w)) := by
  obtain ⟨e', hhandled⟩ := handleNewSession_error hrun
  have hbody : confirmAndApprove h fd username machine w = .error e' v := run_bind_error hhandled _
  cases e' with
  | raised what =>
    rw [answered_failed hp hbody, final_ok]
    exact ⟨closed_invariant hi fd, hd.closed⟩
  | crashed c =>
    rw [answered_crashed hp hbody, final_error]
    exact ⟨hi, hd⟩

theorem answered_sends {h : Host} {p q : Packet} {username machine command : Text} (hq : q.bytes = [])
    (hp : p.Terminated ∧ p.fields = [command, username, machine] ∧ isValidUsername username = true)
    (hbody : confirmAndApprove h fd username machine w =
      onNet (sendPacket h (headerSize + 1) q fd) v) (hiv : Invariant v)
    (he : Enrolled fd w v) (hopen : v.net.isOpen fd = true) :
    Invariant (final (answered h fd p w)) ∧ Enrolled fd w (final (answered h fd p w)) ∧
      ((final (answered h fd p w)).net.isOpen fd = true ↔
        ¬ ∃ what m, sendPacket h (headerSize + 1) q fd v.net = .error (.raised what) m) := by
  have hisOpen := sendPacket_isOpen (h := h) hq (headerSize + 1) fd v.net
  cases hsend : sendPacket h (headerSize + 1) q fd v.net with
  | ok u m =>
    rw [hsend, final_ok] at hisOpen
    rw [onNet_ok hsend] at hbody
    rw [answered_confirmed hp hbody, final_ok]
    refine ⟨SameRegistry.invariant (w := v) rfl hiv, he.net hisOpen, iff_of_true ?_ (by simp)⟩
    exact (congrFun hisOpen fd).trans hopen
  | error e m =>
    rw [hsend, final_error] at hisOpen
    rw [onNet_error hsend] at hbody
    cases e with
    | raised what =>
      have hsame : SameRegistry v { v with net := m } := rfl
      rw [answered_failed hp hbody, final_ok]
      refine ⟨closed_invariant (SameRegistry.invariant hsame hiv) fd, (he.net hisOpen).closed,
        iff_of_false ?_ (by simp)⟩
      rw [closed_isOpen_self]
      exact Bool.false_ne_true
    | crashed c =>
      rw [answered_crashed hp hbody, final_error]
      refine ⟨SameRegistry.invariant (w := v) rfl hiv, he.net hisOpen, iff_of_true ?_ (by simp)⟩
      exact (congrFun hisOpen fd).trans hopen

theorem answered_enrolled {h : Host} {p : Packet} {username machine command : Text} (hfd : 0 ≤ fd)
    (hi : Invariant w)
    (hp : p.Terminated ∧ p.fields = [command, username, machine] ∧ isValidUsername username = true)
    (hrun : registerSession h (headerSize + 1) fd username machine w = .ok () v) (hiv : Invariant v)
    (he : Enrolled fd w v) (hopen : v.net.isOpen fd = true) :
    Invariant (final (answered h fd p w)) ∧ Enrolled fd w (final (answered h fd p w)) ∧
      ((final (answered h fd p w)).net.isOpen fd = true ↔ ¬ ApprovalRefused h fd username w) := by
  obtain ⟨-, hnet, -⟩ := confirmed_outbox hfd hi hrun
  have hbody : confirmAndApprove h fd username machine w = approve h (headerSize + 1) fd v :=
    run_bind_ok (handleNewSession_ok hrun) _
  rw [ApprovalRefused, ← hnet]
  cases htext : approvalText h fd with
  | none =>
    rw [approve_crashes htext] at hbody
    rw [answered_crashed hp hbody, final_error]
    refine ⟨hiv, he, iff_of_true hopen ?_⟩
    rintro ⟨text, hsome, -⟩
    cases hsome
  | some text =>
    simp only [Option.some.injEq, exists_eq_left']
    by_cases hfits : Packet.Fits text
    · rw [approve_run htext hfits] at hbody
      simp only [hfits, true_imp_iff]
      exact answered_sends rfl hp hbody hiv he hopen
    · obtain ⟨what, hlong⟩ := approve_long (headerSize + 1) htext hfits v
      rw [answered_failed hp (hbody.trans hlong), final_ok]
      refine ⟨closed_invariant hiv fd, he.closed, iff_of_false ?_ fun hno => hno fun hf => (hfits hf).elim⟩
      rw [closed_isOpen_self]
      exact Bool.false_ne_true

theorem answered_outcome {h : Host} {p : Packet} {username machine command : Text} (hfd : 0 ≤ fd)
    (hi : Invariant w) (hopen : w.net.isOpen fd = true)
    (hp : p.Terminated ∧ p.fields = [command, username, machine] ∧ isValidUsername username = true) :
    Invariant (final (answered h fd p w)) ∧
      ((¬ Admitted h (headerSize + 1) fd username w ∧ Dismissed fd w (final (answered h fd p w))) ∨
        (Admitted h (headerSize + 1) fd username w ∧ Enrolled fd w (final (answered h fd p w)) ∧
          ((final (answered h fd p w)).net.isOpen fd = true ↔ ¬ ApprovalRefused h fd username w))) := by
  have hadmitted : Returns (registerSession h (headerSize + 1) fd username machine w) ↔
      Admitted h (headerSize + 1) fd username w := registerSession_returns machine hi.knownUsers
  have hisOpen := registerSession_isOpen hi h (headerSize + 1) fd username machine
  have hiv := registerSession_invariant hi h (headerSize + 1) fd username machine
  rcases registerSession_sockets hi h (headerSize + 1) fd username machine with
    ⟨e, v, hrun, hsockets⟩ | ⟨v, hrun, hsockets⟩
  · rw [hrun] at hadmitted hisOpen hiv
    obtain ⟨hinvariant, hdismissed⟩ :=
      answered_dismissed hp hrun hiv ⟨hsockets, fun fd' _ => congrFun hisOpen fd'⟩
    exact ⟨hinvariant, .inl ⟨fun ha => not_returns_error _ _ (hadmitted.mpr ha), hdismissed⟩⟩
  · rw [hrun] at hadmitted hisOpen hiv
    obtain ⟨hinvariant, henrolled⟩ := answered_enrolled hfd hi hp hrun hiv
      ⟨hsockets, fun fd' _ => congrFun hisOpen fd'⟩ ((congrFun hisOpen fd).trans hopen)
    exact ⟨hinvariant, .inr ⟨hadmitted.mp (returns_ok _ _), henrolled⟩⟩

theorem approvalFails_iff {a : Arrival} {p : Packet} {m : ConnectionManager}
    (hr : receivePacket a.host a.newSocket (connected w a).net = .ok p m) :
    ApprovalFails a w ↔ p.Terminated ∧ p.fields.length = 3 ∧ isValidUsername (usernameOf p) = true ∧
      Admitted a.host (headerSize + 1) a.newSocket (usernameOf p) { connected w a with net := m } ∧
      ApprovalRefused a.host a.newSocket (usernameOf p) { connected w a with net := m } := by
  constructor
  · rintro ⟨p', m', hr', hfails⟩
    cases hr.symm.trans hr'
    exact hfails
  · exact fun hfails => ⟨p, m, hr, hfails⟩

theorem acceptRound_run (a : Arrival) (w : ServerState) :
    acceptRound a w = acceptConnection a.host (headerSize + 1) a.newSocket (connected w a) := rfl

theorem received_dismissed {a : Arrival} {m : ConnectionManager}
    (hm : m.isOpen = (connected w a).net.isOpen) :
    Dismissed a.newSocket w { connected w a with net := m } :=
  ⟨rfl, fun fd' hne => (congrFun hm fd').trans (Function.update_of_ne hne ..)⟩

theorem unreceived_outcome {a : Arrival} {e : Fault Text Crash} {m : ConnectionManager}
    (hi : Invariant w) (hm : m.isOpen = (connected w a).net.isOpen)
    (hr : receivePacket a.host a.newSocket (connected w a).net = .error e m) :
    Invariant (final (acceptRound a w)) ∧ Dismissed a.newSocket w (final (acceptRound a w)) := by
  have hi' : Invariant { connected w a with net := m } := SameRegistry.invariant (w := w) rfl hi
  rw [acceptRound_run]
  cases e with
  | raised what =>
    have hrun : acceptConnection a.host (headerSize + 1) a.newSocket (connected w a) =
        .ok () (closed { connected w a with net := m } a.newSocket) :=
      run_attempt_raised (run_bind_error (onNet_error hr) _) _
    rw [hrun, final_ok]
    exact ⟨closed_invariant hi' a.newSocket, (received_dismissed hm).closed⟩
  | crashed c =>
    have hrun : acceptConnection a.host (headerSize + 1) a.newSocket (connected w a) =
        .error (.crashed c) { connected w a with net := m } :=
      run_attempt_crashed (run_bind_error (onNet_error hr) _) _
    rw [hrun, final_error]
    exact ⟨hi', received_dismissed hm⟩

theorem acceptRound_outcome {a : Arrival} (hfd : 0 ≤ a.newSocket) (hi : Invariant w) :
    Invariant (final (acceptRound a w)) ∧
      ((Dismissed a.newSocket w (final (acceptRound a w)) ∧ ¬ ApprovalFails a w) ∨
        (Enrolled a.newSocket w (final (acceptRound a w)) ∧
          ((final (acceptRound a w)).net.isOpen a.newSocket = true ↔ ¬ ApprovalFails a w))) := by
  have hreceived := receivePacket_isOpen a.host a.newSocket (connected w a).net
  cases hr : receivePacket a.host a.newSocket (connected w a).net with
  | error e m =>
    rw [hr, final_error] at hreceived
    obtain ⟨hiv, hdismissed⟩ := unreceived_outcome hi hreceived hr
    refine ⟨hiv, .inl ⟨hdismissed, ?_⟩⟩
    rintro ⟨p, m', hr', -⟩
    cases hr.symm.trans hr'
  | ok p m =>
    rw [hr, final_ok] at hreceived
    have hi' : Invariant { connected w a with net := m } := SameRegistry.invariant (w := w) rfl hi
    have hdismissed : Dismissed a.newSocket w { connected w a with net := m } :=
      received_dismissed hreceived
    rw [acceptRound_run, acceptConnection_received hr, approvalFails_iff hr]
    by_cases ht : p.Terminated
    · by_cases hvalid : p.fields.length = 3 ∧ isValidUsername (usernameOf p) = true
      · obtain ⟨command, machine, hfields⟩ := fields_valid hvalid.1
        have hnew : m.isOpen a.newSocket = true :=
          (congrFun hreceived a.newSocket).trans (Function.update_self ..)
        obtain ⟨hiv, ⟨hno, hv⟩ | ⟨hyes, hv, happroved⟩⟩ :=
          answered_outcome hfd hi' hnew ⟨ht, hfields, hvalid.2⟩
        · exact ⟨hiv, .inl ⟨hdismissed.trans hv, fun hf => hno hf.2.2.2.1⟩⟩
        · refine ⟨hiv, .inr ⟨hdismissed.enrolled hv, happroved.trans (not_congr ?_)⟩⟩
          exact ⟨fun hf => ⟨ht, hvalid.1, hvalid.2, hyes, hf⟩, fun hf => hf.2.2.2.2⟩
      · rw [answered_invalid ht hvalid, final_ok]
        exact ⟨closed_invariant hi' a.newSocket,
          .inl ⟨hdismissed.closed, fun hf => hvalid ⟨hf.2.1, hf.2.2.1⟩⟩⟩
    · rw [answered_unterminated ht, final_error]
      exact ⟨hi', .inl ⟨hdismissed, fun hf => ht hf.1⟩⟩

theorem acceptRound_owned_iff {a : Arrival} (hfd : 0 ≤ a.newSocket)
    (hnew : w.net.isOpen a.newSocket = false)
    (hi : Invariant w) (ho : SocketsOwned w) :
    SocketsOwned (final (acceptRound a w)) ↔ ApprovalSent a w := by
  obtain ⟨-, ⟨hdismissed, hsent⟩ | ⟨henrolled, hsent⟩⟩ := acceptRound_outcome hfd hi
  · exact iff_of_true (ho.dismissed hnew hdismissed) hsent
  · exact (ho.enrolled hnew henrolled).trans hsent

theorem socketsOwned_empty (he : w.users = []) : SocketsOwned w := by
  have hnone : registeredSockets w = [] := by
    rw [registeredSockets, he]
    rfl
  refine ⟨fun fd hfd => ?_, by rw [hnone]; exact List.nodup_nil⟩
  rw [hnone] at hfd
  cases hfd

theorem acceptReachable_owned (hw : AcceptReachable ApprovalSent w) : Invariant w ∧ SocketsOwned w := by
  induction hw with
  | empty w he => exact ⟨invariant_empty he, socketsOwned_empty he⟩
  | accept w a _ hfd hnew hsent ih =>
    obtain ⟨hi, ho⟩ := ih
    exact ⟨(acceptRound_outcome hfd hi).1, (acceptRound_owned_iff hfd hnew hi ho).mpr hsent⟩

end Round

/-- As long as no second approval fails, every registered session has an open socket and no two have
the same. -/
theorem sockets_owned (w : ServerState) (hw : AcceptReachable ApprovalSent w) : SocketsOwned w :=
  (acceptReachable_owned hw).2

/-! ## A first connection -/

def listeningServer : ServerState :=
  { emptyServer with net := { emptyServer.net with isOpen := fun fd => decide (fd = 3) } }

def firstArrival (h : Host) : Arrival := ⟨h, 4, loginPacket.wire⟩

theorem firstArrival_sent : ApprovalSent (firstArrival pageHost.1) listeningServer := by
  rintro ⟨p, m, -, -, -, -, -, text, htext, hsend⟩
  cases htext.symm.trans (approvalText_inside (by decide) (by decide))
  obtain ⟨what, m', hrefused⟩ := hsend (by decide)
  have hsent (net : ConnectionManager) : Returns (sendPacket pageHost.1 (headerSize + 1)
      (Packet.ofCommand ((txt "login|ok|").drop 4)) 4 net) :=
    ⟨(), _, sendPacket_atOnce rfl rfl rfl (headerSize - 1)⟩
  obtain ⟨u, m'', hok⟩ := hsent _
  cases hok.symm.trans hrefused

theorem firstArrival_owned :
    SocketsOwned (final (acceptRound (firstArrival pageHost.1) listeningServer)) :=
  sockets_owned _ (.accept listeningServer _ (.empty listeningServer rfl)
    (by decide) rfl firstArrival_sent)

/-- Receiving the login and sending the confirmation take four calls. -/
def cutOffHost : Host :=
  { pageHost.1 with selectWrite := fun call _ => if call < 4 then .ready else .timedOut }

theorem cutOff_fails : ApprovalFails (firstArrival cutOffHost) listeningServer := by
  let w := connected listeningServer (firstArrival cutOffHost)
  let m := w.net.tick.tick.take 4 headerSize
  obtain ⟨hterminated, hfields⟩ := loginPacket_fields
  have hinbox : w.net.inbox 4 = headerBytes loginPacket.toHeader := by
    have hwire : loginPacket.wire = headerBytes loginPacket.toHeader := List.append_nil _
    rw [← hwire]
    exact connected_inbox listeningServer (firstArrival cutOffHost)
  have hreceived : receivePacket cutOffHost 4 w.net = .ok loginPacket m :=
    receivePacket_atOnce rfl hinbox rfl rfl
  have hsend : sendPacket cutOffHost (headerSize + 1) (confirmationPacket 0) 4 m = .ok () _ :=
    sendPacket_atOnce rfl rfl rfl (headerSize - 1)
  have hadmitted : Admitted cutOffHost (headerSize + 1) 4 (txt "ana") { w with net := m } := by
    refine ⟨fun u hu => ?_, fun _ => ⟨emptyServer_folder rfl rfl, rfl⟩, ⟨⟨(), _, hsend⟩, rfl, rfl⟩⟩
    cases hu
  have hrefused : ApprovalRefused cutOffHost 4 (txt "ana") { w with net := m } := by
    have hnet : confirmedNet cutOffHost 4 (txt "ana") { w with net := m } = _ := congrArg final hsend
    unfold ApprovalRefused
    generalize confirmedNet cutOffHost 4 (txt "ana") { w with net := m } = m₂ at hnet ⊢
    have hselect : cutOffHost.Refuses m₂ (m₂.socketOf 4) headerSize := by
      rw [socketOf_new (by decide), hnet]
      exact .inl (by decide)
    obtain ⟨what, m', hrun, -⟩ :=
      sendPacket_refused (Packet.ofCommand ((txt "login|ok|").drop 4)) hselect headerSize
    exact ⟨_, approvalText_inside (by decide) (by decide), fun _ => ⟨what, m', hrun⟩⟩
  exact ⟨loginPacket, m, hreceived, hterminated,
    by rw [hfields]; rfl, by rw [loginPacket_username]; decide,
    loginPacket_username ▸ hadmitted, loginPacket_username ▸ hrefused⟩

theorem cutOff_unowned : ¬ ∀ w, AcceptReachable (fun _ _ => True) w → SocketsOwned w := by
  intro hall
  have hreached : AcceptReachable (fun _ _ => True)
      (final (acceptRound (firstArrival cutOffHost) listeningServer)) :=
    .accept listeningServer _ (.empty listeningServer rfl) (by decide) rfl trivial
  have howned := acceptRound_owned_iff (a := firstArrival cutOffHost)
      (by decide) rfl (invariant_empty rfl)
    (socketsOwned_empty (w := listeningServer) rfl)
  exact howned.mp (hall _ hreached) cutOff_fails

end SyncWizard.Properties
