import SyncWizard.Server.Registry

/-! The registry of users and sessions over every sequence of logins and unloads, each on a host
of its own, so that any step of any login may fail. Two checks in `handle_new_session` carry the
invariant; what `load_user` and `add_session` let through themselves does not matter. -/

namespace SyncWizard.Properties
open Foundation Common Server

inductive RegistryCall where
  | login (h : Host) (fuel : ℕ) (newSocket : ℤ) (username machine : Text)
  | unload (username : Text)

def registryCall : RegistryCall → ServerExec Unit
  | .login h fuel newSocket username machine => handleNewSession h fuel newSocket username machine
  | .unload username => unloadUser username

/-- The states that calls lead to from an empty group; an exception ends only its own call. -/
inductive Reachable : ServerState → Prop where
  | empty (w : ServerState) : w.users = [] → Reachable w
  | call (w : ServerState) (c : RegistryCall) : Reachable w → Reachable (final (registryCall c w))

def sessionsOf (w : ServerState) (u : UserId) : List SessionId :=
  if u ∈ w.users then (w.user u).sessions else []

structure Consistent (w : ServerState) : Prop where
  names : (w.users.map fun u => (w.user u).username).Nodup
  limit : ∀ u ∈ w.users, (w.user u).sessions.length ≤ 2
  sockets : ∀ u ∈ w.users, ((w.user u).sessions.map fun s => (w.session s).identity.socketFd).Nodup
  holders : ∀ u ∈ w.users, ∀ s ∈ (w.user u).sessions,
    (w.session s).identity.username = (w.user u).username

/-- One session more at the end of the list of the user of that name, or no list changed. -/
def AppendsAtMostOne (username : Text) (w w' : ServerState) : Prop :=
  (∃ u s, u ∈ w'.users ∧ (w'.user u).username = username ∧
      sessionsOf w' u = sessionsOf w u ++ [s] ∧ ∀ v, v ≠ u → sessionsOf w' v = sessionsOf w v) ∨
    ∀ v, sessionsOf w' v = sessionsOf w v

def Appends (fd : ℤ) (username : Text) (w w' : ServerState) : Prop :=
  ∃ u s, u ∈ w'.users ∧ (w'.user u).username = username ∧ (w'.session s).identity.socketFd = fd ∧
    sessionsOf w' u = sessionsOf w u ++ [s] ∧ ∀ v, v ≠ u → sessionsOf w' v = sessionsOf w v

structure Invariant (w : ServerState) : Prop extends Consistent w where
  knownUsers : ∀ u ∈ w.users, u < w.nextUser
  knownSessions : ∀ u ∈ w.users, ∀ s ∈ (w.user u).sessions, s < w.nextSession

structure Holding (session : SessionId → ClientSession)
    (nextSession : SessionId) (v : User) : Prop where
  limit : v.sessions.length ≤ 2
  sockets : (v.sessions.map fun s => (session s).identity.socketFd).Nodup
  holders : ∀ s ∈ v.sessions, (session s).identity.username = v.username
  known : ∀ s ∈ v.sessions, s < nextSession

section Steps
variable {w w' : ServerState}

theorem invariant_empty (h : w.users = []) : Invariant w := by
  have hnone {u : UserId} (hu : u ∈ w.users) : False := by
    rw [h] at hu
    cases hu
  exact ⟨⟨by rw [h]; exact List.nodup_nil, fun _ hu => (hnone hu).elim, fun _ hu => (hnone hu).elim,
    fun _ hu => (hnone hu).elim⟩, fun _ hu => (hnone hu).elim, fun _ hu => (hnone hu).elim⟩

theorem Invariant.holding (hi : Invariant w) {u : UserId} (hu : u ∈ w.users) :
    Holding w.session w.nextSession (w.user u) :=
  ⟨hi.limit u hu, hi.sockets u hu, hi.holders u hu, hi.knownSessions u hu⟩

theorem invariant_of (hnames : (w.users.map fun u => (w.user u).username).Nodup)
    (hknown : ∀ u ∈ w.users, u < w.nextUser)
    (hh : ∀ u ∈ w.users, Holding w.session w.nextSession (w.user u)) : Invariant w :=
  ⟨⟨hnames, fun u hu => (hh u hu).limit, fun u hu => (hh u hu).sockets, fun u hu => (hh u hu).holders⟩,
    hknown, fun u hu => (hh u hu).known⟩

theorem holding_nil {v : User} (hv : v.sessions = []) : Holding w.session w.nextSession v := by
  have hnone {s : SessionId} (hs : s ∈ v.sessions) : False := by
    rw [hv] at hs
    cases hs
  refine ⟨?_, ?_, fun s hs => (hnone hs).elim, fun s hs => (hnone hs).elim⟩
  · rw [hv]
    exact Nat.zero_le 2
  · rw [hv]
    exact List.nodup_nil

theorem SameRegistry.invariant (hs : SameRegistry w w') (hi : Invariant w) : Invariant w' := by
  rw [hs]
  exact ⟨⟨hi.names, hi.limit, hi.sockets, hi.holders⟩, hi.knownUsers, hi.knownSessions⟩

theorem SameRegistry.sessionsOf (hs : SameRegistry w w') (u : UserId) :
    sessionsOf w' u = Properties.sessionsOf w u := by
  rw [hs]
  rfl

/-! ## Loading and unloading a user -/

theorem load_user_old (v : User) {u : UserId} (hu : u ≠ w.nextUser) : (w.load v).user u = w.user u :=
  Function.update_of_ne hu ..

theorem load_user_new (v : User) : (w.load v).user w.nextUser = v := Function.update_self ..

theorem load_sessionsOf (hi : Invariant w) {v : User} (hv : v.sessions = []) (u : UserId) :
    sessionsOf (w.load v) u = sessionsOf w u := by
  have hmem : u ∈ (w.load v).users ↔ u ∈ w.users ∨ u = w.nextUser := by
    rw [ServerState.load, List.mem_append, List.mem_singleton]
  rcases eq_or_ne u w.nextUser with rfl | hne
  · have hnew : w.nextUser ∉ w.users := fun h => absurd (hi.knownUsers _ h) (lt_irrefl _)
    rw [sessionsOf, sessionsOf, if_pos (hmem.mpr (.inr rfl)), if_neg hnew, load_user_new, hv]
  · simp only [sessionsOf, hmem, hne, or_false, load_user_old v hne]

theorem load_invariant (hi : Invariant w) {v : User} (hv : v.sessions = [])
    (hnew : ∀ u ∈ w.users, (w.user u).username ≠ v.username) : Invariant (w.load v) := by
  have hold {u : UserId} (hu : u ∈ w.users) : (w.load v).user u = w.user u :=
    load_user_old v (Nat.ne_of_lt (hi.knownUsers u hu))
  have hcases {u : UserId} (hu : u ∈ (w.load v).users) : u ∈ w.users ∨ u = w.nextUser := by
    rwa [ServerState.load, List.mem_append, List.mem_singleton] at hu
  have hnames : (w.load v).users.map (fun u => ((w.load v).user u).username) =
      (w.users.map fun u => (w.user u).username) ++ [v.username] := by
    rw [show (w.load v).users = w.users ++ [w.nextUser] from rfl, List.map_append, List.map_singleton,
      load_user_new]
    exact congrArg (· ++ [v.username]) (List.map_congr_left fun u hu => by rw [hold hu])
  refine invariant_of ?_ (fun u hu => ?_) fun u hu => ?_
  · rw [hnames, List.nodup_append]
    refine ⟨hi.names, List.nodup_singleton _, fun a ha b hb => ?_⟩
    obtain ⟨u, hu, rfl⟩ := List.mem_map.mp ha
    rw [List.mem_singleton.mp hb]
    exact hnew u hu
  · rcases hcases hu with hu | rfl
    · exact Nat.lt_succ_of_lt (hi.knownUsers u hu)
    · exact Nat.lt_succ_self _
  · rcases hcases hu with hu | rfl
    · rw [hold hu]
      exact hi.holding hu
    · rw [load_user_new]
      exact holding_nil hv

theorem unload_invariant (hi : Invariant w) (username : Text) : Invariant (w.unload username) := by
  have hsub : (w.unload username).users.Sublist w.users := List.eraseP_sublist
  have hmem {u : UserId} (hu : u ∈ (w.unload username).users) : u ∈ w.users := hsub.mem hu
  exact ⟨⟨hi.names.sublist (hsub.map _), fun u hu => hi.limit u (hmem hu),
    fun u hu => hi.sockets u (hmem hu), fun u hu => hi.holders u (hmem hu)⟩,
    fun u hu => hi.knownUsers u (hmem hu), fun u hu => hi.knownSessions u (hmem hu)⟩

/-! ## A new session -/

theorem allocate_session_old (me : Identity) {s : SessionId} (hs : s < w.nextSession) :
    (w.allocate me).session s = w.session s := Function.update_of_ne (Nat.ne_of_lt hs) ..

theorem allocate_identity_new (me : Identity) :
    ((w.allocate me).session w.nextSession).identity = me := by
  have hnew : (w.allocate me).session w.nextSession = ⟨me, [], fun _ => none, true, true⟩ :=
    Function.update_self ..
  rw [hnew]

theorem Holding.allocate {v : User} (hh : Holding w.session w.nextSession v) (me : Identity) :
    Holding (w.allocate me).session (w.allocate me).nextSession v := by
  have hold {s : SessionId} (hs : s ∈ v.sessions) : (w.allocate me).session s = w.session s :=
    allocate_session_old me (hh.known s hs)
  refine ⟨hh.limit, ?_, fun s hs => ?_, fun s hs => Nat.lt_succ_of_lt (hh.known s hs)⟩
  · have hsame : (v.sessions.map fun s => ((w.allocate me).session s).identity.socketFd) =
        v.sessions.map fun s => (w.session s).identity.socketFd :=
      List.map_congr_left fun s hs => by rw [hold hs]
    rw [hsame]
    exact hh.sockets
  · rw [hold hs]
    exact hh.holders s hs

theorem allocate_invariant (hi : Invariant w) (me : Identity) : Invariant (w.allocate me) :=
  invariant_of hi.names hi.knownUsers fun _ hu => (hi.holding hu).allocate me

theorem Holding.append {v : User} (hh : Holding w.session w.nextSession v) {me : Identity}
    (hlen : v.sessions.length < 2)
    (hfree : ∀ s ∈ v.sessions, (w.session s).identity.socketFd ≠ me.socketFd)
    (hname : me.username = v.username) :
    Holding (w.allocate me).session (w.allocate me).nextSession
      { v with sessions := v.sessions ++ [w.nextSession] } := by
  have hh' := hh.allocate me
  have hnew := allocate_identity_new (w := w) me
  have hsessions {s : SessionId} (hs : s ∈ v.sessions ++ [w.nextSession]) :
      s ∈ v.sessions ∨ s = w.nextSession := by
    rwa [List.mem_append, List.mem_singleton] at hs
  refine ⟨?_, ?_, fun s hs => ?_, fun s hs => ?_⟩
  · rw [List.length_append, List.length_singleton]
    exact hlen
  · rw [List.map_append, List.nodup_append]
    refine ⟨hh'.sockets, List.nodup_singleton _, fun a ha b hb => ?_⟩
    obtain ⟨s, hs, rfl⟩ := List.mem_map.mp ha
    rw [List.map_singleton, List.mem_singleton, hnew] at hb
    rw [hb, allocate_session_old me (hh.known s hs)]
    exact hfree s hs
  · rcases hsessions hs with hs | rfl
    · exact hh'.holders s hs
    · exact (congrArg Identity.username hnew).trans hname
  · rcases hsessions hs with hs | rfl
    · exact hh'.known s hs
    · exact Nat.lt_succ_self _

theorem appendSession_user_self (u : UserId) (s : SessionId) :
    (w.appendSession u s).user u = { w.user u with sessions := (w.user u).sessions ++ [s] } :=
  Function.update_self ..

theorem appendSession_user_ne {u v : UserId} (s : SessionId) (hv : v ≠ u) :
    (w.appendSession u s).user v = w.user v := Function.update_of_ne hv ..

theorem append_invariant (hi : Invariant w) {u : UserId} (hu : u ∈ w.users) {me : Identity}
    (hlen : (w.user u).sessions.length < 2)
    (hfree : ∀ s ∈ (w.user u).sessions, (w.session s).identity.socketFd ≠ me.socketFd)
    (hname : me.username = (w.user u).username) :
    Invariant ((w.allocate me).appendSession u w.nextSession) := by
  have hself := appendSession_user_self (w := w.allocate me) u w.nextSession
  refine invariant_of ?_ hi.knownUsers fun v hv => ?_
  · have hsame : (fun v => (((w.allocate me).appendSession u w.nextSession).user v).username) =
        fun v => (w.user v).username := by
      funext v
      rcases eq_or_ne v u with rfl | hne
      · rw [hself]
        rfl
      · rw [appendSession_user_ne _ hne]
        rfl
    exact hsame ▸ hi.names
  · rcases eq_or_ne v u with rfl | hne
    · rw [hself]
      exact (hi.holding hu).append hlen hfree hname
    · rw [appendSession_user_ne _ hne]
      exact (hi.holding hv).allocate me

theorem append_appendsOne {u : UserId} (hu : u ∈ w.users) (me : Identity) (s : SessionId) :
    sessionsOf ((w.allocate me).appendSession u s) u = sessionsOf w u ++ [s] ∧
      ∀ v, v ≠ u → sessionsOf ((w.allocate me).appendSession u s) v = sessionsOf w v := by
  have hmem (v : UserId) : v ∈ ((w.allocate me).appendSession u s).users ↔ v ∈ w.users := Iff.rfl
  refine ⟨?_, fun v hv => ?_⟩
  · rw [sessionsOf, sessionsOf, if_pos ((hmem u).mpr hu), if_pos hu, appendSession_user_self]
    rfl
  · simp only [sessionsOf, hmem, appendSession_user_ne s hv]
    rfl

/-! ## One login -/

/-- What a login does in stages. `P` holds until a session is made, `E` where the login fails, `Q` where
the session has been added to the list of its user. -/
theorem registerSession_stages {P E Q : ServerState → Prop} (h : Host) (fuel : ℕ) (fd : ℤ)
    (username machine : Text) (hi : Invariant w) (hw : P w)
    (hsame : ∀ v v', P v → SameRegistry v v' → P v')
    (hload : ∀ v c, Invariant v → P v → (∀ u ∈ v.users, (v.user u).username ≠ username) →
      c.username = username → c.sessions = [] → c.maxSessions = h.uninitialised → P (v.load c))
    (hfail : ∀ v, P v → E v)
    (hlost : ∀ v u, Invariant v → P v → E (v.allocate (registeredAs fd username machine u)))
    (hadd : ∀ v u, Invariant v → P v → u ∈ v.users → (v.user u).username = username →
      (v.user u).sessions.length < 2 →
      (∀ s ∈ (v.user u).sessions, (v.session s).identity.socketFd ≠ fd) →
      Q ((v.allocate (registeredAs fd username machine u)).appendSession u v.nextSession)) :
    (∃ e v, registerSession h fuel fd username machine w = .error e v ∧ E v) ∨
      ∃ v, registerSession h fuel fd username machine w = .ok () v ∧ Q v := by
  have hlogin {v : ServerState} {u : UserId} (hiv : Invariant v) (hv : P v) (hu : u ∈ v.users)
      (hname : (v.user u).username = username) :
      (∃ e v', loginOf h fuel fd username machine u v = .error e v' ∧ E v') ∨
        ∃ v', loginOf h fuel fd username machine u v = .ok () v' ∧ Q v' := by
    rcases loginOf_cases (h := h) fuel fd username machine u v with
      ⟨e, v', hrun, hout | ⟨v₁, hout, rfl⟩⟩ | ⟨hlen, hfree, v', hv', hrun⟩
    · exact .inl ⟨e, v', hrun, hfail _ (hsame _ _ hv hout)⟩
    · exact .inl ⟨e, _, hrun, hlost v₁ u (SameRegistry.invariant hout hiv) (hsame _ _ hv hout)⟩
    · have huser : v'.user = v.user := by rw [hv']
      have hsession : v'.session = v.session := by rw [hv']
      refine .inr ⟨_, hrun, hadd v' u (SameRegistry.invariant hv' hiv) (hsame _ _ hv hv') ?_ ?_ ?_ ?_⟩
      · rwa [hv']
      · rwa [huser]
      · rwa [huser]
      · rwa [huser, hsession]
  rw [registerSession]
  rcases userOf_cases (h := h) username hi.knownUsers with
    ⟨u, hu, hname, hrun⟩ |
      ⟨hnew, ⟨e, v, -, hsame', hrun⟩ | ⟨v, c, hmade, hsame', hname, hsessions, hrun⟩⟩
  · rw [run_bind_ok hrun]
    exact hlogin hi hw hu hname
  · exact .inl ⟨e, v, run_bind_error hrun _, hfail _ (hsame _ _ hw hsame')⟩
  · rw [run_bind_ok hrun]
    have hiv := SameRegistry.invariant hsame' hi
    have hunknown : ∀ u ∈ v.users, (v.user u).username ≠ username := by
      rw [hsame']
      exact hnew
    obtain ⟨-, -, hmax⟩ := newUser_yields ⟨w, v, hmade⟩
    refine hlogin (load_invariant hiv hsessions (hname ▸ hunknown))
      (hload v c hiv (hsame _ _ hw hsame') hunknown hname hsessions hmax) ?_ ?_
    · exact List.mem_append_right _ (List.mem_singleton_self _)
    · rw [load_user_new, hname]

def KeptLists (w v : ServerState) : Prop := Invariant v ∧ ∀ x, sessionsOf v x = sessionsOf w x

theorem KeptLists.same {v v' : ServerState} (hv : KeptLists w v) (hs : SameRegistry v v') :
    KeptLists w v' :=
  ⟨SameRegistry.invariant hs hv.1, fun x => (SameRegistry.sessionsOf hs x).trans (hv.2 x)⟩

theorem KeptLists.load {v : ServerState} {c : User} (hv : KeptLists w v) (hsessions : c.sessions = [])
    (hunknown : ∀ u ∈ v.users, (v.user u).username ≠ c.username) : KeptLists w (v.load c) :=
  ⟨load_invariant hv.1 hsessions hunknown, fun x => (load_sessionsOf hv.1 hsessions x).trans (hv.2 x)⟩

theorem append_appends {v : ServerState} (hv : KeptLists w v) {u : UserId} (hu : u ∈ v.users)
    {fd : ℤ} {username : Text} (machine : Text) (hname : (v.user u).username = username)
    (hlen : (v.user u).sessions.length < 2)
    (hfree : ∀ s ∈ (v.user u).sessions, (v.session s).identity.socketFd ≠ fd) :
    Invariant ((v.allocate (registeredAs fd username machine u)).appendSession u v.nextSession) ∧
      Appends fd username w
        ((v.allocate (registeredAs fd username machine u)).appendSession u v.nextSession) := by
  obtain ⟨hself, hother⟩ := append_appendsOne hu (registeredAs fd username machine u) v.nextSession
  refine ⟨append_invariant hv.1 hu hlen hfree hname.symm, u, v.nextSession, hu, ?_, ?_, ?_, ?_⟩
  · rw [appendSession_user_self]
    exact hname
  · exact congrArg Identity.socketFd (allocate_identity_new (w := v) _)
  · rw [hself, hv.2 u]
  · intro x hx
    rw [hother x hx, hv.2 x]

theorem registerSession_step (hi : Invariant w) (h : Host) (fuel : ℕ) (fd : ℤ)
    (username machine : Text) :
    (∃ e v, registerSession h fuel fd username machine w = .error e v ∧ Invariant v ∧
        ∀ x, sessionsOf v x = sessionsOf w x) ∨
      ∃ v, registerSession h fuel fd username machine w = .ok () v ∧ Invariant v ∧
        Appends fd username w v := by
  apply registerSession_stages h fuel fd username machine hi (P := KeptLists w) ⟨hi, fun _ => rfl⟩
  · exact fun v v' hv hs => hv.same hs
  · exact fun v c _ hv hunknown hname hc _ => hv.load hc (hname ▸ hunknown)
  · exact fun v hv => hv
  · exact fun v u hiv hv => ⟨allocate_invariant hiv _, hv.2⟩
  · exact fun v u _ hv hu hname hlen hfree => append_appends hv hu machine hname hlen hfree

theorem registerSession_invariant (hi : Invariant w) (h : Host) (fuel : ℕ) (fd : ℤ)
    (username machine : Text) : Invariant (final (registerSession h fuel fd username machine w)) := by
  rcases registerSession_step hi h fuel fd username machine with
    ⟨e, v, hrun, hiv, -⟩ | ⟨v, hrun, hiv, -⟩
  · rw [hrun]
    exact hiv
  · rw [hrun]
    exact hiv

theorem handleNewSession_step (hi : Invariant w) (h : Host) (fuel : ℕ) (fd : ℤ)
    (username machine : Text) :
    let w' := final (handleNewSession h fuel fd username machine w)
    Invariant w' ∧ AppendsAtMostOne username w w' := by
  intro w'
  have hfinal : w' = final (registerSession h fuel fd username machine w) :=
    handleNewSession_final fuel fd username machine w
  rw [hfinal]
  rcases registerSession_step hi h fuel fd username machine with
    ⟨e, v, hrun, hiv, hlists⟩ | ⟨v, hrun, hiv, u, s, hu, hun, -, hself, hother⟩
  · rw [hrun]
    exact ⟨hiv, .inr hlists⟩
  · rw [hrun]
    exact ⟨hiv, .inl ⟨u, s, hu, hun, hself, hother⟩⟩

end Steps

theorem reachable_invariant {w : ServerState} (hw : Reachable w) : Invariant w := by
  induction hw with
  | empty w he => exact invariant_empty he
  | call w c _ ih =>
    cases c with
    | login h fuel fd username machine => exact (handleNewSession_step ih h fuel fd username machine).1
    | unload username => exact unload_invariant ih username

/-- The registry is consistent in every reachable state, and a login there changes at most the
list of its own user, by one session at the end. -/
theorem reachable_registry {w : ServerState} (hw : Reachable w) :
    Consistent w ∧ ∀ h fuel fd username machine,
      AppendsAtMostOne username w (final (handleNewSession h fuel fd username machine w)) :=
  ⟨(reachable_invariant hw).toConsistent, fun h fuel fd username machine =>
    (handleNewSession_step (reachable_invariant hw) h fuel fd username machine).2⟩

theorem reachable_registry_first :
    let w := final (registryCall (.login pageHost.1 2000 4 (txt "ana") (txt "laptop"))
      (ServerState.init ⟨3, 0, fun _ => [], fun _ => [], fun _ => true⟩ ⟨[], ∅, []⟩))
    Consistent w ∧ ∀ h fuel fd username machine,
      AppendsAtMostOne username w (final (handleNewSession h fuel fd username machine w)) :=
  reachable_registry (.call _ _ (.empty _ rfl))

end SyncWizard.Properties
