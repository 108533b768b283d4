import Mathlib.Data.Fintype.EquivFin
import SyncWizard.Properties.LoginAgreement

/-! Whether logging out makes room for another login. The limits of `handle_new_session` and of
`add_session` count the sessions on a user's list, which a logout leaves there with its loops
stopped, and from which `remove_session` never takes one. -/

namespace SyncWizard.Properties
open Foundation Common Server

inductive SlotCall where
  | login (h : Host) (fuel : ℕ) (newSocket : ℤ) (username machine : Text)
  | logout (s : SessionId)
  | remove (u : UserId) (sockFd : ℤ) (reason : Text)

def slotCall : SlotCall → ServerExec Unit
  | .login h fuel newSocket username machine => handleNewSession h fuel newSocket username machine
  | .logout s => clientRequestedLogout s
  | .remove u sockFd reason => removeSession u sockFd reason

/-- The states that calls lead to from an empty group when each call is made where `C` allows it; an
exception ends only its own call. -/
inductive SlotReachable (C : SlotCall → ServerState → Prop) : ServerState → Prop where
  | empty (w : ServerState) : w.users = [] → SlotReachable C w
  | call (w : ServerState) (c : SlotCall) : SlotReachable C w → C c w →
      SlotReachable C (final (slotCall c w))

def running (w : ServerState) (s : SessionId) : Bool :=
  (w.session s).runningReceiver || (w.session s).runningSender

def runningCount (w : ServerState) (username : Text) : ℕ :=
  match knownUser w username with
  | some u => (w.user u).sessions.countP (running w)
  | none => 0

def Unused (w : ServerState) (fd : ℤ) : Prop :=
  ∀ u ∈ w.users, ∀ s ∈ (w.user u).sessions, (w.session s).identity.socketFd ≠ fd

structure Supplied (h : Host) (username : Text) (w : ServerState) : Prop where
  sender : h.spawns .sender = true
  receiver : h.spawns .receiver = true
  new : knownUser w username = none →
    FolderReady h w.files (syncDir ++ txt "/" ++ username) ∧ h.spawns .overseer = true

/-- A user with fewer than two running sessions is let in on an unused socket, if the confirmation gets
out and the machine supplies what a session takes. -/
def NextLoginAccepted (w : ServerState) : Prop :=
  ∀ (h : Host) (fuel : ℕ) (fd : ℤ) (username machine : Text),
    runningCount w username < 2 → Unused w fd →
    Returns (sendPacket h fuel (confirmationPacket (sessionCount w username)) fd w.net) →
    (Returns (handleNewSession h fuel fd username machine w) ↔ Supplied h username w)

/-- Only a session that is alone on its list logs out, and a login is admitted only for a user none of
whose sessions has stopped and whose uninitialised limit is not zero. -/
def KeepsSlots : SlotCall → ServerState → Prop
  | .login h fuel newSocket username _, w => Admitted h fuel newSocket username w →
      (∀ u, knownUser w username = some u →
        (w.user u).maxSessions ≠ 0 ∧ ∀ s ∈ (w.user u).sessions, running w s = true) ∧
      (knownUser w username = none → h.uninitialised ≠ 0)
  | .logout s, w => ∀ u ∈ w.users, s ∈ (w.user u).sessions → (w.user u).sessions.length < 2
  | .remove _ _ _, _ => True

structure Slots (w : ServerState) : Prop where
  full : ∀ u ∈ w.users, (w.user u).sessions.length = 2 → ∀ s ∈ (w.user u).sessions, running w s = true
  limited : ∀ u ∈ w.users, (w.user u).sessions ≠ [] → (w.user u).maxSessions ≠ 0

section Steps
variable {w w' : ServerState}

theorem handleNewSession_returns {h : Host} {fuel : ℕ} {fd : ℤ} {username machine : Text} :
    Returns (handleNewSession h fuel fd username machine w) ↔
      Returns (registerSession h fuel fd username machine w) := by
  constructor
  · rintro ⟨u, v, hr⟩
    cases hrun : registerSession h fuel fd username machine w with
    | ok u v => exact returns_ok _ _
    | error e v =>
      cases e with
      | raised what =>
        rw [handleNewSession, run_attempt_raised hrun] at hr
        cases hr
      | crashed c =>
        rw [handleNewSession, run_attempt_crashed hrun] at hr
        cases hr
  · exact fun hr => hr.attempt _

/-- No session is ever removed: one that is there is reported as missing, and one that is not cannot
be found. -/
theorem removeSession_raises (u : UserId) (fd : ℤ) (reason : Text) (w : ServerState) :
    ∃ what, removeSession u fd reason w = .error (.raised what) w := by
  have hnotFound : ∀ ss : List SessionId, (∀ s ∈ ss, (w.session s).identity.socketFd ≠ fd) →
      ∃ what, removeFrom u fd reason ss w = .error (.raised what) w := by
    intro ss
    induction ss with
    | nil => exact fun _ => ⟨_, rfl⟩
    | cons s ss ih =>
      intro hss
      obtain ⟨what, hrest⟩ := ih fun t ht => hss t (List.mem_cons_of_mem s ht)
      have hsocket : getSocketFd s w = .ok (w.session s).identity.socketFd w := rfl
      refine ⟨what, ?_⟩
      rw [removeFrom, run_bind_ok hsocket, if_neg (hss s List.mem_cons_self)]
      exact hrest
  rw [removeSession, run_bind_ok (getSession_run u fd w)]
  cases hfind : (w.user u).sessions.find? fun s => (w.session s).identity.socketFd = fd with
  | some s => exact ⟨_, rfl⟩
  | none =>
    exact hnotFound _ fun s hs => of_decide_eq_false
      (Bool.eq_false_iff.mpr (List.find?_eq_none.mp hfind s hs))

theorem knownUser_mem {username : Text} {u : UserId} (hk : knownUser w username = some u) :
    u ∈ w.users ∧ (w.user u).username = username :=
  ⟨List.mem_of_find?_eq_some hk, by simpa using List.find?_some hk⟩

theorem knownUser_eq (hi : Invariant w) {u : UserId} (hu : u ∈ w.users) :
    knownUser w (w.user u).username = some u := by
  cases hk : knownUser w (w.user u).username with
  | none => exact absurd (decide_eq_true rfl) (List.find?_eq_none.mp hk u hu)
  | some v =>
    obtain ⟨hv, hname⟩ := knownUser_mem hk
    rw [List.inj_on_of_nodup_map hi.names hv hu hname]

theorem SameRegistry.slots (hs : SameRegistry w w') (hw : Slots w) : Slots w' := by
  rw [hs]
  exact ⟨hw.full, hw.limited⟩

theorem load_slots (hi : Invariant w) (hw : Slots w) {v : User}
    (hv : v.sessions = []) : Slots (w.load v) := by
  have hcases {u : UserId} (hu : u ∈ (w.load v).users) :
      (u ∈ w.users ∧ (w.load v).user u = w.user u) ∨ ((w.load v).user u).sessions = [] := by
    rw [ServerState.load, List.mem_append, List.mem_singleton] at hu
    rcases hu with hu | rfl
    · exact .inl ⟨hu, load_user_old v (Nat.ne_of_lt (hi.knownUsers u hu))⟩
    · exact .inr (by rw [load_user_new, hv])
  refine ⟨fun u hu hlen => ?_, fun u hu hne => ?_⟩
  · rcases hcases hu with ⟨hu, hold⟩ | hnil
    · rw [hold] at hlen ⊢
      exact hw.full u hu hlen
    · rw [hnil] at hlen
      cases hlen
  · rcases hcases hu with ⟨hu, hold⟩ | hnil
    · rw [hold] at hne ⊢
      exact hw.limited u hu hne
    · exact absurd hnil hne

theorem stop_identity (w : ServerState) (s t : SessionId) :
    ((w.stop s).session t).identity = (w.session t).identity := by
  by_cases ht : t = s
  · subst ht
    have hself : (w.stop t).session t =
        { w.session t with runningSender := false, runningReceiver := false } :=
      Function.update_self ..
    rw [hself]
  · have hother : (w.stop s).session t = w.session t := Function.update_of_ne ht ..
    rw [hother]

theorem stop_knownUser (w : ServerState) (s : SessionId) (username : Text) :
    knownUser (w.stop s) username = knownUser w username := rfl

theorem stop_unused {fd : ℤ} (hw : Unused w fd) (s : SessionId) : Unused (w.stop s) fd := by
  intro u hu t ht
  rw [stop_identity]
  exact hw u hu t ht

theorem stop_runningCount {u : UserId} {username : Text} (hk : knownUser w username = some u)
    (s : SessionId) : runningCount (w.stop s) username ≤ (w.user u).sessions.length := by
  rw [runningCount, stop_knownUser, hk]
  exact List.countP_le_length

theorem stop_invariant (hi : Invariant w) (s : SessionId) : Invariant (w.stop s) := by
  refine invariant_of hi.names hi.knownUsers fun u hu =>
    ⟨hi.limit u hu, ?_, fun t ht => ?_, hi.knownSessions u hu⟩
  · simp only [stop_identity]
    exact hi.sockets u hu
  · rw [stop_identity]
    exact hi.holders u hu t ht

theorem allocate_running (hi : Invariant w) (me : Identity) {u : UserId}
    (hu : u ∈ w.users) {s : SessionId}
    (hs : s ∈ (w.user u).sessions) : running (w.allocate me) s = running w s := by
  rw [running, running, allocate_session_old me (hi.knownSessions u hu s hs)]

theorem allocate_slots (hi : Invariant w) (hw : Slots w) (me : Identity) : Slots (w.allocate me) where
  full u hu hlen s hs := (allocate_running hi me hu hs).trans (hw.full u hu hlen s hs)
  limited := hw.limited

structure Ready (h : Host) (username : Text) (w : ServerState) : Prop where
  slots : Slots w
  known : ∀ u ∈ w.users, (w.user u).username = username →
    (w.user u).maxSessions ≠ 0 ∧ ∀ s ∈ (w.user u).sessions, running w s = true
  new : (∀ u ∈ w.users, (w.user u).username ≠ username) → h.uninitialised ≠ 0

theorem SameRegistry.ready {h : Host} {username : Text} (hs : SameRegistry w w')
    (hw : Ready h username w) :
    Ready h username w' := by
  have hslots := SameRegistry.slots hs hw.slots
  rw [hs] at hslots ⊢
  exact ⟨hslots, hw.known, hw.new⟩

theorem load_ready {h : Host} (hi : Invariant w) {v : User} (hw : Ready h v.username w)
    (hunknown : ∀ u ∈ w.users, (w.user u).username ≠ v.username) (hv : v.sessions = [])
    (hmax : v.maxSessions = h.uninitialised) : Ready h v.username (w.load v) := by
  have hnew : w.nextUser ∈ (w.load v).users := List.mem_append_right _ (List.mem_singleton_self _)
  refine ⟨load_slots hi hw.slots hv, fun u hu hname => ?_, fun hnone => ?_⟩
  · rw [ServerState.load, List.mem_append, List.mem_singleton] at hu
    rcases hu with hu | rfl
    · rw [load_user_old v (Nat.ne_of_lt (hi.knownUsers u hu))] at hname
      exact absurd hname (hunknown u hu)
    · rw [load_user_new, hmax, hv]
      exact ⟨hw.new hunknown, fun s hs => by cases hs⟩
  · exact absurd (by rw [load_user_new]) (hnone w.nextUser hnew)

theorem append_slots {h : Host} (hi : Invariant w) {u : UserId} (hu : u ∈ w.users)
    (hw : Ready h (w.user u).username w) (me : Identity) :
    Slots ((w.allocate me).appendSession u w.nextSession) := by
  have hallocated := allocate_slots hi hw.slots me
  have hself := appendSession_user_self (w := w.allocate me) u w.nextSession
  have hrunning (s : SessionId) : running ((w.allocate me).appendSession u w.nextSession) s =
      running (w.allocate me) s := rfl
  obtain ⟨hmax, hall⟩ := hw.known u hu rfl
  refine ⟨fun v hv hlen s hs => ?_, fun v hv hne => ?_⟩
  · rw [hrunning]
    rcases eq_or_ne v u with rfl | hvu
    · rw [hself, List.mem_append, List.mem_singleton] at hs
      rcases hs with hs | rfl
      · exact (allocate_running hi me hu hs).trans (hall s hs)
      · have hnew : (w.allocate me).session w.nextSession = ⟨me, [], fun _ => none, true, true⟩ :=
          Function.update_self ..
        rw [running, hnew]
        rfl
    · rw [appendSession_user_ne _ hvu] at hlen hs
      exact hallocated.full v hv hlen s hs
  · rcases eq_or_ne v u with rfl | hvu
    · rw [hself]
      exact hmax
    · rw [appendSession_user_ne _ hvu] at hne ⊢
      exact hallocated.limited v hv hne

theorem login_slots (hi : Invariant w) (hw : Slots w) {h : Host} {fuel : ℕ} {fd : ℤ}
    {username machine : Text}
    (hk : KeepsSlots (.login h fuel fd username machine) w) :
    Slots (final (handleNewSession h fuel fd username machine w)) := by
  rw [handleNewSession_final]
  by_cases ha : Admitted h fuel fd username w
  · obtain ⟨hknown, hnew⟩ := hk ha
    have hready : Ready h username w := by
      refine ⟨hw, fun u hu hname => ?_, fun hnone => hnew ?_⟩
      · exact hknown u (hname ▸ knownUser_eq hi hu)
      · exact List.find?_eq_none.mpr fun u hu => by simpa using hnone u hu
    have hload (v : ServerState) (c : User) (hiv : Invariant v) (hv : Ready h username v)
        (hunknown : ∀ u ∈ v.users, (v.user u).username ≠ username) (hname : c.username = username)
        (hsessions : c.sessions = []) (hmax : c.maxSessions = h.uninitialised) :
          Ready h username (v.load c) := by
      rw [← hname] at hv hunknown ⊢
      exact load_ready hiv hv hunknown hsessions hmax
    have hadd (v : ServerState) (u : UserId) (me : Identity) (hiv : Invariant v)
        (hv : Ready h username v)
        (hu : u ∈ v.users) (hname : (v.user u).username = username) :
        Slots ((v.allocate me).appendSession u v.nextSession) := by
      rw [← hname] at hv
      exact append_slots hiv hu hv me
    have hstages := registerSession_stages (P := Ready h username) (E := Slots) (Q := Slots) h fuel fd
      username machine hi hready (fun v v' hv hs => SameRegistry.ready hs hv) hload
      (fun v hv => hv.slots) (fun v u hiv hv => allocate_slots hiv hv.slots _)
      (fun v u hiv hv hu hname _ _ => hadd v u _ hiv hv hu hname)
    rcases hstages with ⟨e, v, hrun, hv⟩ | ⟨v, hrun, hv⟩
    · rw [hrun]
      exact hv
    · rw [hrun]
      exact hv
  · have hstages := registerSession_stages (P := Slots) (E := Slots) (Q := fun _ => True) h fuel
      fd username machine hi hw
      (fun v v' hv hs => SameRegistry.slots hs hv)
      (fun v c hiv hv _ _ hsessions _ => load_slots hiv hv hsessions)
      (fun v hv => hv) (fun v u hiv hv => allocate_slots hiv hv _) (fun _ _ _ _ _ _ _ _ => trivial)
    rcases hstages with ⟨e, v, hrun, hv⟩ | ⟨v, hrun, -⟩
    · rw [hrun]
      exact hv
    · exact absurd ((registerSession_returns machine hi.knownUsers).mp ⟨(), v, hrun⟩) ha

theorem logout_slots (hw : Slots w) {s : SessionId}
    (hk : KeepsSlots (.logout s) w) : Slots (w.stop s) := by
  refine ⟨fun u hu hlen t ht => ?_, hw.limited⟩
  have hne : t ≠ s := by
    rintro rfl
    have hfew : (w.user u).sessions.length < 2 := hk u hu ht
    exact absurd hlen (Nat.ne_of_lt hfew)
  have hother : (w.stop s).session t = w.session t := Function.update_of_ne hne ..
  rw [running, hother]
  exact hw.full u hu hlen t ht

theorem slotReachable_slots (hw : SlotReachable KeepsSlots w) : Invariant w ∧ Slots w := by
  induction hw with
  | empty w he =>
    refine ⟨invariant_empty he, fun u hu => ?_, fun u hu => ?_⟩
    all_goals rw [he] at hu; cases hu
  | call w c _ hc ih =>
    obtain ⟨hi, hs⟩ := ih
    cases c with
    | login h fuel fd username machine =>
      exact ⟨(handleNewSession_step hi h fuel fd username machine).1, login_slots hi hs hc⟩
    | logout s => exact ⟨stop_invariant hi s, logout_slots hs hc⟩
    | remove u fd reason =>
      obtain ⟨what, hraise⟩ := removeSession_raises u fd reason w
      rw [slotCall, hraise]
      exact ⟨hi, hs⟩

structure HasSessions (username : Text) (ss : List SessionId) (s : SessionId) (w : ServerState) :
    Prop where
  next : w.nextSession = s
  known : ∀ u ∈ w.users, (w.user u).username = username → (w.user u).sessions = ss
  new : (∀ u ∈ w.users, (w.user u).username ≠ username) → ss = []

section Listing
variable {username : Text} {ss : List SessionId} {s : SessionId}

theorem SameRegistry.hasSessions (hs : SameRegistry w w') (hw : HasSessions username ss s w) :
    HasSessions username ss s w' := by
  rw [hs]
  exact ⟨hw.next, hw.known, hw.new⟩

theorem load_hasSessions (hi : Invariant w) (hw : HasSessions username ss s w) {v : User}
    (hunknown : ∀ u ∈ w.users, (w.user u).username ≠ username) (hv : v.sessions = []) :
    HasSessions username ss s (w.load v) := by
  refine ⟨hw.next, fun u hu hname => ?_, fun _ => hw.new hunknown⟩
  rw [ServerState.load, List.mem_append, List.mem_singleton] at hu
  rcases hu with hu | rfl
  · rw [load_user_old v (Nat.ne_of_lt (hi.knownUsers u hu))] at hname
    exact absurd hname (hunknown u hu)
  · rw [load_user_new, hv, hw.new hunknown]

theorem append_hasSessions (hw : HasSessions username ss s w) (me : Identity) {u : UserId}
    (hu : u ∈ w.users) (hname : (w.user u).username = username) :
    ∃ v ∈ ((w.allocate me).appendSession u w.nextSession).users,
      (((w.allocate me).appendSession u w.nextSession).user v).username = username ∧
      (((w.allocate me).appendSession u w.nextSession).user v).sessions = ss ++ [s] := by
  refine ⟨u, hu, ?_, ?_⟩
  · rw [appendSession_user_self]
    exact hname
  · rw [appendSession_user_self, ← hw.known u hu hname, ← hw.next]
    rfl

theorem login_listed (hi : Invariant w) (hw : HasSessions username ss s w) {h : Host} {fuel : ℕ}
    {fd : ℤ} {machine : Text} (hr : handleNewSession h fuel fd username machine w = .ok () w') :
    ∃ u ∈ w'.users, (w'.user u).username = username ∧ (w'.user u).sessions = ss ++ [s] := by
  obtain ⟨_, v, hrun⟩ := handleNewSession_returns.mp ⟨(), w', hr⟩
  cases hr.symm.trans (handleNewSession_ok hrun)
  have hstages := registerSession_stages (P := HasSessions username ss s) (E := fun _ => True)
    (Q := fun v => ∃ u ∈ v.users, (v.user u).username = username ∧ (v.user u).sessions = ss ++ [s])
    h fuel fd username machine hi hw (fun v v' hv hs => SameRegistry.hasSessions hs hv)
    (fun v c hiv hv hunknown _ hsessions _ => load_hasSessions hiv hv hunknown hsessions)
    (fun _ _ => trivial) (fun _ _ _ _ => trivial)
    (fun v u _ hv hu hname _ _ => append_hasSessions hv _ hu hname)
  rcases hstages with ⟨e, v', hrun', -⟩ | ⟨v', hrun', hv⟩
  · cases hrun.symm.trans hrun'
  · cases hrun.symm.trans hrun'
    exact hv

end Listing

/-! ## The next login -/

theorem belowLimit_of_few {v : User} (hlen : v.sessions.length < 2)
    (hmax : v.sessions ≠ [] → v.maxSessions ≠ 0) : belowLimit v = true := by
  rw [belowLimit]
  cases hsessions : v.sessions with
  | nil => exact decide_eq_true (Nat.zero_le _)
  | cons s ss =>
    have hone : ss = [] := by
      rw [hsessions, List.length_cons] at hlen
      exact List.length_eq_zero_iff.mp (by omega)
    have hpos : (v.maxSessions.signExtend 64).toNat ≠ 0 := by
      intro hzero
      have hextended : v.maxSessions.signExtend 64 = 0 := BitVec.eq_of_toNat_eq hzero
      have hint := BitVec.toInt_signExtend_of_le (x := v.maxSessions) (show 32 ≤ 64 by decide)
      rw [hextended] at hint
      exact hmax (by rw [hsessions]; exact List.cons_ne_nil s ss) (BitVec.eq_of_toInt_eq hint.symm)
    rw [hone]
    refine decide_eq_true ?_
    exact Nat.one_le_iff_ne_zero.mpr hpos

theorem accepted_of_slots (hi : Invariant w) (hs : Slots w) : NextLoginAccepted w := by
  intro h fuel fd username machine hfew hunused hsent
  rw [handleNewSession_returns, registerSession_returns machine hi.knownUsers]
  constructor
  · exact fun ha => ⟨ha.startable.sender, ha.startable.receiver, ha.new⟩
  · intro hsupplied
    refine ⟨fun u hk => ?_, hsupplied.new, ⟨hsent, hsupplied.sender, hsupplied.receiver⟩⟩
    obtain ⟨hu, -⟩ := knownUser_mem hk
    rw [runningCount, hk] at hfew
    have hlen : (w.user u).sessions.length < 2 := by
      refine lt_of_le_of_ne (hi.limit u hu) fun hfull => ?_
      have hcount := List.countP_eq_length.mpr (hs.full u hu hfull)
      exact absurd (hcount.trans hfull) (Nat.ne_of_lt hfew)
    exact ⟨hlen, hunused u hu, belowLimit_of_few hlen (hs.limited u hu)⟩

theorem exists_unused (w : ServerState) : ∃ fd, Unused w fd := by
  let sockets := w.users.flatMap fun u => (w.user u).sessions.map fun s =>
      (w.session s).identity.socketFd
  obtain ⟨fd, hfd⟩ := Infinite.exists_notMem_finset sockets.toFinset
  refine ⟨fd, fun u hu s hs heq => hfd ?_⟩
  rw [List.mem_toFinset]
  exact List.mem_flatMap.mpr ⟨u, hu, List.mem_map.mpr ⟨s, hs, heq⟩⟩

theorem not_accepted_of_full (hi : Invariant w) {u : UserId} (hu : u ∈ w.users) {s : SessionId}
    (hfull : (w.user u).sessions.length = 2) (hs : s ∈ (w.user u).sessions)
    (hstopped : running w s = false) :
    ¬ NextLoginAccepted w := by
  intro haccepted
  have hk := knownUser_eq hi hu
  obtain ⟨fd, hunused⟩ := exists_unused w
  have hfew : runningCount w (w.user u).username < 2 := by
    rw [runningCount, hk, ← hfull]
    refine lt_of_le_of_ne List.countP_le_length fun hall => ?_
    rw [List.countP_eq_length.mp hall s hs] at hstopped
    cases hstopped
  have hsent : Returns (sendPacket pageHost.1 2
      (confirmationPacket (sessionCount w (w.user u).username)) fd w.net) :=
    ⟨(), _, sendPacket_atOnce rfl rfl rfl 0⟩
  have hsupplied : Supplied pageHost.1 (w.user u).username w :=
    ⟨rfl, rfl, fun hnone => absurd (hk.symm.trans hnone) (Option.some_ne_none u)⟩
  have hreturns := (haccepted pageHost.1 2 fd _ [] hfew hunused hsent).mpr hsupplied
  rw [handleNewSession_returns, registerSession_returns [] hi.knownUsers] at hreturns
  have hroom := (hreturns.known u hk).few
  exact absurd hfull (Nat.ne_of_lt hroom)

theorem not_accepted_after_logout (hi : Invariant w) {u : UserId} (hu : u ∈ w.users) {s : SessionId}
    (hfull : (w.user u).sessions.length = 2) (hs : s ∈ (w.user u).sessions) :
    ¬ NextLoginAccepted (w.stop s) := by
  have hself : (w.stop s).session s =
      { w.session s with runningSender := false, runningReceiver := false } :=
    Function.update_self ..
  refine not_accepted_of_full (stop_invariant hi s) (u := u) hu hfull hs ?_
  rw [running, hself]
  rfl

/-! ## A first login -/

structure FirstLogin (fd : ℤ) (username : Text) (s : SessionId) (w : ServerState) : Prop where
  registry : Invariant w
  slots : Slots w
  listed : ∃ u ∈ w.users, (w.user u).username = username ∧ (w.user u).sessions = [s]
  only : ∀ u ∈ w.users, (w.user u).sessions = [s] ∨ (w.user u).sessions = []
  socket : (w.session s).identity.socketFd = fd

theorem keepsSlots_first {h : Host} (hw : w.users = []) (hlimit : h.uninitialised ≠ 0) (fuel : ℕ)
    (fd : ℤ) (username machine : Text) : KeepsSlots (.login h fuel fd username machine) w := by
  refine fun _ => ⟨fun u hk => ?_, fun _ => hlimit⟩
  have hu := (knownUser_mem hk).1
  rw [hw] at hu
  cases hu

theorem slots_empty (hw : w.users = []) : Slots w := by
  constructor <;>
  · intro u hu
    rw [hw] at hu
    cases hu

section First
variable {h : Host} {fuel : ℕ} {fd : ℤ} {username machine : Text} {s : SessionId}

theorem firstLogin (hw : w.users = []) (hlimit : h.uninitialised ≠ 0)
    (hr : handleNewSession h fuel fd username machine w = .ok () w') :
    FirstLogin fd username w.nextSession w' := by
  have hi := invariant_empty hw
  have hnew : HasSessions username [] w.nextSession w := by
    refine ⟨rfl, fun u hu => ?_, fun _ => rfl⟩
    rw [hw] at hu
    cases hu
  obtain ⟨u, hu, hname, hsessions⟩ := login_listed hi hnew hr
  have hslots := login_slots hi (slots_empty hw) (keepsSlots_first hw hlimit fuel fd username machine)
  rw [hr, final_ok] at hslots
  obtain ⟨hregistry, v, t, hsocket, hself, hother⟩ : Invariant w' ∧ ∃ v t,
      (w'.session t).identity.socketFd = fd ∧ sessionsOf w' v = sessionsOf w v ++ [t] ∧
        ∀ x, x ≠ v → sessionsOf w' x = sessionsOf w x := by
    rcases registerSession_step hi h fuel fd username machine with
      ⟨e, v, hrun, -⟩ | ⟨v, hrun, hiv, u, s, -, -, hsocket, hself, hother⟩
    · obtain ⟨e', hfailed⟩ := handleNewSession_error hrun
      cases hr.symm.trans hfailed
    · cases hr.symm.trans (handleNewSession_ok hrun)
      exact ⟨hiv, u, s, hsocket, hself, hother⟩
  have hnone (x : UserId) : sessionsOf w x = [] := by
    rw [sessionsOf, hw]
    exact if_neg List.not_mem_nil
  have hlists {x : UserId} (hx : x ∈ w'.users) :
      (w'.user x).sessions = [t] ∨ (w'.user x).sessions = [] := by
    have hlisted : sessionsOf w' x = (w'.user x).sessions := if_pos hx
    rw [← hlisted]
    rcases eq_or_ne x v with rfl | hne
    · exact .inl (by rw [hself, hnone, List.nil_append])
    · exact .inr ((hother x hne).trans (hnone x))
  obtain rfl : t = w.nextSession := by
    rcases hlists hu with ht | ht
    · exact (List.singleton_inj.mp (hsessions.symm.trans ht)).symm
    · exact absurd (hsessions.symm.trans ht) (List.cons_ne_nil _ _)
  exact ⟨hregistry, hslots, ⟨u, hu, hname, hsessions⟩, fun x hx => hlists hx, hsocket⟩

theorem SameRegistry.firstLogin (hs : SameRegistry w w') (hf : FirstLogin fd username s w) :
    FirstLogin fd username s w' := by
  have hregistry := SameRegistry.invariant hs hf.registry
  have hslots := SameRegistry.slots hs hf.slots
  rw [hs] at hregistry hslots ⊢
  exact ⟨hregistry, hslots, hf.listed, hf.only, hf.socket⟩

theorem FirstLogin.unused {fd' : ℤ} (hf : FirstLogin fd username s w) (hne : fd ≠ fd') :
    Unused w fd' := by
  intro u hu t ht
  rcases hf.only u hu with hone | hnone
  · rw [hone, List.mem_singleton] at ht
    rw [ht, hf.socket]
    exact hne
  · rw [hnone] at ht
    cases ht

theorem FirstLogin.known (hf : FirstLogin fd username s w) :
    ∃ u, knownUser w username = some u ∧ (w.user u).sessions = [s] := by
  obtain ⟨u, hu, hname, hsessions⟩ := hf.listed
  exact ⟨u, hname ▸ knownUser_eq hf.registry hu, hsessions⟩

theorem FirstLogin.few (hf : FirstLogin fd username s w) : runningCount w username < 2 := by
  obtain ⟨u, hk, hsessions⟩ := hf.known
  rw [runningCount, hk]
  refine lt_of_le_of_lt List.countP_le_length ?_
  rw [hsessions]
  exact Nat.one_lt_two

theorem FirstLogin.supplied (hf : FirstLogin fd username s w) (hsender : h.spawns .sender = true)
    (hreceiver : h.spawns .receiver = true) : Supplied h username w := by
  obtain ⟨u, hk, -⟩ := hf.known
  exact ⟨hsender, hreceiver, fun hnone => absurd (hk.symm.trans hnone) (Option.some_ne_none u)⟩

theorem FirstLogin.leaves (hf : FirstLogin fd username s w) (t : SessionId) :
    KeepsSlots (.logout t) w := by
  intro u hu _
  rcases hf.only u hu with hone | hnone
  · rw [hone]
    exact Nat.one_lt_two
  · rw [hnone]
    exact Nat.zero_lt_two

end First

end Steps

/-- Where every login and logout keeps the slots, whoever has fewer than two running sessions can
log in once more. -/
theorem slots_freed (w : ServerState) (hw : SlotReachable KeepsSlots w) : NextLoginAccepted w := by
  obtain ⟨hi, hs⟩ := slotReachable_slots hw
  exact accepted_of_slots hi hs

/-! ## Two devices, and one that leaves -/

def limitedHost : Host := { pageHost.1 with uninitialised := 2 }

def loginOnLaptop : SlotCall := .login limitedHost 2 4 (txt "ana") (txt "laptop")

def loginOnDesktop : SlotCall := .login limitedHost 2 5 (txt "ana") (txt "desktop")

def onLaptop : ServerState := final (slotCall loginOnLaptop emptyServer)

def onBoth : ServerState := final (slotCall loginOnDesktop onLaptop)

theorem limitedHost_sends (n : ℕ) (fd : ℤ) (m : ConnectionManager) :
    Returns (sendPacket limitedHost 2 (confirmationPacket n) fd m) :=
      ⟨(), _, sendPacket_atOnce rfl rfl rfl 0⟩

theorem slotCall_ok {c : SlotCall} {w : ServerState} (hr : Returns (slotCall c w)) :
    slotCall c w = .ok () (final (slotCall c w)) := by
  obtain ⟨_, v, hv⟩ := hr
  rw [hv]
  rfl

theorem loginOnLaptop_run : slotCall loginOnLaptop emptyServer = .ok () onLaptop := by
  have haccepted := accepted_of_slots (invariant_empty rfl) (slots_empty (w := emptyServer) rfl)
  refine slotCall_ok ((haccepted limitedHost 2 4 _ _ (by decide) (fun _ hu => by cases hu)
    (limitedHost_sends _ _ _)).mpr ?_)
  exact ⟨rfl, rfl, fun _ => ⟨emptyServer_folder rfl rfl, rfl⟩⟩

theorem onLaptop_first : FirstLogin 4 (txt "ana") 0 onLaptop :=
  firstLogin (w := emptyServer) rfl (show limitedHost.uninitialised ≠ 0 by decide) loginOnLaptop_run

theorem onBoth_listed :
    ∃ u ∈ onBoth.users, (onBoth.user u).sessions.length = 2 ∧ 0 ∈ (onBoth.user u).sessions := by
  have hfirst := onLaptop_first
  have hi := hfirst.registry
  have hrun : slotCall loginOnDesktop onLaptop = .ok () onBoth :=
    slotCall_ok ((accepted_of_slots hi hfirst.slots limitedHost 2 5 _ _ hfirst.few
      (hfirst.unused (by decide)) (limitedHost_sends _ _ _)).mpr (hfirst.supplied rfl rfl))
  obtain ⟨u, hu, hname, hsessions⟩ := hfirst.listed
  have hone : HasSessions (txt "ana") [0] onLaptop.nextSession onLaptop := by
    refine ⟨rfl, fun u' hu' hname' => ?_, fun hnone => absurd hname (hnone u hu)⟩
    rw [List.inj_on_of_nodup_map hi.names hu' hu (hname'.trans hname.symm), hsessions]
  obtain ⟨u', hu', -, hboth⟩ := login_listed hi hone hrun
  refine ⟨u', hu', ?_, ?_⟩
  · rw [hboth]
    rfl
  · rw [hboth]
    exact List.mem_cons_self

def loggedOut : ServerState := onLaptop.stop 0

/-- In and out on one device, and in again on another. -/
theorem loggedOut_accepted :
    NextLoginAccepted loggedOut ∧ Returns (slotCall loginOnDesktop loggedOut) := by
  have hfirst := onLaptop_first
  have haccepted : NextLoginAccepted loggedOut :=
    slots_freed loggedOut (SlotReachable.call onLaptop (.logout 0) (.call emptyServer loginOnLaptop
      (.empty emptyServer rfl) (keepsSlots_first rfl (show limitedHost.uninitialised ≠ 0 by decide) _ _ _ _))
      (hfirst.leaves 0))
  obtain ⟨u, hk, hsessions⟩ := hfirst.known
  have hfew : runningCount loggedOut (txt "ana") < 2 := by
    refine lt_of_le_of_lt (stop_runningCount hk 0) ?_
    rw [hsessions]
    exact Nat.one_lt_two
  have hsupplied : Supplied limitedHost (txt "ana") loggedOut := by
    refine ⟨rfl, rfl, fun hnone => ?_⟩
    rw [loggedOut, stop_knownUser, hk] at hnone
    cases hnone
  have hlogin := haccepted limitedHost 2 5 (txt "ana") (txt "desktop") hfew
    (stop_unused (hfirst.unused (by decide)) 0) (limitedHost_sends _ _ _)
  exact ⟨haccepted, hlogin.mpr hsupplied⟩

theorem logout_keeps_slot : ¬ ∀ w, SlotReachable (fun _ _ => True) w → NextLoginAccepted w := by
  intro hall
  have hlaptop : SlotReachable (fun _ _ => True) onLaptop :=
    .call emptyServer loginOnLaptop (.empty emptyServer rfl) trivial
  have hboth : SlotReachable (fun _ _ => True) onBoth := .call onLaptop loginOnDesktop hlaptop trivial
  have hreached : SlotReachable (fun _ _ => True) (onBoth.stop 0) :=
    .call onBoth (.logout 0) hboth trivial
  have hi : Invariant onBoth := (handleNewSession_step onLaptop_first.registry _ _ _ _ _).1
  obtain ⟨u, hu, hfull, hlisted⟩ := onBoth_listed
  exact not_accepted_after_logout hi hu hfull hlisted (hall _ hreached)

end SyncWizard.Properties
