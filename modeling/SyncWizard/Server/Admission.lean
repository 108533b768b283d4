import SyncWizard.Common.Storage
import SyncWizard.Common.Transfer
import SyncWizard.Server.Registry

/-! When a login is admitted, and what it sends: the conditions on the machine, the files and the
registry under which `handle_new_session` comes to its end. -/

namespace SyncWizard.Server
open Foundation Common

def confirmationPacket (activeSessions : ℕ) : Packet :=
  Packet.init.withCommand (Packet.commandArray (confirmation activeSessions))

def knownUser (w : ServerState) (username : Text) : Option UserId :=
  w.users.find? fun u => (w.user u).username = username

def sessionCount (w : ServerState) (username : Text) : ℕ :=
  match knownUser w username with
  | some u => (w.user u).sessions.length
  | none => 0

def FolderReady (h : Host) (f : FileSystem) (path : Text) : Prop :=
  h.statError path = none ∧ ((f.lookup path).isSome ∨ FileSystem.Makes h f path)

structure Room (fd : ℤ) (w : ServerState) (v : User) : Prop where
  few : v.sessions.length < 2
  free : ∀ s ∈ v.sessions, (w.session s).identity.socketFd ≠ fd
  below : belowLimit v = true

structure Startable (h : Host) (fuel : ℕ) (fd : ℤ) (activeSessions : ℕ)
    (m : ConnectionManager) : Prop where
  sent : Returns (sendPacket h fuel (confirmationPacket activeSessions) fd m)
  sender : h.spawns .sender = true
  receiver : h.spawns .receiver = true

structure Admitted (h : Host) (fuel : ℕ) (fd : ℤ) (username : Text) (w : ServerState) : Prop where
  known : ∀ u, knownUser w username = some u → Room fd w (w.user u)
  new : knownUser w username = none →
    FolderReady h w.files (syncDir ++ txt "/" ++ username) ∧ h.spawns .overseer = true
  startable : Startable h fuel fd (sessionCount w username) w.net

section Steps
variable {h : Host} {fuel : ℕ} {fd : ℤ} {username machine : Text} {u : UserId} {n : ℕ} {w : ServerState}

theorem confirmation_fits (hn : n < 2) : Packet.Fits (confirmation n) := by
  obtain rfl | rfl : n = 0 ∨ n = 1 := by omega
  all_goals decide

theorem prepareFolder_run (username path : Text) :
    Returns (prepareFolder h username path w) ↔ FolderReady h w.files path := by
  rw [prepareFolder, FolderReady]
  cases hs : h.statError path with
  | some what =>
    have hvalid : onFiles (isValidPath h path) w =
        .error (.raised what) { w with files := w.files.record .test path } := by
      refine onFiles_error ?_
      simp only [isValidPath, hs]
    rw [run_bind_error hvalid]
    refine iff_of_false (not_returns_error _ _) ?_
    rintro ⟨hnone, -⟩
    cases hnone
  | none =>
    let w₁ : ServerState := { w with files := w.files.record .test path }
    have hvalid : onFiles (isValidPath h path) w = .ok (w.files.lookup path).isSome w₁ :=
      onFiles_ok (FileSystem.isValidPath_run hs)
    have hmakes : FileSystem.Makes h w₁.files path ↔ FileSystem.Makes h w.files path :=
      ⟨fun hm => ⟨hm.allowed, hm.noFile, hm.new⟩, fun hm => ⟨hm.allowed, hm.noFile, hm.new⟩⟩
    rw [run_bind_ok hvalid]
    by_cases hl : (w.files.lookup path).isSome
    · rw [if_pos hl]
      exact iff_of_true (returns_ok _ _) ⟨rfl, .inl hl⟩
    · rw [if_neg hl, returns_bind_iff, ← hmakes, ← FileSystem.createDirectory_iff]
      constructor
      · rintro ⟨made, t, hmade, hrest⟩
        obtain ⟨g, hg⟩ := onFiles_inv hmade
        cases made with
        | true => exact ⟨rfl, .inr ⟨g, hg⟩⟩
        | false => exact absurd hrest (not_returns_error _ _)
      · rintro ⟨-, hl' | ⟨g, hg⟩⟩
        · exact absurd hl' hl
        · exact ⟨true, _, onFiles_ok hg, returns_ok _ _⟩

theorem startThread_returns {worker : Worker} :
    Returns (startThread h worker w) ↔ h.spawns worker = true := by
  unfold startThread
  split_ifs with hs
  · exact iff_of_true (returns_ok _ _) hs
  · exact iff_of_false (not_returns_error _ _) hs

theorem startThread_run {worker : Worker} (hs : h.spawns worker = true) :
    startThread h worker w = .ok () w := by
  rw [startThread, if_pos hs]
  rfl

/-! ## A session for a user -/

theorem addSession_returns {s : SessionId} : Returns (addSession u s w) ↔
    belowLimit (w.user u) = true := by
  rw [addSession, run_bind_ok (run_get w)]
  split_ifs with hlimit
  · exact iff_of_true (returns_ok _ _) hlimit
  · exact iff_of_false (not_returns_error _ _) hlimit

theorem newSession_run (identity : Identity) (hs : h.spawns .sender = true)
    (hr : h.spawns .receiver = true) :
    newSession h identity w = .ok w.nextSession (w.allocate identity) := by
  rw [newSession, run_bind_ok (startThread_run hs), if_pos hr]
  rfl

theorem newSession_inv {identity : Identity} {s : SessionId} {w' : ServerState}
    (hrun : newSession h identity w = .ok s w') :
    h.spawns .sender = true ∧ h.spawns .receiver = true ∧ w' = w.allocate identity := by
  obtain ⟨_, w₁, hsender, hreceiver⟩ := run_bind_inv hrun
  have hs : h.spawns .sender = true := startThread_returns.mp ⟨_, _, hsender⟩
  by_cases hr : h.spawns .receiver = true
  · rw [newSession_run identity hs hr] at hrun
    cases hrun
    exact ⟨hs, hr, rfl⟩
  · rw [if_neg hr] at hreceiver
    cases hreceiver

theorem openSession_returns (hn : n < 2) :
    Returns (openSession h fuel fd username machine u n w) ↔
      Startable h fuel fd n w.net ∧ belowLimit (w.user u) = true := by
  rw [openSession, run_bind_ok (Packet.setCommand_fits (confirmation_fits hn) w), returns_bind_iff]
  constructor
  · rintro ⟨_, w₁, hsent, hrest⟩
    obtain ⟨m, hm, rfl⟩ := run_zoom_inv hsent
    obtain ⟨s, w₂, hsession, hadd⟩ := returns_bind_iff.mp hrest
    obtain ⟨hs, hr, rfl⟩ := newSession_inv hsession
    have hlimit := addSession_returns.mp hadd
    exact ⟨⟨⟨_, m, hm⟩, hs, hr⟩, hlimit⟩
  · rintro ⟨⟨⟨_, m, hm⟩, hs, hr⟩, hlimit⟩
    let w₁ : ServerState := { w with net := m }
    have hadd : Returns (addSession u w.nextSession
        (w₁.allocate (registeredAs fd username machine u))) :=
      addSession_returns.mpr hlimit
    refine ⟨_, w₁, onNet_ok hm, ?_⟩
    rwa [run_bind_ok (newSession_run _ hs hr)]

theorem newSession_net (identity : Identity) (w : ServerState) :
    (final (newSession h identity w)).net = w.net := by
  unfold newSession startThread
  split_ifs <;> rfl

theorem addSession_net (s : SessionId) (w : ServerState) : (final (addSession u s w)).net = w.net := by
  rw [addSession, run_bind_ok (run_get w)]
  split_ifs <;> rfl

theorem openSession_net (hn : n < 2) :
    (final (openSession h fuel fd username machine u n w)).net =
      final (sendPacket h fuel (confirmationPacket n) fd w.net) := by
  rw [openSession, run_bind_ok (Packet.setCommand_fits (confirmation_fits hn) w)]
  change (final ((onNet (sendPacket h fuel (confirmationPacket n) fd) >>= fun _ => do
    let s ← newSession h (registeredAs fd username machine u)
    addSession u s) w)).net = _
  cases hr : sendPacket h fuel (confirmationPacket n) fd w.net with
  | error e m =>
    rw [run_bind_error (onNet_error hr)]
    rfl
  | ok _ m =>
    rw [run_bind_ok (onNet_ok hr)]
    have hsession := newSession_net (h := h) (registeredAs fd username machine u) { w with net := m }
    cases hs : newSession h (registeredAs fd username machine u) { w with net := m } with
    | error e v =>
      rw [hs] at hsession
      rw [run_bind_error hs]
      exact hsession
    | ok s v =>
      rw [hs] at hsession
      rw [run_bind_ok hs, addSession_net]
      exact hsession

theorem loginOf_returns : Returns (loginOf h fuel fd username machine u w) ↔
    Room fd w (w.user u) ∧ Startable h fuel fd (w.user u).sessions.length w.net := by
  rcases loginOf_tests (h := h) fuel fd username machine u w with
    ⟨e, hrun, hno⟩ | ⟨⟨hlen, hnone⟩, hrun⟩
  · rw [hrun]
    refine iff_of_false (not_returns_error _ _) ?_
    rintro ⟨hroom, -⟩
    exact hno ⟨hroom.few, hroom.free⟩
  · rw [hrun, openSession_returns hlen]
    constructor
    · rintro ⟨hstart, hlimit⟩
      exact ⟨⟨hlen, hnone, hlimit⟩, hstart⟩
    · rintro ⟨hroom, hstart⟩
      exact ⟨hstart, hroom.below⟩

theorem loginOf_net (h : Host) (fuel : ℕ) (fd : ℤ) (username machine : Text)
    (u : UserId) (w : ServerState) :
    (∃ e, loginOf h fuel fd username machine u w = .error e w) ∨
    (w.user u).sessions.length < 2 ∧ (final (loginOf h fuel fd username machine u w)).net =
      final (sendPacket h fuel (confirmationPacket (w.user u).sessions.length) fd w.net) := by
  rcases loginOf_tests (h := h) fuel fd username machine u w with ⟨e, hrun, -⟩ | ⟨⟨hlen, -⟩, hrun⟩
  · exact .inl ⟨e, hrun⟩
  · rw [hrun]
    exact .inr ⟨hlen, openSession_net hlen⟩

/-! ## The user of a login -/

theorem userOf_known (hk : knownUser w username = some u) : userOf h username w = .ok u w := by
  rw [userOf, run_bind_ok (getUser_run username w), show w.users.find? _ = some u from hk]
  rfl

theorem newUser_returns (h : Host) (username homeDir : Text) (w : ServerState) :
    Returns (newUser h username homeDir w) ↔
      FolderReady h w.files (homeDir ++ txt "/" ++ username) ∧ h.spawns .overseer = true := by
  rw [newUser, returns_bind_iff, ← prepareFolder_run username]
  constructor
  · rintro ⟨_, w₁, hfolder, hrest⟩
    obtain ⟨_, w₂, hthread, -⟩ := returns_bind_iff.mp hrest
    exact ⟨⟨_, w₁, hfolder⟩, startThread_returns.mp ⟨_, w₂, hthread⟩⟩
  · rintro ⟨⟨_, w₁, hfolder⟩, hthread⟩
    refine ⟨_, w₁, hfolder, ?_⟩
    rw [run_bind_ok (startThread_run hthread)]
    exact returns_ok _ _

def SameNet (w w' : ServerState) : Prop := w'.net = w.net

instance : Std.Refl SameNet := ⟨fun _ => rfl⟩

instance : IsTrans ServerState SameNet := ⟨fun _ _ _ h₁ h₂ => h₂.trans h₁⟩

theorem onFiles_sameNet {α : Type} (p : Exec FileSystem α) : Kept SameNet (onFiles p) := by
  intro w
  unfold onFiles zoom
  cases p w.files <;> rfl

theorem newUser_sameNet (h : Host) (username homeDir : Text) :
    Kept SameNet (newUser h username homeDir) := by
  refine Kept.bind (Kept.bind (onFiles_sameNet _) fun found => ?_) fun _ =>
    Kept.bind ?_ fun _ => Kept.pure _
  · split_ifs
    · exact Kept.pure _
    · refine Kept.bind (onFiles_sameNet _) fun created => ?_
      split_ifs
      exacts [Kept.pure _, Kept.raise _]
  · unfold startThread
    split_ifs
    exacts [Kept.pure _, Kept.raise _]

theorem userOf_new (hfresh : ∀ u ∈ w.users, u < w.nextUser) (hk : knownUser w username = none) :
    (∃ (v : ServerState) (c : User), userOf h username w = .ok v.nextUser (v.load c) ∧
        v.net = w.net ∧ c.sessions = [] ∧
        FolderReady h w.files (syncDir ++ txt "/" ++ username) ∧ h.spawns .overseer = true) ∨
      ∃ e v, userOf h username w = .error e v ∧ v.net = w.net ∧
        ¬ (FolderReady h w.files (syncDir ++ txt "/" ++ username) ∧ h.spawns .overseer = true) := by
  have hreturns := newUser_returns h username syncDir w
  have hnet := newUser_sameNet h username syncDir w
  rcases userOf_cases (h := h) username hfresh with
    ⟨u, hu, hname, -⟩ | ⟨-, ⟨e, v, hnew, -, hrun⟩ | ⟨v, c, hnew, -, -, hsessions, hrun⟩⟩
  · exact absurd (decide_eq_true hname) (List.find?_eq_none.mp hk u hu)
  · rw [hnew] at hreturns hnet
    exact .inr ⟨e, v, hrun, hnet, fun hready => not_returns_error _ _ (hreturns.mpr hready)⟩
  · rw [hnew] at hreturns hnet
    exact .inl ⟨v, c, hrun, hnet, hsessions, hreturns.mp (returns_ok _ _)⟩

/-! ## A whole login -/

theorem load_user (v : ServerState) (c : User) : (v.load c).user v.nextUser = c :=
  Function.update_self ..

theorem room_of_new {v : User} (hv : v.sessions = []) : Room fd w v := by
  refine ⟨by rw [hv]; exact Nat.zero_lt_two, fun s hs => ?_, ?_⟩
  · rw [hv] at hs
    cases hs
  · rw [belowLimit, hv]
    exact decide_eq_true (Nat.zero_le _)

variable (machine) in
theorem registerSession_returns (hfresh : ∀ u ∈ w.users, u < w.nextUser) :
    Returns (registerSession h fuel fd username machine w) ↔ Admitted h fuel fd username w := by
  rw [registerSession]
  cases hk : knownUser w username with
  | some u =>
    have hcount : sessionCount w username = (w.user u).sessions.length := by rw [sessionCount, hk]
    rw [run_bind_ok (userOf_known hk), loginOf_returns, ← hcount]
    constructor
    · rintro ⟨hroom, hstart⟩
      exact ⟨fun v hv => Option.some.inj (hk.symm.trans hv) ▸ hroom,
        fun hn => absurd (hk.symm.trans hn) (Option.some_ne_none u), hstart⟩
    · exact fun ha => ⟨ha.known u hk, ha.startable⟩
  | none =>
    have hcount : sessionCount w username = 0 := by rw [sessionCount, hk]
    rcases userOf_new (h := h) hfresh
        hk with ⟨v, c, hrun, hnet, hsessions, hready⟩ | ⟨e, v, hrun, -, hno⟩
    · have hroom : Room fd (v.load c) ((v.load c).user v.nextUser) := by
        rw [load_user]
        exact room_of_new hsessions
      have hstart : Startable h fuel fd ((v.load c).user v.nextUser).sessions.length (v.load c).net ↔
          Startable h fuel fd (sessionCount w username) w.net := by
        rw [load_user, hsessions, hcount, show (v.load c).net = w.net from hnet]
        exact Iff.rfl
      rw [run_bind_ok hrun, loginOf_returns, hstart]
      constructor
      · rintro ⟨-, hs⟩
        exact ⟨fun u hu => absurd (hu.symm.trans hk) (Option.some_ne_none u), fun _ => hready, hs⟩
      · exact fun ha => ⟨hroom, ha.startable⟩
    · rw [run_bind_error hrun]
      exact iff_of_false (not_returns_error _ _) fun ha => hno (ha.new hk)

variable (h fuel fd username machine) in
theorem registerSession_net (hfresh : ∀ u ∈ w.users, u < w.nextUser) :
    (∃ e v, registerSession h fuel fd username machine w = .error e v ∧ v.net = w.net) ∨
      sessionCount w username < 2 ∧ (final (registerSession h fuel fd username machine w)).net =
        final (sendPacket h fuel (confirmationPacket (sessionCount w username)) fd w.net) := by
  rw [registerSession]
  cases hk : knownUser w username with
  | some u =>
    have hcount : sessionCount w username = (w.user u).sessions.length := by rw [sessionCount, hk]
    rw [run_bind_ok (userOf_known hk), hcount]
    rcases loginOf_net h fuel fd username machine u w with ⟨e, hrun⟩ | hsent
    exacts [.inl ⟨e, w, hrun, rfl⟩, .inr hsent]
  | none =>
    have hcount : sessionCount w username = 0 := by rw [sessionCount, hk]
    rcases userOf_new (h := h) hfresh hk with ⟨v, c, hrun, hnet, hsessions, -⟩ | ⟨e, v, hrun, hnet, -⟩
    · rw [run_bind_ok hrun, hcount]
      have hlogin := loginOf_net h fuel fd username machine v.nextUser (v.load c)
      rw [load_user, hsessions, show (v.load c).net = w.net from hnet] at hlogin
      rcases hlogin with ⟨e, hrun'⟩ | hsent
      exacts [.inl ⟨e, _, hrun', hnet⟩, .inr hsent]
    · exact .inl ⟨e, v, run_bind_error hrun _, hnet⟩

end Steps

end SyncWizard.Server
