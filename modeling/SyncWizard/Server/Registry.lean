import SyncWizard.Server.Sessions

/-! What a login does to the registry of users and sessions, on every host: which of its steps
were reached decides between four outcomes. -/

namespace SyncWizard.Server
open Foundation Common

def SameRegistry (w w' : ServerState) : Prop :=
  w' = { w with net := w'.net, files := w'.files }

instance : Std.Refl SameRegistry := ⟨fun _ => rfl⟩

instance : IsTrans ServerState SameRegistry := ⟨by
  intro w₁ w₂ w₃ h₁ h₂
  rw [SameRegistry, h₂, h₁]⟩

section Parts
variable {h : Host} {w w' : ServerState} {α : Type}

theorem onFiles_same (p : Exec FileSystem α) : Kept SameRegistry (onFiles p) := by
  intro w
  unfold onFiles zoom
  cases p w.files <;> rfl

theorem onNet_same (p : Exec ConnectionManager α) : Kept SameRegistry (onNet p) := by
  intro w
  unfold onNet zoom
  cases p w.net <;> rfl

theorem prepareFolder_same (username dir : Text) :
    Kept SameRegistry (prepareFolder h username dir) := by
  refine Kept.bind (onFiles_same _) fun found => ?_
  split_ifs
  · exact Kept.pure _
  · refine Kept.bind (onFiles_same _) fun created => ?_
    split_ifs
    exacts [Kept.pure _, Kept.raise _]

theorem startThread_same (worker : Worker) : Kept SameRegistry (startThread h worker) := by
  unfold startThread
  split_ifs
  exacts [Kept.pure _, Kept.raise _]

theorem newUser_same (username homeDir : Text) : Kept SameRegistry (newUser h username homeDir) :=
  Kept.bind (prepareFolder_same _ _) fun _ => Kept.bind (startThread_same _) fun _ => Kept.pure _

theorem newUser_yields {username homeDir : Text} {v : User}
    (hv : Yields (newUser h username homeDir) v) :
    v.username = username ∧ v.sessions = [] ∧ v.maxSessions = h.uninitialised := by
  obtain ⟨w, w', hr⟩ := hv
  obtain ⟨-, w₁, -, hr⟩ := run_bind_inv hr
  obtain ⟨-, w₂, -, hr⟩ := run_bind_inv hr
  cases hr
  exact ⟨rfl, rfl, rfl⟩

theorem getUser_run (username : Text) (w : ServerState) :
    getUser username w = .ok (w.users.find? fun u => (w.user u).username = username) w := rfl

theorem getSession_run (u : UserId) (fd : ℤ) (w : ServerState) :
    getSession u fd w =
      .ok ((w.user u).sessions.find? fun s => (w.session s).identity.socketFd = fd) w := rfl

theorem newSession_cases (identity : Identity) (w : ServerState) :
    (∃ e v, newSession h identity w = .error e v ∧ SameRegistry w v) ∨
      ∃ v, SameRegistry w v ∧ newSession h identity w = .ok v.nextSession (v.allocate identity) := by
  have hsame := startThread_same (h := h) .sender w
  cases hr : startThread h .sender w with
  | error e v =>
    rw [hr] at hsame
    exact .inl ⟨e, v, run_bind_error hr _, hsame⟩
  | ok x v =>
    rw [hr] at hsame
    have hrun : newSession h identity w = (if h.spawns .receiver then do
        let s := (← get).nextSession
        modify fun w => w.allocate identity
        pure s
      else crash .terminate : ServerExec SessionId) v := run_bind_ok hr _
    rw [hrun]
    split_ifs
    · exact .inr ⟨v, hsame, rfl⟩
    · exact .inl ⟨_, v, rfl, hsame⟩

/-- What a failed login can leave behind: the registry as it was, or a session object more that
no list has. -/
def Unregistered (me : Identity) (w w' : ServerState) : Prop :=
  SameRegistry w w' ∨ ∃ v, SameRegistry w v ∧ w' = v.allocate me

theorem openSession_cases (fuel : ℕ) (fd : ℤ) (username machine : Text) (u : UserId) (n : ℕ)
    (w : ServerState) :
    (∃ e v, openSession h fuel fd username machine u n w = .error e v ∧
        Unregistered (registeredAs fd username machine u) w v) ∨
      ∃ v, SameRegistry w v ∧ openSession h fuel fd username machine u n w =
        .ok () ((v.allocate (registeredAs fd username machine u)).appendSession u v.nextSession) := by
  have hcommand : Kept SameRegistry (Packet.init.setCommand (confirmation n)) :=
    Packet.setCommand_kept _ _
  have h₁ := hcommand w
  unfold openSession
  cases hr₁ : Packet.init.setCommand (confirmation n) w with
  | error e w₁ =>
    rw [hr₁] at h₁
    exact .inl ⟨e, w₁, run_bind_error hr₁ _, .inl h₁⟩
  | ok p w₁ =>
    rw [hr₁, final_ok] at h₁
    rw [run_bind_ok hr₁]
    have h₂ := onNet_same (sendPacket h fuel p fd) w₁
    cases hr₂ : onNet (sendPacket h fuel p fd) w₁ with
    | error e w₂ =>
      rw [hr₂] at h₂
      exact .inl ⟨e, w₂, run_bind_error hr₂ _, .inl (trans_of _ h₁ h₂)⟩
    | ok x w₂ =>
      rw [hr₂, final_ok] at h₂
      have h₁₂ := trans_of _ h₁ h₂
      rw [run_bind_ok hr₂]
      rcases newSession_cases (h := h) (registeredAs fd username machine u) w₂ with
        ⟨e, v, hr₃, hv⟩ | ⟨v, hv, hr₃⟩
      · exact .inl ⟨e, v, run_bind_error hr₃ _, .inl (trans_of _ h₁₂ hv)⟩
      · rw [run_bind_ok hr₃, addSession, run_bind_ok (run_get _)]
        by_cases hlimit : belowLimit ((v.allocate (registeredAs fd username machine u)).user u)
        · rw [if_pos hlimit]
          exact .inr ⟨v, trans_of _ h₁₂ hv, rfl⟩
        · rw [if_neg hlimit]
          exact .inl ⟨_, _, rfl, .inr ⟨v, trans_of _ h₁₂ hv, rfl⟩⟩

theorem userOf_cases (username : Text) (hfresh : ∀ u ∈ w.users, u < w.nextUser) :
    (∃ u ∈ w.users, (w.user u).username = username ∧ userOf h username w = .ok u w) ∨
      ((∀ u ∈ w.users, (w.user u).username ≠ username) ∧
        ((∃ e v, newUser h username syncDir w = .error e v ∧ SameRegistry w v ∧
            userOf h username w = .error e v) ∨
          ∃ v c, newUser h username syncDir w = .ok c v ∧ SameRegistry w v ∧ c.username = username ∧
            c.sessions = [] ∧ userOf h username w = .ok v.nextUser (v.load c))) := by
  rw [userOf, run_bind_ok (getUser_run username w)]
  cases hfind : w.users.find? fun u => (w.user u).username = username with
  | some u =>
    have hname := List.find?_some hfind
    exact .inl ⟨u, List.mem_of_find?_eq_some hfind, of_decide_eq_true hname, rfl⟩
  | none =>
    have hnone : ∀ u ∈ w.users, (w.user u).username ≠ username := fun u hu =>
      of_decide_eq_false (Bool.eq_false_iff.mpr (List.find?_eq_none.mp hfind u hu))
    refine .inr ⟨hnone, ?_⟩
    have hsame := newUser_same (h := h) username syncDir w
    cases hr : newUser h username syncDir w with
    | error e v =>
      rw [hr] at hsame
      exact .inl ⟨e, v, rfl, hsame, run_bind_error (run_bind_error hr _) _⟩
    | ok c v =>
      rw [hr, final_ok] at hsame
      obtain ⟨hname, hsessions, -⟩ := newUser_yields ⟨w, v, hr⟩
      refine .inr ⟨v, c, rfl, hsame, hname, hsessions, ?_⟩
      have hload : loadUser h username w = .ok () (v.load c) := run_bind_ok hr _
      have hself : (v.load c).user v.nextUser = c := Function.update_self ..
      -- the loaded user is found: everyone before it in the list has another name
      have hfound : (v.load c).users.find? (fun u => ((v.load c).user u).username = username) =
          some v.nextUser := by
        refine List.find?_eq_some_iff_append.mpr
          ⟨by simp [hself, hname], v.users, [], rfl, fun u hu => ?_⟩
        rw [hsame] at hu
        have hne : u ≠ v.nextUser := by
          rw [hsame]
          exact Nat.ne_of_lt (hfresh u hu)
        have hother : (v.load c).user u = w.user u := by
          rw [ServerState.load, ServerState.setUser]
          simp only [Function.update_of_ne hne]
          rw [hsame]
        simp [hother, hnone u hu]
      simp only [run_bind_ok hload, run_bind_ok (getUser_run username _), hfound, run_pure]

theorem loginOf_tests (fuel : ℕ) (fd : ℤ) (username machine : Text) (u : UserId) (w : ServerState) :
    (∃ e, loginOf h fuel fd username machine u w = .error e w ∧
      ¬ ((w.user u).sessions.length < 2 ∧
        ∀ s ∈ (w.user u).sessions, (w.session s).identity.socketFd ≠ fd)) ∨
    ((w.user u).sessions.length < 2 ∧
        ∀ s ∈ (w.user u).sessions, (w.session s).identity.socketFd ≠ fd) ∧
      loginOf h fuel fd username machine u w =
        openSession h fuel fd username machine u (w.user u).sessions.length w := by
  have hcount : getActiveSessionCount u w = .ok (w.user u).sessions.length w := rfl
  rw [loginOf, run_bind_ok hcount]
  by_cases hlen : (w.user u).sessions.length < 2
  · rw [if_pos hlen, run_bind_ok (getSession_run u fd w)]
    cases hfind : (w.user u).sessions.find? fun s => (w.session s).identity.socketFd = fd with
    | some s =>
      have hsocket := List.find?_some hfind
      refine .inl ⟨_, rfl, fun htests => ?_⟩
      exact htests.2 s (List.mem_of_find?_eq_some hfind) (of_decide_eq_true hsocket)
    | none =>
      have hnone : ∀ s ∈ (w.user u).sessions, (w.session s).identity.socketFd ≠ fd := fun s hs =>
        of_decide_eq_false (Bool.eq_false_iff.mpr (List.find?_eq_none.mp hfind s hs))
      exact .inr ⟨⟨hlen, hnone⟩, rfl⟩
  · rw [if_neg hlen]
    exact .inl ⟨_, rfl, fun htests => hlen htests.1⟩

theorem loginOf_cases (fuel : ℕ) (fd : ℤ) (username machine : Text) (u : UserId) (w : ServerState) :
    (∃ e v, loginOf h fuel fd username machine u w = .error e v ∧
        Unregistered (registeredAs fd username machine u) w v) ∨
      (w.user u).sessions.length < 2 ∧
        (∀ s ∈ (w.user u).sessions, (w.session s).identity.socketFd ≠ fd) ∧
        ∃ v, SameRegistry w v ∧ loginOf h fuel fd username machine u w =
          .ok () ((v.allocate (registeredAs fd username machine u)).appendSession u v.nextSession) := by
  rcases loginOf_tests (h := h) fuel fd username machine u w with
    ⟨e, hrun, -⟩ | ⟨⟨hlen, hnone⟩, hrun⟩
  · exact .inl ⟨e, w, hrun, .inl rfl⟩
  · rw [hrun]
    rcases openSession_cases (h := h) fuel fd username machine u (w.user u).sessions.length w with
      hfailed | hopened
    exacts [.inl hfailed, .inr ⟨hlen, hnone, hopened⟩]

theorem handleNewSession_final (fuel : ℕ) (fd : ℤ) (username machine : Text) (w : ServerState) :
    final (handleNewSession h fuel fd username machine w) =
      final (registerSession h fuel fd username machine w) := by
  unfold handleNewSession attempt
  cases registerSession h fuel fd username machine w with
  | ok a v => rfl
  | error e v => cases e <;> rfl

end Parts

end SyncWizard.Server
