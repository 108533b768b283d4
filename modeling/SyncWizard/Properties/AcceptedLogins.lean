import SyncWizard.Properties.DispatcherGrammar
import SyncWizard.Properties.LoginAgreement

/-! Which first packets of a connection the accept loop makes a session for. It does not look at the
command word, takes a name of any length, and loads the user before it knows whether there will be a
session. -/

namespace SyncWizard.Properties
open Foundation Common Server

def commandText (p : Packet) : Text := p.command.1.takeWhile (· != nul)

structure WellFormed (p : Packet) (username machine : Text) : Prop where
  terminated : nul ∈ p.command.1
  text : commandText p = txt "login" ++ txt "|" ++ username ++ txt "|" ++ machine
  separated : bar ∉ username ∧ bar ∉ machine
  size : 1 ≤ username.length ∧ username.length ≤ 12
  alphanumeric : ∀ c ∈ username, isalnum c = true

def Registers (fd : ℤ) (username machine : Text) (w w' : ServerState) : Prop :=
  ∃ u s, u ∈ w'.users ∧ (w'.user u).username = username ∧
    (w'.session s).identity = registeredAs fd username machine u ∧
    sessionsOf w' u = sessionsOf w u ++ [s] ∧ ∀ v, v ≠ u → sessionsOf w' v = sessionsOf w v

abbrev Admits (h : Host) (fd : ℤ) (username : Text) (w : ServerState) : Prop :=
  Admitted h (headerSize + 1) fd username w

/-- A session is made for a well-formed login that is admitted, and any other packet makes no session and
loads no user. The command is read in the packet's header and not beyond it. -/
structure AdmitsExactly (h : Host) (fd : ℤ) (p : Packet) (w : ServerState) : Prop where
  scanned : p.Terminated
  session : ∀ username machine, Registers fd username machine w (final (answered h fd p w)) ↔
    WellFormed p username machine ∧ Admits h fd username w
  nothing : (¬ ∃ username machine, WellFormed p username machine ∧ Admits h fd username w) →
    SameLists w (final (answered h fd p w))

structure Tried (p : Packet) : Prop where
  terminated : p.Terminated
  fields : p.fields.length = 3
  username : isValidUsername (usernameOf p) = true

structure Loads (h : Host) (username : Text) (w : ServerState) : Prop where
  unknown : knownUser w username = none
  folder : FolderReady h w.files (syncDir ++ txt "/" ++ username)
  overseer : h.spawns .overseer = true

section Texts
variable {p : Packet} {username machine : Text}

theorem commandText_fields (hn : nul ∈ p.command.1) :
    p.Terminated ∧ p.fields = splitScan [] (commandText p) := by
  obtain ⟨before, rest, hsplit, hbefore⟩ := List.eq_append_cons_of_mem hn
  rw [commandText, hsplit, takeWhile_ended hbefore]
  exact Packet.fields_ended hsplit hbefore

theorem wellFormed_iff : WellFormed p username machine ↔
    nul ∈ p.command.1 ∧ p.fields = [txt "login", username, machine] ∧
      (1 ≤ username.length ∧ username.length ≤ 12) ∧ isValidUsername username = true := by
  have hlanguage := splitScan_three (s := commandText p) (a := username) (b := machine)
    (show bar ∉ txt "login" by decide)
  constructor
  · rintro ⟨hn, htext, hseparated, hsize, hall⟩
    refine ⟨hn, (commandText_fields hn).2.trans (hlanguage.mpr ⟨htext, hseparated⟩), hsize, ?_⟩
    exact List.all_eq_true.mpr hall
  · rintro ⟨hn, hsplit, hsize, hall⟩
    obtain ⟨htext, hseparated⟩ := hlanguage.mp ((commandText_fields hn).2.symm.trans hsplit)
    exact ⟨hn, htext, hseparated, hsize, List.all_eq_true.mp hall⟩

theorem wellFormed_tried (hw : WellFormed p username machine) : Tried p ∧ usernameOf p = username := by
  obtain ⟨hn, hfields, -, hvalid⟩ := wellFormed_iff.mp hw
  have hname : usernameOf p = username := by
    rw [usernameOf, hfields]
    rfl
  exact ⟨⟨(commandText_fields hn).1, by rw [hfields]; rfl, by rwa [hname]⟩, hname⟩

end Texts

/-! ## What a login does to the lists -/

section Registering
variable {h : Host} {fd : ℤ} {fuel : ℕ} {username machine : Text} {p : Packet} {w w' v : ServerState}

theorem sameRegistry_lists (hs : SameRegistry w w') : SameLists w w' :=
  ⟨by rw [hs], SameRegistry.sessionsOf hs⟩

theorem sameRegistry_registers (hs : SameRegistry v w') :
    Registers fd username machine w w' ↔ Registers fd username machine w v := by
  have hlists := SameRegistry.sessionsOf hs
  have husers : w'.users = v.users := by rw [hs]
  have huser : w'.user = v.user := by rw [hs]
  have hsession : w'.session = v.session := by rw [hs]
  simp only [Registers, hlists, husers, huser, hsession]

theorem registers_not_same (hr : Registers fd username machine w w') :
    ¬ ∀ u, sessionsOf w' u = sessionsOf w u := by
  obtain ⟨u, s, -, -, -, hself, -⟩ := hr
  intro hsame
  rw [hsame u, List.self_eq_append_right] at hself
  cases hself

theorem registerSession_registers (hi : Invariant w) (h : Host) (fuel : ℕ) (fd : ℤ)
    (username machine : Text) :
    (∃ e v, registerSession h fuel fd username machine w = .error e v ∧
        ∀ x, sessionsOf v x = sessionsOf w x) ∨
      ∃ v, registerSession h fuel fd username machine w = .ok () v ∧
        Registers fd username machine w v := by
  apply registerSession_stages h fuel fd username machine hi (P := KeptLists w) ⟨hi, fun _ => rfl⟩
  · exact fun v v' hv hs => hv.same hs
  · exact fun v c _ hv hunknown hname hc _ => hv.load hc (hname ▸ hunknown)
  · exact fun v hv => hv.2
  · exact fun v u _ hv => hv.2
  · intro v u _ hv hu hname hlen hfree
    obtain ⟨hself, hother⟩ := append_appendsOne hu (registeredAs fd username machine u) v.nextSession
    refine ⟨u, v.nextSession, hu, ?_, allocate_identity_new (w := v) _, ?_, ?_⟩
    · rw [appendSession_user_self]
      exact hname
    · rw [hself, hv.2 u]
    · intro x hx
      rw [hother x hx, hv.2 x]

theorem loginOf_users (u : UserId) (w : ServerState) :
    (final (loginOf h fuel fd username machine u w)).users = w.users := by
  rcases loginOf_cases (h := h) fuel fd username machine u w with
    ⟨e, v, hrun, hsame | ⟨v₁, hsame, rfl⟩⟩ | ⟨-, -, v, hsame, hrun⟩
  all_goals
    rw [hrun]
    exact (sameRegistry_lists hsame).1

theorem registerSession_users (hi : Invariant w) :
    (final (registerSession h fuel fd username machine w)).users = w.users ↔ ¬ Loads h username w := by
  rw [registerSession]
  cases hk : knownUser w username with
  | some u =>
    rw [run_bind_ok (userOf_known hk), loginOf_users]
    refine iff_of_true rfl fun hl => ?_
    rw [hl.unknown] at hk
    cases hk
  | none =>
    have hreturns := newUser_returns h username syncDir w
    rcases userOf_cases (h := h) username hi.knownUsers with
      ⟨u, hu, hname, -⟩ | ⟨-, ⟨e, v, hnew, hsame, hrun⟩ | ⟨v, c, hnew, hsame, -, -, hrun⟩⟩
    · exact absurd (decide_eq_true hname) (List.find?_eq_none.mp hk u hu)
    · rw [hnew] at hreturns
      rw [run_bind_error hrun, final_error]
      refine iff_of_true (by rw [hsame]) fun hl => ?_
      exact not_returns_error _ _ (hreturns.mpr ⟨hl.folder, hl.overseer⟩)
    · rw [hnew] at hreturns
      obtain ⟨hfolder, hoverseer⟩ := hreturns.mp (returns_ok _ _)
      rw [run_bind_ok hrun, loginOf_users]
      refine iff_of_false (fun husers => ?_) fun hno => hno ⟨hk, hfolder, hoverseer⟩
      have hlen := congrArg List.length husers
      rw [ServerState.load, List.length_append, hsame] at hlen
      exact absurd hlen (Nat.succ_ne_self _)

theorem approve_same (h : Host) (fuel : ℕ) (fd : ℤ) : Kept SameRegistry (approve h fuel fd) :=
  approve_kept fun _ => onNet_same _

theorem confirmAndApprove_same (h : Host) (fd : ℤ) (username machine : Text) (w : ServerState) :
    SameRegistry (final (registerSession h (headerSize + 1) fd username machine w))
      (final (confirmAndApprove h fd username machine w)) := by
  rw [← handleNewSession_final, confirmAndApprove]
  cases hr : handleNewSession h (headerSize + 1) fd username machine w with
  | error e v =>
    rw [run_bind_error hr]
    exact Std.Refl.refl v
  | ok a v =>
    rw [run_bind_ok hr, final_ok]
    exact approve_same h _ fd v

theorem answered_same {command : Text} (ht : Tried p)
    (hfields : p.fields = [command, usernameOf p, machine]) :
    SameRegistry (final (registerSession h (headerSize + 1) fd (usernameOf p) machine w))
      (final (answered h fd p w)) := by
  have hp := And.intro ht.terminated (And.intro hfields ht.username)
  have hsame := confirmAndApprove_same h fd (usernameOf p) machine w
  cases hr : confirmAndApprove h fd (usernameOf p) machine w with
  | ok a v =>
    rw [hr] at hsame
    rwa [answered_confirmed hp hr]
  | error e v =>
    rw [hr] at hsame
    cases e with
    | raised what =>
      rw [answered_failed hp hr]
      have hclosed : SameRegistry v (closed v fd) := rfl
      exact trans_of _ hsame hclosed
    | crashed c => rwa [answered_crashed hp hr]

theorem untried_same (ht : ¬ Tried p) : SameLists w (final (answered h fd p w)) := by
  by_cases hterminated : p.Terminated
  · have hno : ¬ (p.fields.length = 3 ∧ isValidUsername (usernameOf p) = true) :=
      fun ⟨hlength, hvalid⟩ => ht ⟨hterminated, hlength, hvalid⟩
    rw [answered_invalid hterminated hno]
    exact ⟨rfl, fun _ => rfl⟩
  · rw [answered_unterminated hterminated]
    exact ⟨rfl, fun _ => rfl⟩

theorem registers_unique {username' machine' : Text} (hr : Registers fd username machine w w')
    (hr' : Registers fd username' machine' w w') : username' = username ∧ machine' = machine := by
  obtain ⟨u, s, -, -, hidentity, hself, hother⟩ := hr
  obtain ⟨u', s', -, -, hidentity', hself', -⟩ := hr'
  obtain rfl : u' = u := by
    by_contra hne
    rw [hother u' hne, List.self_eq_append_right] at hself'
    cases hself'
  rw [hself, List.append_cancel_left_eq, List.singleton_inj] at hself'
  subst hself'
  rw [hidentity] at hidentity'
  exact ⟨(congrArg Identity.username hidentity').symm, (congrArg Identity.machine hidentity').symm⟩

theorem admitsExactly_admitted (ht : Tried p) (hi : Invariant w) (ha : Admits h fd (usernameOf p) w) :
    AdmitsExactly h fd p w ↔ ∃ machine, WellFormed p (usernameOf p) machine := by
  obtain ⟨command, machine, hfields⟩ := fields_valid ht.fields
  have hreturns := (registerSession_returns machine hi.knownUsers).mpr ha
  have hregisters : Registers fd (usernameOf p) machine w (final (answered h fd p w)) := by
    rcases registerSession_registers hi h (headerSize + 1) fd (usernameOf p) machine with
      ⟨e, v, hrun, -⟩ | ⟨v, hrun, hv⟩
    · rw [hrun] at hreturns
      exact absurd hreturns (not_returns_error _ _)
    · rw [sameRegistry_registers (answered_same ht hfields), hrun]
      exact hv
  constructor
  · exact fun he => ⟨machine, ((he.session _ _).mp hregisters).1⟩
  · rintro ⟨machine', hw⟩
    refine ⟨ht.terminated, fun username₁ machine₁ => ⟨fun hr => ?_, fun ⟨hw₁, _⟩ => ?_⟩,
      fun hno => ?_⟩
    · obtain ⟨rfl, rfl⟩ := registers_unique hregisters hr
      have hsame := (wellFormed_iff.mp hw).2.1
      rw [hfields] at hsame
      cases hsame
      exact ⟨hw, ha⟩
    · have hsame := (wellFormed_iff.mp hw₁).2.1
      rw [hfields] at hsame
      obtain ⟨rfl, rfl⟩ : usernameOf p = username₁ ∧ machine = machine₁ := by
        simpa using (List.cons.inj hsame).2
      exact hregisters
    · exact absurd ⟨_, machine', hw, ha⟩ hno

theorem admitsExactly_rejected (ht : Tried p) (hi : Invariant w) (ha : ¬ Admits h fd (usernameOf p) w) :
    AdmitsExactly h fd p w ↔ ¬ Loads h (usernameOf p) w := by
  obtain ⟨command, machine, hfields⟩ := fields_valid ht.fields
  have hsame : SameRegistry (final (registerSession h (headerSize + 1) fd (usernameOf p) machine w))
      (final (answered h fd p w)) := answered_same ht hfields
  have hsessions : ∀ u, sessionsOf (final (answered h fd p w)) u = sessionsOf w u := by
    rcases registerSession_registers hi h (headerSize + 1) fd (usernameOf p) machine with
      ⟨e, v, hrun, hv⟩ | ⟨v, hrun, -⟩
    · rw [hrun] at hsame
      exact fun u => (SameRegistry.sessionsOf hsame u).trans (hv u)
    · exact absurd ((registerSession_returns machine hi.knownUsers).mp ⟨_, _, hrun⟩) ha
  have hno (username machine : Text) : ¬ (WellFormed p username machine ∧ Admits h fd username w) := by
    rintro ⟨hw, hadmitted⟩
    exact ha ((wellFormed_tried hw).2 ▸ hadmitted)
  have husers : (final (answered h fd p w)).users = w.users ↔ ¬ Loads h (usernameOf p) w := by
    rw [(sameRegistry_lists hsame).1]
    exact registerSession_users hi
  rw [← husers]
  constructor
  · exact fun he => (he.nothing fun ⟨_, _, hy⟩ => hno _ _ hy).1
  · intro hu
    exact ⟨ht.terminated, fun username machine => iff_of_false
      (fun hr => registers_not_same hr hsessions) (hno username machine), fun _ => ⟨hu, hsessions⟩⟩

end Registering

/-- The loop admits the right logins unless it hands on a name or a command word that it should not, or
loads a user who then gets no session. -/
theorem admitsExactly_iff (h : Host) (fd : ℤ) (p : Packet) {w : ServerState} (hi : Invariant w) :
    AdmitsExactly h fd p w ↔ p.Terminated ∧ (¬ Tried p ∨
      (∃ machine, WellFormed p (usernameOf p) machine) ∧ Admits h fd (usernameOf p) w ∨
      ¬ Admits h fd (usernameOf p) w ∧ ¬ Loads h (usernameOf p) w) := by
  by_cases ht : Tried p
  · by_cases ha : Admits h fd (usernameOf p) w
    · rw [admitsExactly_admitted ht hi ha]
      simp only [ht, ht.terminated, ha, not_true_eq_false, false_or, and_true, false_and, or_false,
        true_and]
    · rw [admitsExactly_rejected ht hi ha]
      simp only [ht, ht.terminated, ha, not_true_eq_false, false_or, and_false, not_false_eq_true,
        true_and]
  · obtain ⟨husers, hsessions⟩ : SameLists w (final (answered h fd p w)) := untried_same ht
    constructor
    · exact fun hexactly => ⟨hexactly.scanned, .inl ht⟩
    · rintro ⟨hterminated, -⟩
      refine ⟨hterminated, fun username machine => ?_, fun _ => ⟨husers, hsessions⟩⟩
      refine iff_of_false (fun hr => registers_not_same hr hsessions) fun ⟨hw, _⟩ => ?_
      exact ht (wellFormed_tried hw).1

theorem ana_admitted : Admits quietHost 4 (txt "ana") emptyServer :=
  loginPacket_username ▸ loginPacket_confirmable.admitted

theorem ana_admitted_exactly : AdmitsExactly quietHost 4 loginPacket emptyServer := by
  have hreads : loginPacket.Reads (txt "login|ana|laptop") :=
    (Packet.ofCommand_carries (by decide)).toReads
  have hn : nul ∈ loginPacket.command.1 :=
    hreads.array (by decide) ▸ List.mem_append_right _ List.mem_cons_self
  obtain ⟨hterminated, hfields⟩ := loginPacket_fields
  refine (admitsExactly_iff quietHost 4 loginPacket (invariant_empty rfl)).mpr
    ⟨hterminated, .inr (.inl ?_)⟩
  rw [loginPacket_username]
  exact ⟨⟨txt "laptop", wellFormed_iff.mpr ⟨hn, hfields, by decide, by decide⟩⟩, ana_admitted⟩

theorem hello_admitted : ¬ ∀ (h : Host) (fd : ℤ) (p : Packet) (w : ServerState),
    Reachable w → AdmitsExactly h fd p w := by
  intro hall
  let p := Packet.ofCommand (txt "hello|ana|laptop")
  obtain ⟨hterminated, hfields⟩ : p.Terminated ∧ p.fields = _ :=
    (Packet.ofCommand_carries (by decide)).toReads.fields (by decide)
  have hsplit : p.fields = [txt "hello", txt "ana", txt "laptop"] := hfields.trans (by decide)
  have hname : usernameOf p = txt "ana" := by
    rw [usernameOf, hsplit]
    rfl
  have ht : Tried p := ⟨hterminated, by rw [hsplit]; rfl, by rw [hname]; decide⟩
  have hexactly := hall quietHost 4 p emptyServer (.empty _ rfl)
  rw [admitsExactly_admitted ht (invariant_empty rfl) (hname ▸ ana_admitted)] at hexactly
  obtain ⟨machine, hw⟩ := hexactly
  have hword := (wellFormed_iff.mp hw).2.1
  rw [hsplit] at hword
  exact absurd (List.cons.inj hword).1 (by decide)

end SyncWizard.Properties
