import SyncWizard.Client.Login
import SyncWizard.Properties.SessionRegistry
import SyncWizard.Server.Admission

/-! The login handshake: what the accept loop and `handle_new_session` send on a new socket, what
the client makes of it, and what it stands for on the server. -/

namespace SyncWizard.Properties
open Foundation Common Server

/-- What the accept loop does with the packet it has received on a new socket. A reply is one
header, so as many rounds of `send` as a header has bytes are enough, and one to see the end. -/
def answered (h : Host) (fd : ℤ) (p : Packet) : ServerExec Unit :=
  attempt (answerLogin h (headerSize + 1) fd p) fun _ => closeSocket fd

theorem acceptConnection_received {h : Host} {fd : ℤ} {p : Packet}
    {w : ServerState} {m : ConnectionManager}
    (hr : receivePacket h fd w.net = .ok p m) :
    acceptConnection h (headerSize + 1) fd w = answered h fd p { w with net := m } := by
  have hreceived : onNet (receivePacket h fd) w = .ok p { w with net := m } := onNet_ok hr
  simp only [acceptConnection, answered, attempt, run_bind_ok hreceived]

def usernameOf (p : Packet) : Text := p.fields.getD 1 []

structure Approval (q : Packet) (n : ℤ) : Prop where
  terminated : q.Terminated
  fields : q.fields = [txt "login", txt "ok", toText n]
  decoded : ∀ m : ConnectionManager, Client.readConfirmation q m = .ok n m

structure Refusal (q : Packet) : Prop where
  terminated : q.Terminated
  fields : q.fields = [txt "login", txt "fail"]
  reason : q.bytes ≠ []

def SameLists (w w' : ServerState) : Prop := w'.users = w.users ∧ ∀ u, sessionsOf w' u = sessionsOf w u

/-- One reply on the socket: the approval of a session that is on the list of its user, or a
refusal, and then the socket is closed and the lists are as before. -/
def LoginAgrees (h : Host) (fd : ℤ) (p : Packet) (w : ServerState) : Prop :=
  ∃ w' q, answered h fd p w = .ok () w' ∧ q.Exact ∧ w'.net.outbox fd = w.net.outbox fd ++ q.wire ∧
    ((Appends fd (usernameOf p) w w' ∧ ∃ n, Approval q n) ∨
      (Refusal q ∧ w'.net.isOpen fd = false ∧ SameLists w w'))

/-- What the second approval is composed of: the literal moved on by the number of the socket. -/
def approvalText (h : Host) (fd : ℤ) : Option Text := literalText h (txt "login|ok|") fd

def confirmedNet (h : Host) (fd : ℤ) (username : Text) (w : ServerState) : ConnectionManager :=
  final (sendPacket h (headerSize + 1) (confirmationPacket (sessionCount w username)) fd w.net)

structure Confirmable (h : Host) (fd : ℤ) (p : Packet) (w : ServerState) : Prop where
  terminated : p.Terminated
  fields : p.fields.length = 3
  username : isValidUsername (usernameOf p) = true
  admitted : Admitted h (headerSize + 1) fd (usernameOf p) w
  unsent : ∃ text, approvalText h fd = some text ∧
    (Packet.Fits text → h.Refuses (confirmedNet h fd (usernameOf p) w) fd headerSize)

theorem socketOf_new {fd : ℤ} (hfd : 0 ≤ fd) (m : ConnectionManager) : m.socketOf fd = fd :=
  if_neg (by omega)

section Replies
variable {q : Packet} {n : ℕ}

theorem confirmationPacket_reads (hn : n < 2) : (confirmationPacket n).Reads (confirmation n) :=
  (Packet.withCommand_carries (confirmation_fits hn) rfl).toReads

theorem confirmation_fields (hn : n < 2) : (confirmationPacket n).Terminated ∧
    (confirmationPacket n).fields = [txt "login", txt "ok", toText ((n : ℤ) + 1)] := by
  have hread := confirmationPacket_reads hn
  obtain rfl | rfl : n = 0 ∨ n = 1 := by omega
  all_goals exact ⟨(hread.fields (by decide)).1, (hread.fields (by decide)).2.trans (by decide)⟩

theorem confirmation_approves (hn : n < 2) : Approval (confirmationPacket n) ((n : ℤ) + 1) := by
  obtain ⟨hterminated, hfields⟩ := confirmation_fields hn
  refine ⟨hterminated, hfields, fun m => ?_⟩
  have hnumber : stoi (toText ((n : ℤ) + 1)) = some ((n : ℤ) + 1) := by
    obtain rfl | rfl : n = 0 ∨ n = 1 := by omega
    all_goals decide
  let number := toText ((n : ℤ) + 1)
  have hcommand : fieldAt [txt "login", txt "ok", number] 0 m = .ok (txt "login") m := rfl
  have hstatus : fieldAt [txt "login", txt "ok", number] 1 m = .ok (txt "ok") m := rfl
  have hsid : fieldAt [txt "login", txt "ok", number] 2 m = .ok number m := rfl
  rw [Client.readConfirmation, run_bind_ok (Packet.splitBuffer_terminated hterminated m), hfields,
    run_bind_ok hcommand, run_bind_ok hstatus, if_pos rfl, if_pos rfl, run_bind_ok hsid, hnumber]
  rfl

theorem confirmation_exact (n : ℕ) : (confirmationPacket n).Exact := rfl

theorem refusal_not_confirmation (hn : n < 2) (hq : q.Exact) (hr : Refusal q) :
    ¬ q.wire <+: (confirmationPacket n).wire := by
  rintro ⟨rest, hrest⟩
  rw [← List.append_nil (confirmationPacket n).wire] at hrest
  obtain ⟨hcontent, -⟩ := Packet.wire_append_inj hq (confirmation_exact n) hrest
  have hfields : q.fields = (confirmationPacket n).fields := by
    have hheader : q.toHeader = (confirmationPacket n).toHeader := congrArg Prod.fst hcontent
    rw [Packet.fields, Packet.fields, Packet.memory, Packet.memory, hheader]
  rw [hr.fields, (confirmation_fields hn).2] at hfields
  exact absurd (congrArg List.length hfields) (show 2 ≠ 3 by decide)

theorem wire_ne_nil (hq : q.Exact) : q.wire ≠ [] := by
  rw [← List.length_pos_iff, Packet.wire_length hq]
  exact Nat.add_pos_left (by decide) _

end Replies

/-! ## The accept loop -/

section Answering
variable {h : Host} {fuel : ℕ} {fd : ℤ} {p : Packet} {w v : ServerState}

variable (h fuel fd w) in
/-- No refusal is ever sent: the text of the reason does not get into the packet. -/
theorem refuse_raises {reason : Text} (hne : reason ≠ []) :
    ∃ what, refuse h fuel fd reason w = .error (.raised what) w := by
  have hfits : Packet.Fits (txt "login|fail") := by decide
  rw [refuse, run_bind_ok (Packet.setCommand_fits hfits w)]
  exact ⟨_, run_bind_error (Packet.setReason_raises _ hne w) _⟩

def closed (v : ServerState) (fd : ℤ) : ServerState :=
  { v with net := { v.net with isOpen := Function.update v.net.isOpen fd false } }

theorem answered_raised {what : Text}
    (hr : answerLogin h (headerSize + 1) fd p w = .error (.raised what) v) :
    answered h fd p w = .ok () (closed v fd) := by
  rw [answered, run_attempt_raised hr]
  rfl

theorem answered_unterminated (hno : ¬ p.Terminated) :
    answered h fd p w = .error (.crashed .outOfBounds) w := by
  have hlogin : answerLogin h (headerSize + 1) fd p w = .error (.crashed .outOfBounds) w :=
    run_bind_error (Packet.splitBuffer_unterminated hno w) _
  rw [answered, attempt, hlogin]

theorem answered_invalid (ht : p.Terminated)
    (hno : ¬ (p.fields.length = 3 ∧ isValidUsername (usernameOf p) = true)) :
    answered h fd p w = .ok () (closed w fd) := by
  have hrefused {reason : Text} (hne : reason ≠ [])
      (hrun : answerLogin h (headerSize + 1) fd p w = refuse h (headerSize + 1) fd reason w) :
      answered h fd p w = .ok () (closed w fd) := by
    obtain ⟨what, hwhat⟩ := refuse_raises h (headerSize + 1) fd w hne
    exact answered_raised (hrun.trans hwhat)
  have hsplit := Packet.splitBuffer_terminated ht w
  unfold usernameOf at hno
  match hfields : p.fields with
  | [_, username, _] =>
    rw [hfields] at hno hsplit
    have hinvalid : ¬ isValidUsername username = true := fun hv => hno ⟨rfl, hv⟩
    refine hrefused (by decide : txt "Invalid user info!" ≠ []) ?_
    rw [answerLogin, run_bind_ok hsplit]
    exact congrFun (if_neg hinvalid) w
  | [] | [_] | [_, _] | _ :: _ :: _ :: _ :: _ =>
    rw [hfields] at hsplit
    refine hrefused (by decide : txt "Malformed login command, invalid argument number" ≠ []) ?_
    rw [answerLogin, run_bind_ok hsplit]

def confirmAndApprove (h : Host) (fd : ℤ) (username machine : Text) : ServerExec Unit := do
  handleNewSession h (headerSize + 1) fd username machine
  approve h (headerSize + 1) fd

section Valid
variable {username machine command : Text}
  (hp : p.Terminated ∧ p.fields = [command, username, machine] ∧
  isValidUsername username = true)
include hp

theorem answerLogin_valid : answerLogin h (headerSize + 1) fd p w =
    attempt (confirmAndApprove h fd username machine)
      (fun what => refuse h (headerSize + 1) fd
        (txt "Exception ocurred registring new user:" ++ what)) w := by
  obtain ⟨hterminated, hfields, hvalid⟩ := hp
  rw [answerLogin, run_bind_ok (Packet.splitBuffer_terminated hterminated w), hfields]
  exact congrFun (if_pos hvalid) w

theorem answered_confirmed (hr : confirmAndApprove h fd username machine w = .ok () v) :
    answered h fd p w = .ok () v :=
  run_attempt_ok ((answerLogin_valid hp).trans (run_attempt_ok hr _)) _

theorem answered_failed {what : Text}
    (hr : confirmAndApprove h fd username machine w = .error (.raised what) v) :
    answered h fd p w = .ok () (closed v fd) := by
  have hreason : txt "Exception ocurred registring new user:" ++ what ≠ [] :=
    List.append_ne_nil_of_left_ne_nil (by decide) _
  obtain ⟨what', hrefuse⟩ := refuse_raises h (headerSize + 1) fd v hreason
  exact answered_raised ((answerLogin_valid hp).trans ((run_attempt_raised hr _).trans hrefuse))

theorem answered_crashed {c : Crash}
    (hr : confirmAndApprove h fd username machine w = .error (.crashed c) v) :
    answered h fd p w = .error (.crashed c) v := by
  have hlogin : answerLogin h (headerSize + 1) fd p w = .error (.crashed c) v := by
    rw [answerLogin_valid hp, attempt, hr]
  rw [answered, attempt, hlogin]

theorem answered_final (hr : answered h fd p w = .ok () v) :
    v = final (confirmAndApprove h fd username machine w) ∨
      v = closed (final (confirmAndApprove h fd username machine w)) fd := by
  cases hrun : confirmAndApprove h fd username machine w with
  | ok _ v' =>
    rw [answered_confirmed hp hrun] at hr
    cases hr
    exact .inl rfl
  | error e v' =>
    cases e with
    | raised what =>
      rw [answered_failed hp hrun] at hr
      cases hr
      exact .inr rfl
    | crashed c =>
      rw [answered_crashed hp hrun] at hr
      cases hr

end Valid

theorem handleNewSession_ok {username machine : Text} {v : ServerState}
    (hr : registerSession h fuel fd username machine w = .ok () v) :
    handleNewSession h fuel fd username machine w = .ok () v := run_attempt_ok hr _

theorem handleNewSession_error {username machine : Text} {e : Fault Text Crash} {v : ServerState}
    (hr : registerSession h fuel fd username machine w = .error e v) :
    ∃ e', handleNewSession h fuel fd username machine w = .error e' v := by
  cases e with
  | raised what => exact ⟨_, run_attempt_raised hr _⟩
  | crashed c => exact ⟨.crashed c, by rw [handleNewSession, attempt, hr]⟩

/-! ## The second approval -/

theorem approvalText_inside (hfd : 0 ≤ fd) (h9 : fd ≤ 9) :
    approvalText h fd = some ((txt "login|ok|").drop fd.toNat) := if_pos ⟨hfd, h9⟩

theorem approve_run {text : Text} (ht : approvalText h fd = some text) (hf : Packet.Fits text)
    (w : ServerState) : approve h fuel fd w = onNet (sendPacket h fuel (Packet.ofCommand text) fd) w := by
  have hliteral : literalPlus h (txt "login|ok|") fd w = .ok text w := by
    rw [literalPlus, show literalText h (txt "login|ok|") fd = some text from ht]
    rfl
  rw [approve, run_bind_ok hliteral, run_bind_ok (Packet.setCommand_fits hf w), Packet.ofCommand]

variable (fuel) in
theorem approve_long {text : Text} (ht : approvalText h fd = some text) (hf : ¬ Packet.Fits text)
    (w : ServerState) : ∃ what, approve h fuel fd w = .error (.raised what) w := by
  have hliteral : literalPlus h (txt "login|ok|") fd w = .ok text w := by
    rw [literalPlus, show literalText h (txt "login|ok|") fd = some text from ht]
    rfl
  obtain ⟨what, hlong⟩ := Packet.setCommand_long (p := .init) hf w
  exact ⟨what, by rw [approve, run_bind_ok hliteral, run_bind_error hlong]⟩

theorem approve_crashes (ht : approvalText h fd = none) (w : ServerState) :
    approve h fuel fd w = .error (.crashed .outOfBounds) w := by
  have hliteral : literalPlus h (txt "login|ok|") fd w = .error (.crashed .outOfBounds) w := by
    rw [literalPlus, show literalText h (txt "login|ok|") fd = none from ht]
    rfl
  exact run_bind_error hliteral _

end Answering

section Agreement
variable {h : Host} {fd : ℤ} {p : Packet} {w : ServerState}

theorem confirmed_outbox {username machine : Text} {v : ServerState} (hfd : 0 ≤ fd) (hi : Invariant w)
    (hr : registerSession h (headerSize + 1) fd username machine w = .ok () v) :
    sessionCount w username < 2 ∧ v.net = confirmedNet h fd username w ∧
      v.net.outbox fd = w.net.outbox fd ++ (confirmationPacket (sessionCount w username)).wire := by
  have hadmitted := (registerSession_returns machine hi.knownUsers).mp ⟨(), v, hr⟩
  rcases registerSession_net h (headerSize + 1) fd username machine
      hi.knownUsers with ⟨e, v', hrun, -⟩ | ⟨hcount, hnet⟩
  · rw [hr] at hrun
    cases hrun
  · rw [hr, final_ok] at hnet
    obtain ⟨out, -, hsent, hwhole⟩ := sendPacket_bare (h := h)
      (p := confirmationPacket (sessionCount w username)) rfl (headerSize + 1) fd w.net
    rw [hwhole hadmitted.startable.sent, ← hnet, socketOf_new hfd] at hsent
    exact ⟨hcount, hnet, hsent.outbox_self⟩

theorem unregistered_outbox {username machine : Text} {e : Fault Text Crash}
    {v : ServerState} (hfd : 0 ≤ fd)
    (hi : Invariant w) (hr : registerSession h (headerSize + 1) fd username machine w = .error e v) :
    v.net.outbox fd = w.net.outbox fd ∨ ∃ n out, n < 2 ∧ out <+: (confirmationPacket n).wire ∧
      v.net.outbox fd = w.net.outbox fd ++ out := by
  rcases registerSession_net h (headerSize + 1) fd username machine
      hi.knownUsers with ⟨e', v', hrun, hnet⟩ | ⟨hcount, hnet⟩
  · rw [hr] at hrun
    cases hrun
    exact .inl (by rw [hnet])
  · rw [hr, final_error] at hnet
    obtain ⟨out, hout, hsent, -⟩ := sendPacket_bare (h := h)
      (p := confirmationPacket (sessionCount w username)) rfl (headerSize + 1) fd w.net
    rw [← hnet, socketOf_new hfd] at hsent
    exact .inr ⟨_, out, hcount, hout, hsent.outbox_self⟩

theorem fields_valid (hlen : p.fields.length = 3) : ∃ command machine,
    p.fields = [command, usernameOf p, machine] := by
  obtain ⟨command, username, machine, hfields⟩ := List.length_eq_three.mp hlen
  refine ⟨command, machine, ?_⟩
  rw [usernameOf, hfields]
  rfl

theorem loginAgrees_of_confirmable (hfd : 0 ≤ fd) (hi : Invariant w) (hc : Confirmable h fd p w) :
    LoginAgrees h fd p w := by
  obtain ⟨command, machine, hfields⟩ := fields_valid hc.fields
  have hp := And.intro hc.terminated (And.intro hfields hc.username)
  have hreturns := (registerSession_returns machine hi.knownUsers).mpr hc.admitted
  rcases registerSession_step hi h (headerSize + 1) fd (usernameOf p) machine with
    ⟨e, v, hrun, -⟩ | ⟨v, hrun, -, happends⟩
  · rw [hrun] at hreturns
    exact absurd hreturns (not_returns_error _ _)
  obtain ⟨hcount, hnet, houtbox⟩ := confirmed_outbox hfd hi hrun
  obtain ⟨text, htext, hunsent⟩ := hc.unsent
  have happrove : ∃ what m, approve h (headerSize + 1) fd v = .error (.raised what) { v with net := m } ∧
      m.outbox fd = v.net.outbox fd := by
    by_cases hfits : Packet.Fits text
    · have hrefused : h.Refuses v.net (v.net.socketOf fd) headerSize := by
        rw [hnet, socketOf_new hfd]
        exact hunsent hfits
      obtain ⟨what, m, hsend, hsent⟩ := sendPacket_refused (Packet.ofCommand text) hrefused headerSize
      rw [socketOf_new hfd] at hsent
      exact ⟨what, m, (approve_run htext hfits v).trans (onNet_error hsend),
        hsent.outbox_self.trans (List.append_nil _)⟩
    · obtain ⟨what, hlong⟩ := approve_long (headerSize + 1) htext hfits v
      exact ⟨what, v.net, hlong, rfl⟩
  obtain ⟨what, m, happrove, hsame⟩ := happrove
  have hbody : confirmAndApprove h fd (usernameOf p) machine w = .error (.raised what)
      { v with net := m } := by
    rw [confirmAndApprove, run_bind_ok (handleNewSession_ok hrun), happrove]
  exact ⟨_, _, answered_failed hp hbody, confirmation_exact _, hsame.trans houtbox,
    .inl ⟨happends, _, confirmation_approves hcount⟩⟩

theorem registered_of_agrees {username machine command : Text} {v w' : ServerState} {q : Packet}
    {e : Fault Text Crash} (hfd : 0 ≤ fd) (hi : Invariant w)
    (hp : p.Terminated ∧ p.fields = [command, username, machine] ∧ isValidUsername username = true)
    (hanswer : answered h fd p w = .ok () w') (hq : q.Exact)
    (hout : w'.net.outbox fd = w.net.outbox fd ++ q.wire)
    (hcase : Appends fd username w w' ∨ Refusal q)
    (hrun : registerSession h (headerSize + 1) fd username machine w = .error e v)
    (hlists : ∀ u, sessionsOf v u = sessionsOf w u) : False := by
  obtain ⟨e', hhandled⟩ := handleNewSession_error hrun
  have hbody : confirmAndApprove h fd username machine w = .error e' v := run_bind_error hhandled _
  have hfinal : w' = v ∨ w' = closed v fd := by
    have hcases := answered_final hp hanswer
    rwa [hbody, final_error] at hcases
  have hsame : w'.net.outbox fd = v.net.outbox fd ∧ ∀ u, sessionsOf w' u = sessionsOf w u := by
    rcases hfinal with rfl | rfl
    exacts [⟨rfl, hlists⟩, ⟨rfl, hlists⟩]
  rcases hcase with ⟨u, s, -, -, -, hself, -⟩ | hrefusal
  · rw [hsame.2 u, List.self_eq_append_right] at hself
    cases hself
  · rw [hsame.1] at hout
    rcases unregistered_outbox hfd hi hrun with hnone | ⟨n, out, hn, hprefix, hsome⟩
    · rw [hnone, List.self_eq_append_right] at hout
      exact wire_ne_nil hq hout
    · rw [hsome, List.append_cancel_left_eq] at hout
      exact refusal_not_confirmation hn hq hrefusal (hout ▸ hprefix)

theorem confirmable_of_loginAgrees (hfd : 0 ≤ fd) (hi : Invariant w) (ha : LoginAgrees h fd p w) :
    Confirmable h fd p w := by
  obtain ⟨w', q, hanswer, hq, hout, hcase⟩ := ha
  have hterminated : p.Terminated := by
    by_contra hno
    rw [answered_unterminated hno] at hanswer
    cases hanswer
  have hvalid : p.fields.length = 3 ∧ isValidUsername (usernameOf p) = true := by
    by_contra hno
    rw [answered_invalid hterminated hno] at hanswer
    cases hanswer
    exact wire_ne_nil hq (List.self_eq_append_right.mp hout)
  obtain ⟨command, machine, hfields⟩ := fields_valid hvalid.1
  have hp := And.intro hterminated (And.intro hfields hvalid.2)
  rcases registerSession_step hi h (headerSize + 1) fd (usernameOf p) machine with
    ⟨e, v, hrun, -, hlists⟩ | ⟨v, hrun, -, -⟩
  · have hcase' := hcase.imp (fun hc => hc.1) (fun hc => hc.1)
    exact (registered_of_agrees hfd hi hp hanswer hq hout hcase' hrun hlists).elim
  obtain ⟨hcount, hnet, houtbox⟩ := confirmed_outbox hfd hi hrun
  have hbody : confirmAndApprove h fd (usernameOf p) machine w = approve h (headerSize + 1) fd v :=
    run_bind_ok (handleNewSession_ok hrun) _
  refine ⟨hterminated, hvalid.1, hvalid.2, (registerSession_returns machine hi.knownUsers).mp
    ⟨(), v, hrun⟩, ?_⟩
  have hsome : approvalText h fd ≠ none := by
    intro htext
    rw [answered_crashed hp (hbody.trans (approve_crashes htext v))] at hanswer
    cases hanswer
  obtain ⟨text, htext⟩ := Option.ne_none_iff_exists'.mp hsome
  refine ⟨text, htext, fun hfits => ?_⟩
  by_contra hrefused
  have hstarts : ¬ h.Refuses v.net (v.net.socketOf fd) headerSize := by
    rwa [hnet, socketOf_new hfd]
  obtain ⟨out, hne, hsent⟩ := sendPacket_started (p := Packet.ofCommand text) rfl hstarts headerSize
  rw [socketOf_new hfd] at hsent
  have hnet' : (final (confirmAndApprove h fd (usernameOf p) machine w)).net =
      final (sendPacket h (headerSize + 1) (Packet.ofCommand text) fd v.net) := by
    rw [hbody, approve_run htext hfits, onNet_final]
  have hfinal : w'.net.outbox fd = v.net.outbox fd ++ out := by
    rw [← hsent.outbox_self, ← hnet']
    rcases answered_final hp hanswer with rfl | rfl
    exacts [rfl, rfl]
  -- One reply would have to be the confirmation and the beginning of the approval behind it.
  rw [hfinal, houtbox, List.append_assoc, List.append_cancel_left_eq] at hout
  have hboth : (confirmationPacket (sessionCount w (usernameOf p))).wire ++ out = q.wire ++ [] :=
    hout.trans (List.append_nil _).symm
  exact hne (Packet.wire_append_inj (confirmation_exact _) hq hboth).2

/-- The handshake agrees for the logins that are admitted and of whose second approval nothing gets out,
and for no others. -/
theorem loginAgrees_iff (h : Host) (hfd : 0 ≤ fd) (p : Packet) (hi : Invariant w) :
    LoginAgrees h fd p w ↔ Confirmable h fd p w :=
  ⟨confirmable_of_loginAgrees hfd hi, loginAgrees_of_confirmable hfd hi⟩

end Agreement

/-! ## A first login -/

def emptyServer : ServerState :=
  ServerState.init ⟨3, 0, fun _ => [], fun _ => [], fun _ => true⟩ ⟨[], ∅, []⟩

def loginPacket : Packet := Packet.init.withCommand (Packet.commandArray (txt "login|ana|laptop"))

theorem loginPacket_fields :
    loginPacket.Terminated ∧ loginPacket.fields = [txt "login", txt "ana", txt "laptop"] := by
  have hcarries : loginPacket.Carries (txt "login|ana|laptop") :=
    Packet.withCommand_carries (by decide) rfl
  obtain ⟨hterminated, hfields⟩ := hcarries.toReads.fields (by decide)
  exact ⟨hterminated, hfields.trans (by decide)⟩

def quietHost : Host :=
  { pageHost.1 with
    selectWrite := fun call _ => if call < 2 then .ready else .timedOut }

theorem emptyServer_folder {h : Host} (hs : h.statError (syncDir ++ txt "/" ++ txt "ana") = none)
    (hc : h.mayCreate (syncDir ++ txt "/" ++ txt "ana") = true) :
    FolderReady h emptyServer.files (syncDir ++ txt "/" ++ txt "ana") := by
  refine ⟨hs, .inr ⟨hc, fun p _ c hp => ?_, by decide⟩⟩
  rw [FileSystem.node] at hp
  split_ifs at hp
  · cases hp
  · cases (AList.lookup_empty p).symm.trans hp

theorem loginPacket_username : usernameOf loginPacket = txt "ana" := by
  rw [usernameOf, loginPacket_fields.2]
  rfl

theorem loginPacket_confirmable : Confirmable quietHost 4 loginPacket emptyServer := by
  obtain ⟨hterminated, hfields⟩ := loginPacket_fields
  have hsend : sendPacket quietHost (headerSize + 1)
      (confirmationPacket 0) 4 emptyServer.net = .ok () _ :=
    sendPacket_atOnce rfl rfl rfl (headerSize - 1)
  have hfolder : FolderReady quietHost emptyServer.files (syncDir ++ txt "/" ++ txt "ana") :=
    emptyServer_folder rfl rfl
  have hadmitted : Admitted quietHost (headerSize + 1) 4 (txt "ana") emptyServer := by
    refine ⟨fun u hu => ?_, fun _ => ⟨hfolder, rfl⟩, ⟨⟨(), _, hsend⟩, rfl, rfl⟩⟩
    cases hu
  have hrefused : quietHost.Refuses
      (confirmedNet quietHost 4 (txt "ana") emptyServer) 4 headerSize := by
    have hnet : confirmedNet quietHost 4 (txt "ana") emptyServer = _ := congrArg final hsend
    rw [hnet]
    exact .inl (by decide)
  refine ⟨hterminated, by rw [hfields]; rfl, by rw [loginPacket_username]; decide, ?_,
    ⟨_, approvalText_inside (by decide) (by decide), fun _ => ?_⟩⟩
  exacts [loginPacket_username ▸ hadmitted, loginPacket_username ▸ hrefused]

theorem loginAgrees_quiet : LoginAgrees quietHost 4 loginPacket emptyServer :=
  (loginAgrees_iff quietHost (by decide) loginPacket (invariant_empty rfl)).mpr loginPacket_confirmable

theorem login_answered_twice : ¬ ∀ (h : ReliableHost) (fd : ℤ) (p : Packet) (w : ServerState),
    0 ≤ fd → Reachable w → LoginAgrees h.1 fd p w := by
  intro hall
  let host := pageHost
  have hagrees := hall host 4 loginPacket emptyServer (by decide) (.empty _ rfl)
  obtain ⟨-, -, -, -, text, htext, hunsent⟩ :=
    confirmable_of_loginAgrees (by decide) (invariant_empty rfl) hagrees
  cases htext.symm.trans (approvalText_inside (by decide) (by decide))
  rcases hunsent (by decide) with hselect | hsend
  · exact hselect (host.2.selectWrite _ _)
  · obtain ⟨n, hn⟩ := host.2.send _ 4 headerSize (by decide)
    cases hsend.symm.trans hn

end SyncWizard.Properties
