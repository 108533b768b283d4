import SyncWizard.Client.Effects
import SyncWizard.Client.Launch
import SyncWizard.Client.Program
import SyncWizard.Common.Transfer
import SyncWizard.Properties.EndedPrograms
import SyncWizard.Properties.LoginReplies

/-! What a client says to its server, from its constructor to its end. The commands of the user are queued
for a thread that nobody starts. -/

namespace SyncWizard.Properties
open Foundation Common Client

/-- The peer on `fd` has been handed `out`, and `n` bytes that it had sent have been read. The manager may
have taken another socket for its own. -/
def Talked (m : ConnectionManager) (fd : ℤ) (out : Text) (n : ℕ) (m' : ConnectionManager) : Prop :=
  m' = { (m.take fd n).put fd out with sockfd := m'.sockfd, calls := m'.calls }

section Talking
variable {m m' m'' : ConnectionManager} {fd : ℤ} {out out' : Text} {n n' : ℕ}

theorem Talked.refl (m : ConnectionManager) (fd : ℤ) : Talked m fd [] 0 m := by
  rw [Talked, ConnectionManager.take_zero, ConnectionManager.put_nil]

theorem Talked.trans (h : Talked m fd out n m') (h' : Talked m' fd out' n' m'') :
    Talked m fd (out ++ out') (n + n') m'' := by
  rw [Talked, h', h]
  simp [ConnectionManager.take, ConnectionManager.put, List.append_assoc]

theorem talked_sent (h : m.Sent fd out m') : Talked m fd out 0 m' := by
  rw [Talked, ConnectionManager.take_zero, h]

theorem talked_took (h : m.Took fd n m') : Talked m fd [] n m' := by
  rw [Talked, ConnectionManager.put_nil, h]

end Talking

/-! ## The launch -/

def loginText (username machineName : Text) : Text := txt "login|" ++ username ++ txt "|" ++ machineName

def Granted (stream : Text) (sessionId : ℤ) (n : ℕ) : Prop :=
  ∃ f reply m, frameCodec.decode stream = some (f, stream.drop n) ∧ Packet.content reply = f.1 ∧
    readConfirmation reply m = .ok sessionId (m : ConnectionManager)

section Launching
variable {h : Host}

theorem readConfirmation_kept {σ : Type} {R : σ → σ → Prop} [Std.Refl R] [IsTrans σ R] (p : Packet) :
    Kept R (readConfirmation p : Exec σ ℤ) := by
  have hfield (fields : List Text) (i : ℕ) : Kept R (fieldAt fields i : Exec σ Text) := by
    unfold fieldAt
    split
    exacts [Kept.pure _, Kept.crash _]
  refine Kept.bind (splitBuffer_kept _) fun fields => Kept.bind (hfield _ _) fun command =>
    Kept.bind (hfield _ _) fun status => ?_
  split_ifs
  · refine Kept.bind (hfield _ _) fun number => ?_
    split
    exacts [Kept.pure _, Kept.raise _]
  · exact Kept.bind (charraystr_kept _ _) fun _ => Kept.raise _
  · exact Kept.raise _
  · exact Kept.raise _

theorem socketOf_own (m : ConnectionManager) : m.socketOf m.sockfd = m.sockfd := by
  unfold ConnectionManager.socketOf
  split_ifs <;> rfl

theorem sendLogin_talks (h : Host) (fuel : ℕ) (username machineName : Text) (m : ConnectionManager) :
    ∃ out, out <+: (Packet.ofCommand (loginText username machineName)).wire ∧
      m.Sent m.sockfd out (final (sendLogin h fuel username machineName m)) ∧
      (Returns (sendLogin h fuel username machineName m) →
        Packet.Fits (loginText username machineName) ∧
          out = (Packet.ofCommand (loginText username machineName)).wire) := by
  by_cases hfits : Packet.Fits (loginText username machineName)
  · have hrun : sendLogin h fuel username machineName m =
        sendPacket h fuel (Packet.ofCommand (loginText username machineName)) m.sockfd m :=
      run_bind_ok (Packet.setCommand_fits hfits m) _
    obtain ⟨out, hout, hsent, hret⟩ := sendPacket_bare (h := h)
      (show (Packet.ofCommand (loginText username machineName)).bytes = [] from rfl) fuel m.sockfd m
    rw [socketOf_own] at hsent
    rw [hrun]
    exact ⟨out, hout, hsent, fun hr => ⟨hfits, hret hr⟩⟩
  · obtain ⟨what, hlong⟩ := Packet.setCommand_long (p := Packet.init) hfits m
    have hrun : sendLogin h fuel username machineName m = .error (.raised what) m :=
      run_bind_error hlong _
    rw [hrun]
    exact ⟨[], List.nil_prefix, .refl _ _, fun hr => absurd hr (not_returns_error _ _)⟩

theorem receiveConfirmation_talks (m : ConnectionManager) :
    ∃ n, m.Took m.sockfd n (final (receiveConfirmation h m)) ∧
      ∀ id m', receiveConfirmation h m = .ok id m' → Granted (m.inbox m.sockfd) id n := by
  obtain ⟨n, -, htook, hlength⟩ := receivePacket_took (h := h) m.sockfd m
  rw [socketOf_own] at htook
  refine ⟨n, ?_, fun id m' hr => ?_⟩
  · cases hr : receivePacket h m.sockfd m with
    | error e m₁ =>
      have hrun : receiveConfirmation h m = .error e m₁ := run_bind_error hr _
      rw [hr] at htook
      rw [hrun]
      exact htook
    | ok reply m₁ =>
      have hrun : receiveConfirmation h m = readConfirmation reply m₁ := run_bind_ok hr _
      have hkept : m₁ = final (readConfirmation reply m₁) := readConfirmation_kept (R := Eq) reply m₁
      rw [hr] at htook
      rw [hrun, ← hkept]
      exact htook
  · obtain ⟨reply, m₁, hreceived, hread⟩ := run_bind_inv
      (show (receivePacket h m.sockfd >>= readConfirmation) m = .ok id m' from hr)
    have hkept : m₁ = final (readConfirmation reply m₁) := readConfirmation_kept (R := Eq) reply m₁
    rw [hread, final_ok] at hkept
    subst hkept
    obtain ⟨f, rest, hdecode, hf⟩ := receivePacket_decodes hreceived []
    rw [List.append_nil, socketOf_own] at hdecode
    obtain ⟨-, hheader, -, -, hrest⟩ := frameCodec_decode hdecode
    have hn : n = headerSize + f.1.1.payloadSize.toNat := by
      rw [hlength reply m₁ hreceived, hf]
      rfl
    refine ⟨f, reply, m₁, ?_, hf.symm, hread⟩
    rw [hdecode, hrest, List.drop_drop, hn]

theorem login_talks (h : Host) (fuel : ℕ) (username machineName : Text) (m : ConnectionManager) :
    ∃ out n, out <+: (Packet.ofCommand (loginText username machineName)).wire ∧
      Talked m m.sockfd out n (final (login h fuel username machineName m)) ∧
      ∀ id m', login h fuel username machineName m = .ok id m' →
        Packet.Fits (loginText username machineName) ∧
          out = (Packet.ofCommand (loginText username machineName)).wire ∧
          m'.sockfd = m.sockfd ∧ Granted (m.inbox m.sockfd) id n := by
  obtain ⟨out, hout, hsent, hwhole⟩ := sendLogin_talks h fuel username machineName m
  rw [login, run_bind]
  have hfinal := final_attempt_raise (sendLogin h fuel username machineName)
    (fun what => loginError (txt "Could not send login request:\n\t\t" ++ what)) m
  cases hr : attempt (sendLogin h fuel username machineName) (fun what =>
      raise (loginError (txt "Could not send login request:\n\t\t" ++ what))) m with
  | error e m₁ =>
    rw [hr, final_error] at hfinal
    rw [← hfinal] at hsent
    exact ⟨out, 0, hout, talked_sent hsent, fun id m' hok => by cases hok⟩
  | ok u m₁ =>
    have hreturned := attempt_raise_inv hr
    obtain ⟨hfits, hall⟩ := hwhole ⟨u, m₁, hreturned⟩
    rw [hreturned, final_ok] at hsent
    obtain ⟨n, htook, hreply⟩ := receiveConfirmation_talks (h := h) m₁
    rw [hsent.sockfd] at htook hreply
    rw [hsent.inbox] at hreply
    refine ⟨out, n, hout, ?_, fun id m' hok => ?_⟩
    · rw [final_attempt_raise]
      have htalked := (talked_sent hsent).trans (talked_took htook)
      rwa [List.append_nil, Nat.zero_add] at htalked
    · have hread := attempt_raise_inv hok
      rw [hread, final_ok] at htook
      exact ⟨hfits, hall, htook.sockfd.trans hsent.sockfd, hreply id m' hread⟩

theorem getHostByName_still (c : LaunchCalls) (again : Bool) (name : Text) :
    Kept (· = ·) (getHostByName c again name) := by
  unfold getHostByName
  split
  · exact Kept.raise _
  · split
    exacts [Kept.raise _, Kept.pure _]

theorem connectToServer_still (c : LaunchCalls) (address : Text) (port : ℤ) :
    Kept (· = ·) (connectToServer c address port) := by
  refine Kept.bind (getHostByName_still _ _ _) fun adjusted => ?_
  split_ifs
  · exact Kept.raise _
  · refine Kept.bind Kept.get fun m => ?_
    split_ifs
    exacts [Kept.raise _, Kept.pure _]

def greeting (c : LaunchCalls) (username : Text) : Packet :=
  Packet.ofCommand (loginText username c.machineName)

structure LoggedIn (c : LaunchCalls) (username : Text) (sessionId : ℤ) (out : Text) (n : ℕ)
    (m m' : ConnectionManager) : Prop where
  fits : Packet.Fits (loginText username c.machineName)
  sent : out = (greeting c username).wire
  own : m'.sockfd = c.socket
  granted : Granted (m.inbox c.socket) sessionId n

theorem establish_cases (c : LaunchCalls) (username address : Text) (port : ℤ) (m : ConnectionManager) :
    (∃ e, establish c username address port m = .error e { m with sockfd := c.socket }) ∨
      establish c username address port m =
        login c.host c.fuel username c.machineName { m with sockfd := c.socket } := by
  let m₀ : ConnectionManager := { m with sockfd := c.socket }
  by_cases hs : c.socket = -1
  · have hfailed : createSocket c.socket m =
        .error (.raised (connectionError [] (txt "Error creating socket!"))) m₀ := by
      rw [createSocket, if_pos hs]
      rfl
    exact .inl ⟨_, run_bind_error hfailed _⟩
  have hcreated : createSocket c.socket m = .ok () m₀ := by
    rw [createSocket, if_neg hs]
    rfl
  rw [establish, run_bind_ok hcreated]
  rcases run_bind_still (getHostByName_still c false address) (fun _ => do
      connectToServer c address port
      login c.host c.fuel username c.machineName) m₀ with ⟨e, hr⟩ | ⟨ip, -, hr⟩
  · exact .inl ⟨e, hr⟩
  rw [hr]
  rcases run_bind_still (connectToServer_still c address port)
      (fun _ => login c.host c.fuel username c.machineName) m₀ with ⟨e, hr⟩ | ⟨u, -, hr⟩
  exacts [.inl ⟨e, hr⟩, .inr hr]

theorem establish_talks (c : LaunchCalls) (username address : Text) (port : ℤ) (m : ConnectionManager) :
    ∃ out n, out <+: (greeting c username).wire ∧
      Talked m c.socket out n (final (establish c username address port m)) ∧
      ∀ id m', establish c username address port m = .ok id m' → LoggedIn c username id out n m m' := by
  have hnew : Talked m c.socket [] 0 { m with sockfd := c.socket } := by
    rw [Talked, ConnectionManager.take_zero, ConnectionManager.put_nil]
  rcases establish_cases c username address port m with ⟨e, hr⟩ | hr
  · rw [hr]
    exact ⟨[], 0, List.nil_prefix, hnew, fun id m' hok => by cases hok⟩
  · obtain ⟨out, n, hout, htalked, hlogged⟩ := login_talks c.host c.fuel username c.machineName
      { m with sockfd := c.socket }
    rw [hr]
    refine ⟨out, n, hout, ?_, fun id m' hok => ?_⟩
    · have hall := hnew.trans htalked
      rwa [List.nil_append, Nat.zero_add] at hall
    · obtain ⟨hfits, hall, hown, hgranted⟩ := hlogged id m' hok
      exact ⟨hfits, hall, hown, hgranted⟩

theorem launch_cases (c : LaunchCalls) (username address : Text) (port : ℤ) (w : ClientState) :
    (validArguments username address port = false ∧ ∃ e, launch c username address port w = .error e w) ∨
      (∃ e e' m, establish c username address port w.net = .error e m ∧
        launch c username address port w = .error e' { w with net := m }) ∨
      ∃ id m, establish c username address port w.net = .ok id m ∧
        launch c username address port w = .ok id { w with net := m, runningApp := true } := by
  unfold launch
  split_ifs with hinvalid
  · exact .inl ⟨by simpa using hinvalid, _, rfl⟩
  right
  cases hr : establish c username address port w.net with
  | error e m =>
    have hnet : onNet (establish c username address port) w = .error e { w with net := m } :=
      run_zoom_error hr
    cases e with
    | raised what => exact .inl ⟨_, _, m, rfl, run_attempt_raised (run_bind_error hnet _) _⟩
    | crashed k => exact .inl ⟨_, _, m, rfl, run_attempt_crashed (run_bind_error hnet _) _⟩
  | ok id m =>
    have hnet : onNet (establish c username address port) w = .ok id { w with net := m } :=
      run_zoom_ok hr
    refine .inr ⟨id, m, rfl, run_attempt_ok ((run_bind_ok hnet _).trans ?_) _⟩
    rfl

theorem launch_talks (c : LaunchCalls) (username address : Text) (port : ℤ) (w : ClientState) :
    ∃ out n, out <+: (greeting c username).wire ∧
      Talked w.net c.socket out n (final (launch c username address port w)).net ∧
      ∀ id w', launch c username address port w = .ok id w' →
        LoggedIn c username id out n w.net w'.net := by
  obtain ⟨out, n, hout, htalked, hlogged⟩ := establish_talks c username address port w.net
  rcases launch_cases c username address port w with
    ⟨-, e, hr⟩ | ⟨e, e', m, hestablish, hr⟩ | ⟨id, m, hestablish, hr⟩
  · rw [hr]
    exact ⟨[], 0, List.nil_prefix, .refl _ _, fun id w' hok => by cases hok⟩
  · rw [hestablish] at htalked
    rw [hr]
    exact ⟨out, n, hout, htalked, fun id w' hok => by cases hok⟩
  · rw [hestablish] at htalked
    rw [hr]
    refine ⟨out, n, hout, htalked, fun id' w' hok => ?_⟩
    cases hok
    exact hlogged id m hestablish

end Launching

/-! ## The commands -/

def farewell : Packet := Packet.ofCommand (txt "exit")

def Mute (w w' : ClientState) : Prop := w'.net = w.net

instance : Std.Refl Mute := ⟨fun _ => rfl⟩

instance : IsTrans ClientState Mute := ⟨fun _ _ _ h₁ h₂ => h₂.trans h₁⟩

def Silent (s s' : SyncState) : Prop := Mute s.client s'.client

instance : Std.Refl Silent := ⟨fun _ => rfl⟩

instance : IsTrans SyncState Silent := ⟨fun _ _ _ h₁ h₂ => h₂.trans h₁⟩

section Commands
variable {h : Host} {fuel : ℕ} {pending : PendingRead} {calls : WatchCalls}

theorem mute_admits : Client.Admits (fun _ => True) Mute where
  files _ _ := rfl
  push _ _ _ := rfl
  lock _ _ _ := rfl
  stop _ := rfl

theorem deleteTemporary_mute (directory : Text) : Kept Mute (deleteTemporaryDownloadFiles h directory) :=
  Kept.bind Kept.get fun _ => mute_admits.onFiles_kept _

theorem onClient_silent {α : Type} {p : ClientExec α} (hp : Kept Mute p) : Kept Silent (Client.onClient p) :=
  Kept.zoom hp fun _ _ hm => hm

theorem silent_control (s : SyncState) (c : SyncControl) : Silent s { s with control := c } := rfl

theorem prepareDirectories_mute : Kept Mute (prepareDirectories h) := by
  refine Kept.bind (Kept.modify fun _ => rfl) fun _ => Kept.bind Kept.get fun w => ?_
  refine Kept.bind (mute_admits.onFiles_kept _) fun found => raiseUnless_kept ?_
  refine Kept.bind (mute_admits.onFiles_kept _) fun found => raiseUnless_kept ?_
  exact Kept.bind (deleteTemporary_mute _) fun _ => Kept.bind (deleteTemporary_mute _) fun _ =>
    Kept.pure _

theorem startSync_silent : Kept Silent (startSync h calls) := by
  refine Kept.bind Kept.get fun s => ?_
  split_ifs
  · exact Kept.bind (onClient_silent prepareDirectories_mute) fun _ =>
      Kept.bind (control_kept silent_control _) fun _ => startWatching_kept silent_control
  · exact Kept.pure _

theorem clientCommand_silent (c : CommandCalls) {words : List Text} (hexit : words ≠ [txt "exit"]) :
    Kept Silent (clientCommand c words) := by
  have huser : Kept Silent (Client.onClient (processUserInterfaceCommands c.host c.fuel words)) :=
    onClient_silent (mute_admits.userCommand_kept hexit fun _ _ _ _ => trivial)
  unfold clientCommand
  split
  · split_ifs with hcommand
    · exact absurd (hcommand ▸ rfl) hexit
    · exact huser
  · split_ifs
    exacts [startSync_silent, Kept.pure _]
  · exact huser

def sayFarewell (h : Host) (fuel : ℕ) : ClientExec Unit := onNet (sendPacket h fuel farewell (-1))

def cleanUp (h : Host) : ClientExec Unit := do
  let _ ← deleteTemporaryDownloadFiles h (← get).syncDirPath

theorem exitSync_run (s : SyncState) : exitSync h fuel pending s = (do
    Client.onClient (sayFarewell h fuel >>= fun _ => cleanUp h)
    stopIfRunning pending
    Client.onClient (modify ClientState.stop) : SyncExec Unit)
      { s with client := { s.client with senderBuffer := [] } } := by
  have hinside := run_bind_ok (Packet.setCommand_fits (p := Packet.init)
    (show Packet.Fits (txt "exit") by decide) s.client) fun p => do
      modify fun w : ClientState => { w with senderBuffer := [] }
      onNet (sendPacket h fuel p (-1))
      cleanUp h
  have hfirst : Client.onClient (do
      let p ← Packet.init.setCommand (txt "exit")
      modify fun w : ClientState => { w with senderBuffer := [] }
      onNet (sendPacket h fuel p (-1))
      cleanUp h) s = Client.onClient (sayFarewell h fuel >>= fun _ => cleanUp h)
        { s with client := { s.client with senderBuffer := [] } } := by
    unfold Client.onClient zoom
    rw [hinside]
    rfl
  rw [run_bind, ← hfirst, ← run_bind]
  rfl

theorem exitSync_talks (h : Host) (fuel : ℕ) (pending : PendingRead) (s : SyncState) :
    (∃ out, out <+: farewell.wire ∧
        Talked s.client.net s.client.net.sockfd out 0 (final (exitSync h fuel pending s)).client.net) ∧
      ∀ u s', exitSync h fuel pending s = .ok u s' → s'.client.runningApp = false := by
  constructor
  · have hclean : Kept Mute (cleanUp h) :=
      Kept.bind Kept.get fun _ => Kept.bind (deleteTemporary_mute _) fun _ => Kept.pure _
    have hsays : Leads Silent (Client.onClient (sayFarewell h fuel))
        (Client.onClient (sayFarewell h fuel >>= fun _ => cleanUp h)) :=
      Leads.zoom (Leads.bind_kept (Leads.refl _) fun _ => hclean) fun _ _ _ hm => hm
    have hleads : Leads Silent (Client.onClient (sayFarewell h fuel)) (do
        Client.onClient (sayFarewell h fuel >>= fun _ => cleanUp h)
        stopIfRunning pending
        Client.onClient (modify ClientState.stop)) :=
      Leads.bind_kept hsays fun _ => Kept.bind (stopIfRunning_kept silent_control _) fun _ =>
        onClient_silent (Kept.modify fun _ => rfl)
    have hend := hleads { s with client := { s.client with senderBuffer := [] } }
    rw [← exitSync_run] at hend
    obtain ⟨out, hout, hsent, -⟩ := sendPacket_bare (h := h) (show farewell.bytes = [] from rfl) fuel (-1)
      s.client.net
    have hown : s.client.net.socketOf (-1) = s.client.net.sockfd := if_pos rfl
    rw [hown] at hsent
    refine ⟨out, hout, ?_⟩
    have hnet : (final (exitSync h fuel pending s)).client.net =
        final (sendPacket h fuel farewell (-1) s.client.net) :=
      hend.trans (by rw [Client.onClient, final_zoom, sayFarewell, onNet, final_zoom])
    rw [hnet]
    exact talked_sent hsent
  · intro u s' hr
    obtain ⟨_, s₁, -, hr⟩ := run_bind_inv hr
    obtain ⟨_, s₂, -, hr⟩ := run_bind_inv hr
    cases hr
    rfl

end Commands

/-! ## Whole runs -/

section Runs
variable {q q' : Terminal SyncState} {e : TerminalEvent CommandCalls}

structure Finished (q : Terminal SyncState) : Prop where
  idle : q.main ≠ .processing
  ended : q.runningApp = false ∨ q.main = .left ∨ q.main = .joined

theorem Finished.notified (hq : Finished q) : Finished q.notifyMain := by
  obtain ⟨hidle, hover⟩ := hq
  unfold Terminal.notifyMain
  split_ifs with hp
  · simp only [hp, reduceCtorEq, or_false] at hover
    exact ⟨by simp, .inl hover⟩
  · exact ⟨hidle, hover⟩

theorem finished_step (hq : Finished q) (hs : terminalStep clientApplication e q = some q') :
    Finished q' := by
  obtain ⟨hidle, hover⟩ := hq
  cases e with
  | types line =>
    obtain ⟨-, rfl⟩ := types_inv hs
    exact ⟨hidle, hover⟩
  | inputs =>
    cases input_turn_inv hs with
    | notifies hp | stops hp => exact Finished.notified ⟨hidle, hover⟩
    | _ => exact ⟨hidle, hover⟩
  | mains =>
    cases main_turn_inv hs with
    | prompts hp hr | goesOn hp hr | calls hp hr => simp [hp, hr] at hover
    | decides hp hb hr => simp [hp, hr] at hover
    | leaves hp | raises hp | gives hp => exact ⟨by simp [Terminal.notifyInput], .inr (.inl rfl)⟩
    | joins hp => exact ⟨by simp, .inr (.inr rfl)⟩
    | quits hp hr => exact ⟨by simp, .inl hr⟩
    | _ =>
      simp only [*, reduceCtorEq, or_false] at hover
      exact ⟨by simp [Terminal.notifyInput], .inl hover⟩
  | processes k =>
    obtain ⟨hp, -⟩ := processes_inv hs
    exact absurd hp hidle
  | elsewhere k =>
    obtain ⟨app, -, rfl⟩ := elsewhere_inv hs
    exact ⟨hidle, hover⟩
  | acceptEnds =>
    obtain ⟨hp, rfl⟩ := acceptEnds_inv hs
    simp only [hp, reduceCtorEq, or_false] at hover
    exact ⟨by simp, .inl hover⟩
  | wakesInput | wakesMain | wakesBuffer =>
    rcases spurious_inv rfl hs with ⟨-, rfl⟩ | ⟨hp, rfl⟩ | ⟨-, rfl⟩
    · exact ⟨hidle, hover⟩
    · simp only [hp, reduceCtorEq, or_false] at hover
      exact ⟨by simp, .inl hover⟩
    · exact ⟨hidle, hover⟩

inductive Spoken (c : LaunchCalls) (m : ConnectionManager) (q : Terminal SyncState) : Prop where
  | nothing (hnet : q.app.client.net = m)
  | goodbye {out : Text} (hout : out <+: farewell.wire) (htalked : Talked m c.socket out 0 q.app.client.net)
    (hexit : [txt "exit"] ∈ q.handled) (hdone : Finished q)

theorem clientCommand_exit (c : CommandCalls) :
    clientCommand c [txt "exit"] = exitSync c.host c.fuel c.pending := by
  rw [clientCommand, if_pos rfl]

theorem command_talks (c : CommandCalls) (words : List Text) (s : SyncState) :
    (final (clientCommand c words s)).client.net = s.client.net ∨ words = [txt "exit"] ∧
      ∃ out, out <+: farewell.wire ∧ Talked s.client.net s.client.net.sockfd out 0
        (final (clientCommand c words s)).client.net := by
  by_cases hexit : words = [txt "exit"]
  · subst hexit
    have hrun : clientCommand c [txt "exit"] s = exitSync c.host c.fuel c.pending s :=
      congrFun (clientCommand_exit c) s
    rw [hrun]
    exact .inr ⟨rfl, (exitSync_talks c.host c.fuel c.pending s).1⟩
  · exact .inl (clientCommand_silent c hexit s)

theorem process_talks {c : CommandCalls} {buffer : Text} {words : List Text} {s s' : SyncState}
    {v : Verdict} (h : clientApplication.process c buffer words s = some (v, s')) :
    s'.client.net = s.client.net ∨
      words = [txt "exit"] ∧ v ≠ .returns ∧
        ∃ out, out <+: farewell.wire ∧ Talked s.client.net s.client.net.sockfd out 0 s'.client.net := by
  obtain ⟨hs', hreturns⟩ := process_inv h
  rcases command_talks c words s with hsame | ⟨rfl, hsaid⟩
  · exact .inl (hs' ▸ hsame)
  · refine .inr ⟨rfl, fun hv => ?_, hs' ▸ hsaid⟩
    obtain ⟨hok, hruns⟩ := hreturns hv
    rw [clientCommand_exit] at hok
    rw [(exitSync_talks c.host c.fuel c.pending s).2 () s' hok] at hruns
    cases hruns

theorem conclude_finished {v : Verdict} (hv : v ≠ .returns) (app : SyncState) :
    Finished (q.conclude clientApplication v app) := by
  cases v with
  | returns => exact absurd rfl hv
  | exits => exact ⟨by simp [Terminal.conclude, clientApplication], .inl rfl⟩
  | raises => exact ⟨by simp [Terminal.conclude], .inr (.inl rfl)⟩

theorem spoken_step {c : LaunchCalls} {m : ConnectionManager} (hm : m.sockfd = c.socket)
    (hq : Spoken c m q) (hs : terminalStep clientApplication e q = some q') : Spoken c m q' := by
  have happ := terminalStep_app hs
  cases hq with
  | goodbye hout htalked hexit hdone =>
    have hsame : q'.app.client.net = q.app.client.net := by
      rcases happ with ⟨k, v, rfl, -⟩ | ⟨k, -, helse⟩ | ⟨-, hsame⟩
      · exact absurd (processes_inv hs).1 hdone.idle
      · exact congrArg ClientState.net (elsewhere_client helse)
      · rw [hsame]
    exact .goodbye hout (hsame ▸ htalked) ((terminalStep_handled hs).mem hexit) (finished_step hdone hs)
  | nothing hnet =>
    rcases happ with ⟨k, v, rfl, -⟩ | ⟨k, -, helse⟩ | ⟨-, hsame⟩
    · obtain ⟨-, v, app, hprocess, rfl⟩ := processes_inv hs
      rcases process_talks hprocess with hsame | ⟨hwords, hv, out, hout, htalked⟩
      · exact .nothing (hsame.trans hnet)
      · rw [hnet, hm] at htalked
        refine .goodbye hout htalked ?_ (conclude_finished hv app)
        have hrecord : (q.conclude clientApplication v app).handled = q.handled ++ [q.sanitizedCommands] :=
          rfl
        rw [hrecord, hwords]
        exact List.mem_append_right _ (List.mem_singleton_self _)
    · exact .nothing ((congrArg ClientState.net (elsewhere_client helse)).trans hnet)
    · exact .nothing (hsame ▸ hnet)

theorem launched_spoken {c : LaunchCalls} {username address : Text} {port : ℤ} {w w' : ClientState}
    {sessionId : ℤ} {control : SyncControl} {queued : List Text} {es : List (TerminalEvent CommandCalls)}
    (hlaunch : launch c username address port w = .ok sessionId w')
    (hrun : runSteps (terminalStep clientApplication) es (Terminal.start queued ⟨w', control⟩) = some q) :
    ∃ n, Granted (w.net.inbox c.socket) sessionId n ∧ w'.net.sockfd = c.socket ∧
      Talked w.net c.socket (greeting c username).wire n w'.net ∧ Spoken c w'.net q := by
  obtain ⟨out, n, -, htalked, hlogged⟩ := launch_talks c username address port w
  rw [hlaunch, final_ok] at htalked
  have hin := hlogged sessionId w' hlaunch
  obtain rfl := hin.sent
  exact ⟨n, hin.granted, hin.own, htalked,
    runSteps_preserves (fun _ _ _ _ hq hs => spoken_step hin.own hq hs) (.nothing rfl) hrun⟩

end Runs

def localCalls : LaunchCalls :=
  ⟨pageHost.1, 2, txt "laptop", 4, fun _ name => some name, fun host => some host, fun _ => true,
    fun _ _ _ => true⟩

def newClient : ClientState := { idleClient.client with net := replying (txt "login|ok|1") }

theorem launched_locally :
    ∃ m, launch localCalls (txt "ana") (txt "localhost") 8080 newClient =
      .ok 1 { newClient with net := m, runningApp := true } := by
  obtain ⟨m₁, m₂, hs, hr⟩ := login_exchanged (txt "login|ok|1")
  obtain ⟨ht, hfields⟩ := (Packet.ofCommand_carries (by decide)).toReads.fields
    (show nul ∉ txt "login|ok|1" by decide)
  have hsplit : splitScan [] (txt "login|ok|1") = [txt "login", txt "ok", txt "1"] := by decide
  have hlogin : login localCalls.host localCalls.fuel (txt "ana") localCalls.machineName
      { newClient.net with sockfd := localCalls.socket } = .ok 1 m₂ := by
    refine (run_bind_ok (run_attempt_ok hs _) _).trans (run_attempt_ok ?_ _)
    rw [receiveConfirmation, run_bind_ok (run_get m₁)]
    refine (run_bind_ok hr _).trans ?_
    exact readConfirmation_numbered ht (hfields.trans hsplit)
  have hestablish : establish localCalls (txt "ana") (txt "localhost") 8080 newClient.net = .ok 1 m₂ := by
    rw [← hlogin]
    refine (run_bind_ok (show createSocket localCalls.socket newClient.net = .ok () _ from rfl) _).trans ?_
    refine (run_bind_ok (show getHostByName localCalls false (txt "localhost") _ =
      .ok (txt "localhost") _ from rfl) _).trans ?_
    exact run_bind_ok (show connectToServer localCalls (txt "localhost") 8080 _ = .ok () _ from rfl) _
  rcases launch_cases localCalls (txt "ana") (txt "localhost") 8080 newClient with
    ⟨h, -⟩ | ⟨e, e', m, h, -⟩ | ⟨id, m, h, hlaunch⟩
  · exact absurd h (by decide)
  · rw [hestablish] at h
    cases h
  · rw [hestablish] at h
    cases h
    exact ⟨_, hlaunch⟩

end SyncWizard.Properties
