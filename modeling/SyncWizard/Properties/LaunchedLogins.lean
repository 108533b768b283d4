import SyncWizard.Properties.ClientWire
import SyncWizard.Properties.ShownUsers

/-! What becomes of the login of a client that its constructor has let through: how the server reads it, and
which number the client reads in the answer. -/

namespace SyncWizard.Properties
open Foundation Common Client Server

theorem frameCodec_decode_append {s : Text} {f : {f : Header × Text // f.2.length = f.1.payloadSize.toNat}}
    {rest : Text} (hd : frameCodec.decode s = some (f, rest)) (later : Text) :
    frameCodec.decode (s ++ later) = some (f, rest ++ later) := by
  obtain ⟨hheader, hfirst, hbody, hsize, hrest⟩ := frameCodec_decode hd
  have htake : (s ++ later).take headerSize = s.take headerSize := List.take_append_of_le_length hheader
  have hdrop : (s ++ later).drop headerSize = s.drop headerSize ++ later :=
    List.drop_append_of_le_length hheader
  have hlong : (readHeader ((s ++ later).take headerSize)).payloadSize.toNat ≤
      ((s ++ later).drop headerSize).length := by
    rw [htake, hdrop, ← hfirst, List.length_append]
    exact hsize.trans (Nat.le_add_right _ _)
  obtain ⟨f', rest', hd', hf'⟩ := frameCodec_decodes
    (hheader.trans (List.length_append ▸ Nat.le_add_right _ _)) hlong
  have hsame : f' = f := by
    refine Subtype.ext (hf'.trans ?_)
    rw [htake, hdrop, ← hfirst, List.take_append_of_le_length hsize, ← hbody]
  subst hsame
  rw [hd', (frameCodec_decode hd').2.2.2.2, hdrop, List.drop_append_of_le_length hsize, hrest]

theorem received_content {h : Host} {fd : ℤ} {m m' : ConnectionManager} {p q : Packet} {rest : Text}
    (hr : receivePacket h fd m = .ok p m') (hq : q.Exact)
    (hinbox : m.inbox (m.socketOf fd) = q.wire ++ rest) : p.content = q.content := by
  obtain ⟨f, r, hdecode, hf⟩ := receivePacket_decodes hr []
  rw [List.append_nil, hinbox, ← Packet.encode_frame hq, frameCodec.decode_encode] at hdecode
  rw [← hf, ← (Prod.mk.inj (Option.some.inj hdecode)).1]
  rfl

section Contents
variable {p q : Packet}

theorem content_memory (h : p.content = q.content) : p.memory = q.memory :=
  congrArg (fun r : Header × Text => headerBytes r.1) h

theorem content_terminated (h : p.content = q.content) (hq : q.Terminated) : p.Terminated := by
  unfold Packet.Terminated
  rwa [content_memory h]

theorem content_fields (h : p.content = q.content) : p.fields = q.fields := by
  unfold Packet.fields
  rw [content_memory h]

end Contents

/-! ## The login as the server reads it -/

section Reading
variable {c : LaunchCalls} {username address : Text} {port sessionId : ℤ} {w w' : ClientState}

theorem launch_valid (hlaunch : launch c username address port w = .ok sessionId w') :
    isValidUsername username = true ∧ Packet.Fits (loginText username c.machineName) := by
  obtain ⟨out, n, -, -, hlogged⟩ := launch_talks c username address port w
  refine ⟨?_, (hlogged _ _ hlaunch).fits⟩
  unfold launch at hlaunch
  split_ifs at hlaunch with hvalid
  · cases hlaunch
  · have hall : validArguments username address port = true := by simpa using hvalid
    exact (Bool.and_eq_true_iff.mp (Bool.and_eq_true_iff.mp hall).1).1

theorem isalnum_ne {a : Byte} (ha : isalnum a = false) (hv : isValidUsername username = true) :
    a ∉ username := by
  intro hmem
  rw [List.all_eq_true.mp hv a hmem] at ha
  cases ha

theorem greeting_fields (hlaunch : launch c username address port w = .ok sessionId w')
    (hbar : bar ∉ c.machineName) (hnul : nul ∉ c.machineName) :
    (greeting c username).Terminated ∧
      (greeting c username).fields = [txt "login", username, c.machineName] := by
  obtain ⟨hv, hfits⟩ := launch_valid hlaunch
  have hnone : nul ∉ loginText username c.machineName := by
    simp only [loginText, List.mem_append, not_or]
    exact ⟨⟨⟨by decide, isalnum_ne (by decide) hv⟩, by decide⟩, hnul⟩
  obtain ⟨hterminated, hfields⟩ := (Packet.ofCommand_carries hfits).toReads.fields hnone
  have hbarless : bar ∉ username := isalnum_ne (by decide) hv
  refine ⟨hterminated, hfields.trans ((splitScan_three (by decide)).mpr ⟨?_, hbarless, hbar⟩)⟩
  rfl

end Reading

/-- A login that a client has launched with is one that the accept loop hands on, under the name that the
client was started with. -/
theorem launched_login_read (c : LaunchCalls) (username address : Text) (port sessionId : ℤ)
    (w w' : ClientState) (hlaunch : launch c username address port w = .ok sessionId w')
    (hbar : bar ∉ c.machineName) (hnul : nul ∉ c.machineName) (h : Host) (fd : ℤ) (m m' : ConnectionManager)
    (p : Packet) (rest : Text) (hinbox : m.inbox (m.socketOf fd) = (greeting c username).wire ++ rest)
    (hreceive : receivePacket h fd m = .ok p m') :
    Tried p ∧ p.fields = [txt "login", username, c.machineName] := by
  obtain ⟨hterminated, hfields⟩ := greeting_fields hlaunch hbar hnul
  have hexact : (greeting c username).Exact := rfl
  have hcontent := received_content hreceive hexact hinbox
  have hread : p.fields = [txt "login", username, c.machineName] := (content_fields hcontent).trans hfields
  refine ⟨⟨content_terminated hcontent hterminated, by rw [hread]; rfl, ?_⟩, hread⟩
  rw [usernameOf, hread]
  exact (launch_valid hlaunch).1

def greeted : ServerState := final (arrive 4 (greeting localCalls (txt "ana")).wire emptyServer)

theorem greeted_inbox : greeted.net.inbox 4 = (greeting localCalls (txt "ana")).wire :=
  Function.update_self (4 : ℤ) _ emptyServer.net.inbox

def greetedRead : ServerState := { greeted with net := greeted.net.tick.tick.take 4 headerSize }

theorem greeted_received : receivePacket pageHost.1 4 greeted.net = .ok loginPacket greetedRead.net :=
  receivePacket_atOnce rfl (greeted_inbox.trans (List.append_nil _)) rfl rfl

theorem launched_login_read_ana :
    Tried loginPacket ∧ loginPacket.fields = [txt "login", txt "ana", localCalls.machineName] := by
  obtain ⟨m, hlaunch⟩ := launched_locally
  exact launched_login_read localCalls (txt "ana") (txt "localhost") 8080 1 newClient _ hlaunch (by decide)
    (by decide) pageHost.1 4 greeted.net greetedRead.net loginPacket []
    (greeted_inbox.trans (List.append_nil _).symm) greeted_received

/-! ## The answer as the client reads it -/

def Longer (fd : ℤ) (w w' : ServerState) : Prop := w.net.outbox fd <+: w'.net.outbox fd

section Answering
variable {h : Host} {fuel : ℕ} {fd : ℤ} {w v : ServerState} {name : Text}

instance (fd : ℤ) : Std.Refl (Longer fd) := ⟨fun _ => List.prefix_refl _⟩

instance (fd : ℤ) : IsTrans ServerState (Longer fd) := ⟨fun _ _ _ h₁ h₂ => List.IsPrefix.trans h₁ h₂⟩

theorem send_longer (p : Packet) (sockfd : ℤ) :
    Kept (Longer fd) (Server.onNet (sendPacket h fuel p sockfd)) :=
  Kept.zoom (sendPacket_writesOn fuel p sockfd) fun _ _ hm => hm.longer fd

theorem closeSocket_longer (sockfd : ℤ) : Kept (Longer fd) (closeSocket sockfd) :=
  Kept.modify fun _ => List.prefix_refl _

theorem refuse_longer (sockfd : ℤ) (reason : Text) : Kept (Longer fd) (refuse h fuel sockfd reason) :=
  refuse_kept (fun _ => send_longer _ _) (closeSocket_longer _) reason

theorem approve_longer (sockfd : ℤ) : Kept (Longer fd) (approve h fuel sockfd) :=
  approve_kept fun _ => send_longer _ _

theorem registerSession_confirms (hi : Invariant w) (hfd : 0 ≤ fd) {machine : Text}
    (hr : registerSession h fuel fd name machine w = .ok () v) :
    sessionCount w name < 2 ∧
      v.net.outbox fd = w.net.outbox fd ++ (confirmationPacket (sessionCount w name)).wire := by
  have hadmitted := (registerSession_returns machine hi.knownUsers).mp ⟨(), v, hr⟩
  rcases registerSession_net h fuel fd name machine hi.knownUsers with ⟨e, v', hrun, -⟩ | ⟨hcount, hnet⟩
  · rw [hr] at hrun
    cases hrun
  · rw [hr, final_ok] at hnet
    obtain ⟨out, -, hsent, hwhole⟩ := sendPacket_bare (h := h)
      (show (confirmationPacket (sessionCount w name)).bytes = [] from rfl) fuel fd w.net
    rw [hwhole hadmitted.startable.sent, ← hnet, socketOf_new hfd] at hsent
    exact ⟨hcount, hsent.outbox_self⟩

theorem loginOn_confirms (hi : Invariant w) (hfd : 0 ≤ fd) (hr : loginOn h fuel fd w = .ok name v) :
    sessionCount w name < 2 ∧
      v.net.outbox fd = w.net.outbox fd ++ (confirmationPacket (sessionCount w name)).wire := by
  obtain ⟨p, v₀, hreceived, hr⟩ := run_bind_inv hr
  obtain ⟨fields, v₁, hsplit, hr⟩ := run_bind_inv hr
  have hsame : v₀ = final (splitBuffer p.memory v₀) := splitBuffer_kept (R := Eq) _ v₀
  rw [hsplit, final_ok] at hsame
  subst hsame
  obtain ⟨n, -, htook, -⟩ := receivePacket_took (h := h) fd w.net
  have hnet : v₀ = { w with net := final (receivePacket h fd w.net) } := by
    have hfinal := congrArg final hreceived
    rw [Server.onNet, final_zoom, final_ok] at hfinal
    exact hfinal.symm
  have hcount : sessionCount v₀ name = sessionCount w name := by
    rw [hnet]
    rfl
  have houtbox : v₀.net.outbox = w.net.outbox := by
    rw [hnet, show (final (receivePacket h fd w.net)).outbox = (w.net.take _ n).outbox by rw [htook]]
    rfl
  have hi₀ : Invariant v₀ := SameRegistry.invariant (w := w) (by rw [hnet]; rfl) hi
  match fields with
  | [] | [_] | [_, _] | _ :: _ :: _ :: _ :: _ => cases hr
  | [command, username, machine] =>
    by_cases hv : isValidUsername username = true
    · simp only [hv, if_true] at hr
      obtain ⟨u, v₂, hregistered, hr⟩ := run_bind_inv hr
      cases hr
      have hconfirmed := registerSession_confirms hi₀ hfd hregistered
      rwa [hcount, houtbox] at hconfirmed
    · simp only [hv] at hr
      cases hr

theorem registers_inv (hreg : registers (.accepts h fuel fd) w = some name) :
    ∃ v, loginOn h fuel fd w = .ok name v := by
  simp only [registers] at hreg
  cases hr : loginOn h fuel fd w with
  | ok username v =>
    rw [hr] at hreg
    cases hreg
    exact ⟨v, rfl⟩
  | error e v =>
    rw [hr] at hreg
    cases hreg

theorem acceptConnection_confirms (hi : Invariant w) (hfd : 0 ≤ fd)
    (hreg : registers (.accepts h fuel fd) w = some name) :
    sessionCount w name < 2 ∧ ∃ rest, (final (acceptConnection h fuel fd w)).net.outbox fd =
      w.net.outbox fd ++ ((confirmationPacket (sessionCount w name)).wire ++ rest) := by
  obtain ⟨v, hr⟩ := registers_inv hreg
  obtain ⟨hcount, hout⟩ := loginOn_confirms hi hfd hr
  have hleads := @acceptConnection_leads (Longer fd) _ _ h fuel fd (refuse_longer fd) (approve_longer fd)
    (closeSocket_longer fd) w
  rw [hr, final_ok] at hleads
  obtain ⟨rest, hrest⟩ := hleads
  rw [hout, List.append_assoc] at hrest
  exact ⟨hcount, rest, hrest.symm⟩

theorem granted_confirmed {n k : ℕ} (hn : n < 2) {stream rest : Text} {sessionId : ℤ}
    (hg : Granted stream sessionId k) (hs : stream <+: (confirmationPacket n).wire ++ rest) :
    sessionId = n + 1 := by
  obtain ⟨f, reply, m, hdecode, hcontent, hread⟩ := hg
  obtain ⟨later, hlater⟩ := hs
  have happroval := confirmation_approves hn
  have hsame : reply.content = (confirmationPacket n).content := by
    have hwhole := frameCodec_decode_append hdecode later
    rw [hlater, ← Packet.encode_frame (confirmation_exact n), frameCodec.decode_encode] at hwhole
    rw [hcontent, ← (Prod.mk.inj (Option.some.inj hwhole)).1]
    rfl
  have hnumber := readConfirmation_numbered (content_terminated hsame happroval.terminated)
    ((content_fields hsame).trans happroval.fields) (s := m)
  rw [← readConfirmation_numbered happroval.terminated happroval.fields, happroval.decoded m, hread]
    at hnumber
  cases hnumber
  rfl

end Answering

/-- The number that a client reads is the number of logins that the server has ever accepted for its user,
with its own, and this is how many sessions the server lists for the user then. -/
theorem sessions_numbered {w : ServerState} (hw : w.users = []) (queued : List Text)
    (es : List (TerminalEvent ServerThread)) (q : Terminal ServerProgram)
    (hrun : runSteps (terminalStep serverApplication) es (Terminal.start queued ⟨w, []⟩) = some q)
    (h : Host) (fuel : ℕ) (fd : ℤ) (hfd : 0 ≤ fd) (name : Text)
    (hreg : registers (.accepts h fuel fd) q.app.server = some name) (reply : Text)
    (hreply : (final (acceptConnection h fuel fd q.app.server)).net.outbox fd =
      q.app.server.net.outbox fd ++ reply)
    (c : LaunchCalls) (username address : Text) (port sessionId : ℤ) (u u' : ClientState)
    (hlaunch : launch c username address port u = .ok sessionId u')
    (hinbox : u.net.inbox c.socket <+: reply) :
    let logins := outputs (terminalStep serverApplication) registered es (Terminal.start queued ⟨w, []⟩)
    sessionId = logins.count name + 1 ∧
      sessionId = (roster (final (acceptConnection h fuel fd q.app.server))).count name := by
  intro logins
  have hcounted := outputs_invariant registered (I := Counted) (counted_start hw queued)
    (fun _ _ _ _ hq hs => counted_step hq hs) hrun
  obtain ⟨hfew, rest, hout⟩ := acceptConnection_confirms hcounted.registry hfd hreg
  have henters := (perform_enters hcounted.registry (.accepts h fuel fd)).2
  rw [hreg] at henters
  have hlisted := henters.count name
  rw [Option.toList_some, List.count_singleton_self, hcounted.counts name] at hlisted
  obtain ⟨out, n, -, -, hlogged⟩ := launch_talks c username address port u
  rw [List.append_cancel_left (hreply.symm.trans hout)] at hinbox
  have hid := granted_confirmed hfew (hlogged _ _ hlaunch).granted hinbox
  rw [← roster_count, hcounted.counts name] at hid
  refine ⟨hid, hid.trans ?_⟩
  rw [show final (acceptConnection h fuel fd q.app.server) =
    final ((ServerThread.accepts h fuel fd).perform q.app.server) from rfl, hlisted]
  rfl

theorem greeted_accepts :
    (∃ v, acceptConnection pageHost.1 (headerSize + 1) 4 greeted = .ok () v) ∧
      registers (.accepts pageHost.1 (headerSize + 1) 4) greeted = some (txt "ana") := by
  obtain ⟨v, m, -, haccepted, hregisters, -⟩ := login_taken (by decide) (by decide)
    (invariant_empty (w := emptyServer) rfl) rfl (first_returns 0)
  exact ⟨⟨_, haccepted⟩, hregisters⟩

theorem confirmation_answered :
    newClient.net.inbox localCalls.socket = (confirmationPacket (sessionCount greeted (txt "ana"))).wire := by
  have hcount : sessionCount greeted (txt "ana") = 0 := rfl
  have htext : confirmation 0 = txt "login|ok|1" := by decide
  rw [hcount, confirmationPacket, htext]
  exact (List.append_nil _).symm

def loginArrives : List (TerminalEvent ServerThread) :=
  [.elsewhere (.session ⟨pageHost.1, 0, 0, .arrives 4 (greeting localCalls (txt "ana")).wire⟩)]

theorem sessions_numbered_first :
    (1 : ℤ) = ((outputs (terminalStep serverApplication) registered loginArrives
        (Terminal.start [] ⟨emptyServer, []⟩)).count (txt "ana") : ℕ) + 1 ∧
      (1 : ℤ) =
        (roster (final (acceptConnection pageHost.1 (headerSize + 1) 4 greeted))).count (txt "ana") := by
  obtain ⟨m, hlaunch⟩ := launched_locally
  obtain ⟨q, hrun, hq⟩ : ∃ q, runSteps (terminalStep serverApplication) loginArrives
      (Terminal.start [] ⟨emptyServer, []⟩) = some q ∧ q.app.server = greeted :=
    ⟨_, rfl, rfl⟩
  have hreg := greeted_accepts.2
  obtain ⟨-, rest, hout⟩ := acceptConnection_confirms (invariant_empty (w := greeted) rfl) (by decide) hreg
  have hinbox : newClient.net.inbox localCalls.socket <+:
      (confirmationPacket (sessionCount greeted (txt "ana"))).wire ++ rest :=
    ⟨rest, congrArg (fun s => s ++ rest) confirmation_answered⟩
  rw [← hq] at hreg hout hinbox ⊢
  exact sessions_numbered (w := emptyServer) rfl [] loginArrives q hrun pageHost.1 (headerSize + 1) 4
    (by decide) (txt "ana") hreg _ hout localCalls (txt "ana") (txt "localhost") 8080 1
    newClient _ hlaunch hinbox

end SyncWizard.Properties
