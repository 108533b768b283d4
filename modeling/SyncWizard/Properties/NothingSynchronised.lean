import SyncWizard.Common.Storage
import SyncWizard.Properties.LaunchedLogins
import SyncWizard.Properties.SenderSockets

/-! Clients and their server together. All that a client ever says is a login and perhaps an exit, and the
server that hears no more than that looks after the folders of its users and touches no file. -/

namespace SyncWizard.Properties
open Foundation Common Server

/-! ## The files of the server -/

def ForFolder (a : Access) : Prop :=
  (a.kind = .test ∨ a.kind = .create) ∧
    ∃ username, isValidUsername username = true ∧ a.path = syncDir ++ txt "/" ++ username

structure OnlyFolders (f f' : FileSystem) : Prop where
  files : ∀ p c, f'.node p = some (.file c) ↔ f.node p = some (.file c)
  touched : Touched ForFolder f f'

section Folders
variable {h : Host} {f : FileSystem} {username : Text}

instance : Std.Refl OnlyFolders := ⟨fun f => ⟨fun _ _ => Iff.rfl, refl_of _ f⟩⟩

instance : IsTrans FileSystem OnlyFolders := ⟨fun _ _ _ h₁ h₂ =>
  ⟨fun p c => (h₂.files p c).trans (h₁.files p c), trans_of _ h₁.touched h₂.touched⟩⟩

theorem record_onlyFolders (f : FileSystem) {kind : AccessKind} {path : Text} (ha : ForFolder ⟨kind, path⟩) :
    OnlyFolders f (f.record kind path) := ⟨fun _ _ => Iff.rfl, touched_record f ha⟩

theorem isValidPath_onlyFolders {path : Text} (ha : ForFolder ⟨.test, path⟩) :
    Kept OnlyFolders (isValidPath h path) := by
  intro f
  unfold isValidPath
  split <;> exact record_onlyFolders f ha

theorem store_file {p : Path} (hp : ∀ c, f.node p ≠ some (.file c)) (q : Path) (c : Text) :
    (f.store p .directory).node q = some (.file c) ↔ f.node q = some (.file c) := by
  rcases eq_or_ne p [] with rfl | hne
  · rcases eq_or_ne q [] with rfl | hq
    · rw [FileSystem.node_nil, FileSystem.node_nil]
    · rw [FileSystem.store, FileSystem.node, FileSystem.node, if_neg hq, if_neg hq,
        AList.lookup_insert_ne hq]
  · rw [FileSystem.store_node hne]
    split_ifs with hq
    · subst hq
      exact iff_of_false (by simp) (hp c)
    · exact Iff.rfl

theorem storeAll_file {ps : List Path} (hps : ∀ p ∈ ps, ∀ c, f.node p ≠ some (.file c)) (q : Path)
    (c : Text) :
    (ps.foldl (fun f p => f.store p .directory) f).node q = some (.file c) ↔
      f.node q = some (.file c) := by
  induction ps generalizing f with
  | nil => exact Iff.rfl
  | cons p ps ih =>
    rw [List.forall_mem_cons] at hps
    rw [List.foldl_cons, ih fun p' hp' c' => mt (store_file hps.1 p' c').mp (hps.2 p' hp' c')]
    exact store_file hps.1 q c

theorem storeAll_accesses (ps : List Path) (f : FileSystem) :
    (ps.foldl (fun f p => f.store p .directory) f).accesses = f.accesses ∧
      (ps.foldl (fun f p => f.store p .directory) f).cwd = f.cwd := by
  induction ps generalizing f with
  | nil => exact ⟨rfl, rfl⟩
  | cons p ps ih => exact ih _

theorem createDirectory_onlyFolders {path : Text} (ha : ForFolder ⟨.create, path⟩) :
    Kept OnlyFolders (createDirectory h path) := by
  intro f
  unfold createDirectory
  dsimp only
  split_ifs with hmay
  · have hnone : ∀ p ∈ (f.resolved path).inits, ∀ c, f.node p ≠ some (.file c) := by
      intro p hp c hfile
      exact hmay.2 (List.any_eq_true.mpr ⟨p, hp, FileSystem.isFile_iff.mpr ⟨c, hfile⟩⟩)
    obtain ⟨haccesses, hcwd⟩ := storeAll_accesses (f.resolved path).inits f
    refine ⟨fun q c => storeAll_file hnone q c, hcwd, [⟨.create, path⟩], ?_, ?_⟩
    · exact congrArg (· ++ [(⟨.create, path⟩ : Access)]) haccesses
    · exact List.forall_mem_singleton.mpr ha
  · exact record_onlyFolders f ha

end Folders

/-! ## What a step of a thread leaves alone -/

structure Calm (P : ℤ → Prop) (w w' : ServerState) : Prop where
  files : OnlyFolders w.files w'.files
  inbox : w'.net.inbox = w.net.inbox
  sockfd : w'.net.sockfd = w.net.sockfd
  outbox : ∀ fd, fd ≠ w.net.sockfd → ¬ P fd → w'.net.outbox fd = w.net.outbox fd
  sessions : ∀ s, (w'.session s).identity = (w.session s).identity ∨ P (w'.session s).identity.socketFd

section Steps
variable {P : ℤ → Prop} {h : Host} {w w' : ServerState}

instance : Std.Refl (Calm P) := ⟨fun w => ⟨refl_of _ w.files, rfl, rfl, fun _ _ _ => rfl, fun _ => .inl rfl⟩⟩

instance : IsTrans ServerState (Calm P) := ⟨fun _ _ _ h₁ h₂ => by
  refine ⟨trans_of _ h₁.files h₂.files, h₂.inbox.trans h₁.inbox, h₂.sockfd.trans h₁.sockfd,
    fun fd hfd hP => ?_, fun s => ?_⟩
  · exact (h₂.outbox fd (h₁.sockfd.symm ▸ hfd) hP).trans (h₁.outbox fd hfd hP)
  · rcases h₂.sessions s with hsame | hnew
    · rw [hsame]
      exact h₁.sessions s
    · exact .inr hnew⟩

theorem calm_of (hfiles : w'.files = w.files) (hnet : w'.net = w.net)
    (hsessions : ∀ s, (w'.session s).identity = (w.session s).identity) : Calm P w w' :=
  ⟨hfiles.symm ▸ refl_of _ w.files, hnet ▸ rfl, hnet ▸ rfl, fun _ _ _ => hnet ▸ rfl,
    fun s => .inl (hsessions s)⟩

theorem setSession_calm (w : ServerState) (s : SessionId) {c : ClientSession}
    (hc : c.identity = (w.session s).identity) : Calm P w (w.setSession s c) :=
  calm_of rfl rfl (setSession_sameUsers w s hc).identity

theorem onFiles_calm {α : Type} {p : Exec FileSystem α} (hp : Kept OnlyFolders p) :
    Kept (Calm P) (Server.onFiles p) :=
  Kept.zoom hp fun _ _ hf => ⟨hf, rfl, rfl, fun _ _ _ => rfl, fun _ => .inl rfl⟩

theorem send_calm (fuel : ℕ) (p : Packet) {sockfd : ℤ} (hP : P sockfd ∨ sockfd = -1) :
    Kept (Calm P) (Server.onNet (sendPacket h fuel p sockfd)) := by
  refine Kept.zoom (sendPacket_writesOn fuel p sockfd) fun w m hm => ?_
  refine ⟨refl_of _ _, hm.inbox, hm.sockfd, fun fd hfd hnot => hm.outbox fd ?_, fun _ => .inl rfl⟩
  unfold ConnectionManager.socketOf
  split_ifs with hown
  · exact hfd
  · rintro rfl
    exact hP.elim hnot hown

end Steps

/-! ## A login -/

section Logins
variable {P : ℤ → Prop} {h : Host} {fuel : ℕ} {fd : ℤ} {username machine : Text}

theorem forFolder {kind : AccessKind} (hk : kind = .test ∨ kind = .create)
    (hv : isValidUsername username = true) :
    ForFolder ⟨kind, syncDir ++ txt "/" ++ username⟩ := ⟨hk, username, hv, rfl⟩

theorem newUser_calm (hv : isValidUsername username = true) : Kept (Calm P) (newUser h username syncDir) := by
  have hthread : Kept (Calm P) (startThread h .overseer) := by
    unfold startThread
    split_ifs
    exacts [Kept.pure _, Kept.raise _]
  have hfolder : Kept (Calm P) (prepareFolder h username (syncDir ++ txt "/" ++ username)) := by
    refine Kept.bind (onFiles_calm (isValidPath_onlyFolders (forFolder (.inl rfl) hv))) fun found => ?_
    split_ifs
    · exact Kept.pure _
    · refine Kept.bind (onFiles_calm (createDirectory_onlyFolders (forFolder (.inr rfl) hv))) fun made => ?_
      split_ifs
      exacts [Kept.pure _, Kept.raise _]
  exact Kept.bind hfolder fun _ => Kept.bind hthread fun _ => Kept.pure _

theorem getUser_calm (name : Text) : Kept (Calm P) (getUser name) := Kept.bind Kept.get fun _ => Kept.pure _

theorem userOf_calm (hv : isValidUsername username = true) : Kept (Calm P) (userOf h username) := by
  refine Kept.bind (getUser_calm _) fun known => ?_
  cases known with
  | some u => exact Kept.pure _
  | none =>
    refine Kept.bind (Kept.bind (newUser_calm hv) fun v => Kept.modify fun w =>
      calm_of rfl rfl fun _ => rfl) fun _ => Kept.bind (getUser_calm _) fun known => ?_
    cases known with
    | some u => exact Kept.pure _
    | none => exact Kept.raise _

theorem allocate_calm (w : ServerState) {me : Identity} (hP : P me.socketFd) : Calm P w (w.allocate me) := by
  refine ⟨refl_of _ _, rfl, rfl, fun _ _ _ => rfl, fun s => ?_⟩
  rcases eq_or_ne s w.nextSession with rfl | hne
  · have hnew : (w.allocate me).session w.nextSession = ⟨me, [], fun _ => none, true, true⟩ :=
      Function.update_self ..
    rw [hnew]
    exact .inr hP
  · have hold : (w.allocate me).session s = w.session s := Function.update_of_ne hne ..
    exact .inl (congrArg ClientSession.identity hold)

theorem newSession_calm {me : Identity} (hP : P me.socketFd) : Kept (Calm P) (newSession h me) := by
  have hthread : Kept (Calm P) (startThread h .sender) := by
    unfold startThread
    split_ifs
    exacts [Kept.pure _, Kept.raise _]
  refine Kept.bind hthread fun _ => ?_
  split_ifs
  · exact Kept.bind Kept.get fun _ => Kept.bind (Kept.modify fun w => allocate_calm w hP) fun _ => Kept.pure _
  · exact Kept.crash _

theorem addSession_calm (u : UserId) (s : SessionId) : Kept (Calm P) (addSession u s) := by
  refine Kept.bind Kept.get fun w => ?_
  split_ifs
  · exact Kept.modify fun w => calm_of rfl rfl fun _ => rfl
  · exact Kept.raise _

theorem loginOf_calm (hP : P fd) (u : UserId) :
    Kept (Calm P) (loginOf h fuel fd username machine u) := by
  refine Kept.bind (Kept.bind Kept.get fun _ => Kept.pure _) fun active => ?_
  split_ifs
  · refine Kept.bind (Kept.bind Kept.get fun _ => Kept.pure _) fun found => ?_
    cases found with
    | some s => exact Kept.raise _
    | none =>
      refine Kept.bind (Packet.setCommand_kept _ _) fun p => Kept.bind (send_calm _ _ (.inl hP)) fun _ => ?_
      exact Kept.bind (newSession_calm hP) fun s => addSession_calm u s
  · exact Kept.raise _

theorem closeSocket_calm : Kept (Calm P) (closeSocket fd) :=
  Kept.modify fun _ => ⟨refl_of _ _, rfl, rfl, fun _ _ _ => rfl, fun _ => .inl rfl⟩

theorem refuse_calm (hP : P fd) (reason : Text) : Kept (Calm P) (refuse h fuel fd reason) :=
  refuse_kept (fun _ => send_calm _ _ (.inl hP)) closeSocket_calm reason

theorem approve_calm (hP : P fd) : Kept (Calm P) (approve h fuel fd) :=
  approve_kept fun _ => send_calm _ _ (.inl hP)

theorem answerLogin_calm (hP : P fd) (p : Packet) : Kept (Calm P) (answerLogin h fuel fd p) := by
  refine Kept.bind (splitBuffer_kept _) fun fields => ?_
  match fields with
  | [] | [_] | [_, _] | _ :: _ :: _ :: _ :: _ => exact refuse_calm hP _
  | [_, username, machine] =>
    by_cases hv : isValidUsername username = true
    · simp only [hv, if_true]
      refine Kept.attempt (Kept.bind ?_ fun _ => approve_calm hP) fun what => refuse_calm hP _
      refine Kept.attempt ?_ fun what => Kept.raise _
      exact Kept.bind (userOf_calm hv) fun u => loginOf_calm hP u
    · simp only [hv]
      exact refuse_calm hP _

end Logins

/-! ## The threads -/

def Heard (fd : ℤ) (n : ℕ) (w w' : ServerState) : Prop :=
  ∃ m, w.net.Took fd n m ∧ w' = { w with net := m }

section Threads
variable {h : Host} {w : ServerState} {fd : ℤ} {n : ℕ}

theorem onNet_receive (fd : ℤ) (w : ServerState) :
    ∃ n ≤ (w.net.inbox (w.net.socketOf fd)).length, ∃ v, Heard (w.net.socketOf fd) n w v ∧
      ((∃ e, Server.onNet (receivePacket h fd) w = .error e v) ∨
        ∃ p m, receivePacket h fd w.net = .ok p m ∧ Server.onNet (receivePacket h fd) w = .ok p v ∧
          headerSize ≤ n) := by
  obtain ⟨n, hn, htook, hlength⟩ := receivePacket_took (h := h) fd w.net
  cases hr : receivePacket h fd w.net with
  | error e m =>
    rw [hr, final_error] at htook
    exact ⟨n, hn, _, ⟨m, htook, rfl⟩, .inl ⟨e, onNet_error hr⟩⟩
  | ok p m =>
    rw [hr, final_ok] at htook
    have hsize := hlength p m hr
    exact ⟨n, hn, _, ⟨m, htook, rfl⟩, .inr ⟨p, m, rfl, onNet_ok hr, hsize ▸ Nat.le_add_right _ _⟩⟩

theorem acceptConnection_heard (fuel : ℕ) (fd : ℤ) (w : ServerState) :
    ∃ n ≤ (w.net.inbox (w.net.socketOf fd)).length, ∃ v, Heard (w.net.socketOf fd) n w v ∧
      Calm (fun x => x = fd ∧ headerSize ≤ n) v (final (acceptConnection h fuel fd w)) := by
  obtain ⟨n, hn, v, hv, ⟨e, hr⟩ | ⟨p, m, -, hr, hsize⟩⟩ := onNet_receive (h := h) fd w
  · refine ⟨n, hn, v, hv, ?_⟩
    have hrun : (do
        let acceptPacket ← Server.onNet (receivePacket h fd)
        answerLogin h fuel fd acceptPacket) w = .error e v := run_bind_error hr _
    cases e with
    | raised what =>
      rw [acceptConnection, run_attempt_raised hrun]
      exact closeSocket_calm v
    | crashed k =>
      rw [acceptConnection, run_attempt_crashed hrun]
      exact refl_of _ v
  · refine ⟨n, hn, v, hv, ?_⟩
    have hkept : Kept (Calm fun x => x = fd ∧ headerSize ≤ n)
        (attempt (answerLogin h fuel fd p) fun _ => closeSocket fd) :=
      Kept.attempt (answerLogin_calm ⟨rfl, hsize⟩ p) fun _ => closeSocket_calm
    have hrun : acceptConnection h fuel fd w =
        attempt (answerLogin h fuel fd p) (fun _ => closeSocket fd) v := by
      have hinside := run_bind_ok hr fun acceptPacket => answerLogin h fuel fd acceptPacket
      unfold acceptConnection attempt
      rw [hinside]
    rw [hrun]
    exact hkept v

theorem logout_fields {p : Packet} (hp : p.content = farewell.content) {σ : Type} (s : σ) :
    splitBuffer p.memory s = .ok [txt "exit"] s := by
  have hheader : p.toHeader = farewell.toHeader := congrArg Prod.fst hp
  have hmemory : p.memory = farewell.memory := congrArg headerBytes hheader
  obtain ⟨ht, hfields⟩ := (Packet.ofCommand_carries (show Packet.Fits (txt "exit") by decide)).toReads.fields
    (show nul ∉ txt "exit" by decide)
  have hsplit : splitScan [] (txt "exit") = [txt "exit"] := by decide
  rw [hmemory]
  exact (Packet.splitBuffer_terminated ht s).trans (by rw [hfields, hsplit])

theorem receiverRound_heard {s : SessionId} (depth : ℕ)
    (honly : ∀ p m, receivePacket h (w.session s).identity.socketFd w.net = .ok p m →
      p.content = farewell.content) :
    let fd := w.net.socketOf (w.session s).identity.socketFd
    ∃ n ≤ (w.net.inbox fd).length, ∃ v, Heard fd n w v ∧
      Calm (fun _ => False) v (final (sessionReceiverRound h depth s w)) := by
  intro fd
  let me := (w.session s).identity
  obtain ⟨n, hn, v, hv, hcases⟩ := onNet_receive (h := h) me.socketFd w
  refine ⟨n, hn, v, hv, ?_⟩
  let bc := broadcastCallback h depth me.owner
  have hround : final (sessionReceiverRound h depth s w) = final (receiveAndPerform h bc s me w) :=
    final_attempt_raise _ _ _
  rw [hround]
  rcases hcases with ⟨e, hr⟩ | ⟨p, m, hp, hr, -⟩
  · have hrun : receiveAndPerform h bc s me w = .error e v := run_bind_error hr _
    rw [hrun]
    exact refl_of _ v
  · have hrun : receiveAndPerform h bc s me w = clientRequestedLogout s v := by
      refine (run_bind_ok hr _).trans ((run_bind_ok (logout_fields (honly p m hp) v) _).trans ?_)
      rfl
    rw [hrun]
    exact setSession_calm v s rfl

theorem senderRound_calm (fuel : ℕ) (s : SessionId) : Kept (Calm fun _ => False) (senderRound h fuel s) := by
  refine Kept.bind Kept.get fun w => ?_
  split_ifs
  · split
    · exact Kept.pure ()
    · refine Kept.attempt ?_ fun what => Kept.raise _
      exact Kept.bind (send_calm _ _ (.inr rfl)) fun _ =>
        Kept.modify fun v => setSession_calm v s rfl
  · exact Kept.pure ()

theorem pushPacket_calm (s : SessionId) (p : Packet) : Kept (Calm fun _ => False) (pushPacket s p) :=
  Kept.modify fun w => setSession_calm w s rfl

theorem sendPing_calm (s : SessionId) : Kept (Calm fun _ => False) (sendPing s) :=
  Packet.mount_kept fun p _ => pushPacket_calm s p

theorem disconnect_calm (s : SessionId) (reason : Text) : Kept (Calm fun _ => False) (disconnect s reason) :=
  Kept.bind (Packet.mountWith_kept fun _ p _ => pushPacket_calm s p) fun _ =>
    Kept.modify fun w => setSession_calm w s rfl

end Threads

/-! ## What comes in -/

def arrivedOn (fd : ℤ) : TerminalEvent ServerThread → Text
  | .elsewhere (.session ⟨_, _, _, .arrives fd' bytes⟩) => if fd' = fd then bytes else []
  | _ => []

def arrived (fd : ℤ) (es : List (TerminalEvent ServerThread)) : Text := es.flatMap (arrivedOn fd)

def acceptedOn : TerminalEvent ServerThread → Option ℤ
  | .elsewhere (.accepts _ _ newSocket) => some newSocket
  | _ => none

def accepted (es : List (TerminalEvent ServerThread)) : List ℤ := es.filterMap acceptedOn

def Converses (bytes : Text) : Prop :=
  ∃ username machineName, bytes <+: (Packet.ofCommand (loginText username machineName)).wire ++ farewell.wire

/-- Each connection has a descriptor of its own and brings what a client has to say. Nothing comes in on
the socket that is listened on. -/
structure Visited (listening : ℤ) (es : List (TerminalEvent ServerThread)) : Prop where
  converses : ∀ fd, Converses (arrived fd es)
  listens : arrived listening es = []
  apart : (accepted es).Nodup

structure ReadSoFar (listening : ℤ) (es : List (TerminalEvent ServerThread)) (w : ServerState) : Prop where
  own : w.net.sockfd = listening
  quiet : w.net.inbox listening = []
  unread : ∀ fd, fd ∉ accepted es → w.net.inbox fd = arrived fd es
  heard : ∀ s, w.net.socketOf (w.session s).identity.socketFd ≠ listening →
    ∃ read, headerSize ≤ read.length ∧ arrived (w.net.socketOf (w.session s).identity.socketFd) es =
      read ++ w.net.inbox (w.net.socketOf (w.session s).identity.socketFd)

section Streams
variable {listening fd : ℤ} {es : List (TerminalEvent ServerThread)} {e : TerminalEvent ServerThread}
variable {w v w' : ServerState} {n : ℕ}

theorem arrived_snoc (fd : ℤ) (es : List (TerminalEvent ServerThread)) (e : TerminalEvent ServerThread) :
    arrived fd (es ++ [e]) = arrived fd es ++ arrivedOn fd e := by
  rw [arrived, List.flatMap_append, List.flatMap_singleton]
  rfl

theorem accepted_snoc (es : List (TerminalEvent ServerThread)) (e : TerminalEvent ServerThread) :
    accepted (es ++ [e]) = accepted es ++ (acceptedOn e).toList := by
  rw [accepted, List.filterMap_append]
  cases he : acceptedOn e <;> simp [he, accepted]

theorem Converses.beginning {as bs : Text} (h : Converses bs) (hp : as <+: bs) : Converses as := by
  obtain ⟨username, machineName, hpre⟩ := h
  exact ⟨username, machineName, hp.trans hpre⟩

theorem Visited.init (h : Visited listening (es ++ [e])) : Visited listening es := by
  refine ⟨fun fd => (h.converses fd).beginning ?_, ?_, ?_⟩
  · rw [arrived_snoc]
    exact List.prefix_append _ _
  · have hnone := h.listens
    rw [arrived_snoc] at hnone
    exact (List.append_eq_nil_iff.mp hnone).1
  · have hnodup := h.apart
    rw [accepted_snoc] at hnodup
    exact hnodup.of_append_left

theorem command_wire_length {s : Text} : (Packet.ofCommand s).wire.length = headerSize := by
  rw [Packet.wire_length (show (Packet.ofCommand s).Exact from rfl)]
  rfl

theorem farewell_left {read left : Text} {f : {f : Header × Text // f.2.length = f.1.payloadSize.toNat}}
    {rest : Text} (hc : Converses (read ++ left)) (hread : headerSize ≤ read.length)
    (hd : frameCodec.decode left = some (f, rest)) : f.1 = farewell.content := by
  obtain ⟨username, machineName, t, ht⟩ := hc
  have hlogin := command_wire_length (s := loginText username machineName)
  have hfarewell : farewell.wire.length = headerSize := command_wire_length
  have hleft := (frameCodec_decode hd).1
  have hlength := congrArg List.length ht
  simp only [List.length_append] at hlength
  have hexact : read.length = headerSize ∧ t = [] := by
    refine ⟨by omega, List.length_eq_zero_iff.mp (by omega)⟩
  rw [hexact.2, List.append_nil] at ht
  obtain ⟨-, rfl⟩ := List.append_inj ht (by rw [hexact.1, hlogin])
  have hwhole : farewell.Exact := rfl
  have hframe := frameCodec.decode_encode (farewell.frame hwhole) []
  rw [List.append_nil, Packet.encode_frame hwhole, hd] at hframe
  exact congrArg (fun r => r.1.1) (Option.some.inj hframe)

end Streams

/-! ## One step -/

section Attending
variable {listening fd c : ℤ} {es : List (TerminalEvent ServerThread)} {e : TerminalEvent ServerThread}
variable {w v w' : ServerState} {n : ℕ} {P : ℤ → Prop}

theorem Heard.refl (c : ℤ) (w : ServerState) : Heard c 0 w w := ⟨w.net, .refl _ _, rfl⟩

theorem Heard.inbox (hv : Heard c n w v) (fd : ℤ) :
    v.net.inbox fd = if fd = c then (w.net.inbox fd).drop n else w.net.inbox fd := by
  obtain ⟨m, htook, rfl⟩ := hv
  have hm : m.inbox = (w.net.take c n).inbox := by rw [htook]
  dsimp only
  rw [hm]
  split_ifs with hfd
  · rw [hfd, ConnectionManager.take_inbox_self]
  · exact ConnectionManager.take_inbox_ne _ _ hfd

theorem readSoFar_heard (ha : ReadSoFar listening es w) (hnone : ∀ fd, arrivedOn fd e = [])
    (hn : n ≤ (w.net.inbox c).length) (hv : Heard c n w v) (hcalm : Calm P v w')
    (hc : c ∉ accepted (es ++ [e]) → n = 0)
    (hP : ∀ x, P x → w.net.socketOf x ≠ listening →
      w.net.socketOf x = c ∧ headerSize ≤ n ∧ w.net.inbox c = arrived c es) :
    ReadSoFar listening (es ++ [e]) w' := by
  have hinbox (fd : ℤ) : w'.net.inbox fd = if fd = c then (w.net.inbox fd).drop n else w.net.inbox fd := by
    rw [hcalm.inbox, hv.inbox]
  have harrived (fd : ℤ) : arrived fd (es ++ [e]) = arrived fd es := by
    rw [arrived_snoc, hnone, List.append_nil]
  have hheard := hv
  obtain ⟨m, htook, rfl⟩ := hv
  have hsockfd : w'.net.sockfd = w.net.sockfd := hcalm.sockfd.trans htook.sockfd
  have hsocket (x : ℤ) : w'.net.socketOf x = w.net.socketOf x := by
    rw [ConnectionManager.socketOf, ConnectionManager.socketOf, hsockfd]
  refine ⟨hsockfd.trans ha.own, ?_, fun fd hfd => ?_, fun s => ?_⟩
  · rw [hinbox, ha.quiet, List.drop_nil, ite_self]
  · rw [hinbox, harrived, ha.unread fd fun hmem => hfd (accepted_snoc es e ▸ List.mem_append_left _ hmem)]
    split_ifs with hfc
    · rw [hc (hfc ▸ hfd), List.drop_zero]
    · rfl
  · rw [hsocket, harrived, hinbox]
    intro hne
    rcases hcalm.sessions s with hsame | hnew
    · rw [hsame] at hne ⊢
      obtain ⟨read, hread, harr⟩ := ha.heard s hne
      dsimp only at hread harr ⊢
      split_ifs with hfc
      · refine ⟨read ++ (w.net.inbox c).take n, ?_, ?_⟩
        · rw [List.length_append]
          exact hread.trans (Nat.le_add_right _ _)
        · rw [harr, hfc, List.append_assoc, List.take_append_drop]
      · exact ⟨read, hread, harr⟩
    · obtain ⟨hxc, hsize, hall⟩ := hP _ hnew hne
      rw [hxc, if_pos rfl, hall]
      rw [hall] at hn
      exact ⟨(arrived c es).take n, (List.length_take_of_le hn).symm ▸ hsize,
        (List.take_append_drop _ _).symm⟩

theorem readSoFar_calm (ha : ReadSoFar listening es w) (hnone : ∀ fd, arrivedOn fd e = [])
    (hcalm : Calm (fun _ => False) w w') : ReadSoFar listening (es ++ [e]) w' :=
  readSoFar_heard ha hnone (Nat.zero_le _) (.refl listening w) hcalm (fun _ => rfl) fun _ hx => hx.elim

theorem readSoFar_arrives (ha : ReadSoFar listening es w) (h : Host) (fuel depth : ℕ) (bytes : Text)
    (hlistens : arrived listening
      (es ++ [.elsewhere (.session ⟨h, fuel, depth, .arrives fd bytes⟩)]) = []) :
    ReadSoFar listening (es ++ [.elsewhere (.session ⟨h, fuel, depth, .arrives fd bytes⟩)])
      (final (arrive fd bytes w)) := by
  let w' := final (arrive fd bytes w)
  have hinbox (x : ℤ) : w'.net.inbox x = w.net.inbox x ++ if fd = x then bytes else [] := by
    have hupdate : w'.net.inbox = Function.update w.net.inbox fd (w.net.inbox fd ++ bytes) := rfl
    rw [hupdate]
    split_ifs with hx
    · rw [hx, Function.update_self]
    · rw [Function.update_of_ne (Ne.symm hx), List.append_nil]
  have harrived (x : ℤ) :
      arrived x (es ++ [.elsewhere (.session ⟨h, fuel, depth, .arrives fd bytes⟩)]) =
        arrived x es ++ if fd = x then bytes else [] := arrived_snoc x es _
  have haccepted : accepted (es ++ [.elsewhere (.session ⟨h, fuel, depth, .arrives fd bytes⟩)]) =
      accepted es := (accepted_snoc es _).trans (List.append_nil _)
  refine ⟨ha.own, ?_, fun x hx => ?_, fun s hne => ?_⟩
  · rw [hinbox, ha.quiet]
    rw [harrived] at hlistens
    exact (List.append_eq_nil_iff.mp hlistens).2
  · rw [hinbox, harrived, ha.unread x (haccepted ▸ hx)]
  · obtain ⟨read, hread, harr⟩ := ha.heard s hne
    refine ⟨read, hread, ?_⟩
    rw [hinbox, harrived, ← List.append_assoc]
    exact congrArg (· ++ _) harr

end Attending

section Performing
variable {listening : ℤ} {es : List (TerminalEvent ServerThread)} {e : Event} {w : ServerState}

theorem Heard.files {c : ℤ} {n : ℕ} {v : ServerState} (hv : Heard c n w v) : v.files = w.files := by
  obtain ⟨m, -, rfl⟩ := hv
  rfl

theorem hears_farewell (hv : ∀ fd, Converses (arrived fd es)) (ha : ReadSoFar listening es w) {h : Host}
    {s : SessionId} {p : Packet} {m : ConnectionManager}
    (hr : receivePacket h (w.session s).identity.socketFd w.net = .ok p m) :
    p.content = farewell.content := by
  let c := w.net.socketOf (w.session s).identity.socketFd
  obtain ⟨f, rest, hdecode, hf⟩ := receivePacket_decodes hr []
  rw [List.append_nil] at hdecode
  have hne : c ≠ listening := by
    intro hc
    have hlong := (frameCodec_decode hdecode).1
    rw [show w.net.socketOf (w.session s).identity.socketFd = listening from hc, ha.quiet] at hlong
    exact absurd hlong (by decide)
  obtain ⟨read, hread, harr⟩ := ha.heard s hne
  rw [← hf]
  exact farewell_left (harr ▸ hv c) hread hdecode

theorem session_channel (ha : ReadSoFar listening es w) (s : SessionId) {n : ℕ}
    (hn : n ≤ (w.net.inbox (w.net.socketOf (w.session s).identity.socketFd)).length)
    (hnew : w.net.socketOf (w.session s).identity.socketFd ∉ accepted es) : n = 0 := by
  by_cases hc : w.net.socketOf (w.session s).identity.socketFd = listening
  · rw [hc, ha.quiet] at hn
    exact Nat.le_zero.mp hn
  · obtain ⟨read, hread, harr⟩ := ha.heard s hc
    rw [← ha.unread _ hnew] at harr
    have hlength := congrArg List.length harr
    rw [List.length_append] at hlength
    have hpos : 0 < headerSize := by decide
    omega

theorem session_readSoFar (hv : Visited listening (es ++ [.elsewhere (.session e)]))
    (ha : ReadSoFar listening es w) :
    OnlyFolders w.files (final (step e w)).files ∧
      ReadSoFar listening (es ++ [.elsewhere (.session e)]) (final (step e w)) := by
  obtain ⟨h, fuel, depth, activity⟩ := e
  cases activity with
  | arrives fd bytes => exact ⟨refl_of _ _, readSoFar_arrives ha h fuel depth bytes hv.listens⟩
  | receives s =>
    obtain ⟨n, hn, v, hheard, hcalm⟩ := receiverRound_heard (h := h) (s := s) depth
      fun p m hr => hears_farewell hv.init.converses ha hr
    have hfiles := hcalm.files
    rw [hheard.files] at hfiles
    refine ⟨hfiles, readSoFar_heard ha (fun _ => rfl) hn hheard hcalm ?_ fun _ hx => hx.elim⟩
    rw [accepted_snoc]
    exact fun hnew => session_channel ha s hn fun hmem => hnew (List.mem_append_left _ hmem)
  | sends s =>
    have hcalm := senderRound_calm (h := h) fuel s w
    exact ⟨hcalm.files, readSoFar_calm ha (fun _ => rfl) hcalm⟩
  | pings s =>
    have hcalm := sendPing_calm s w
    exact ⟨hcalm.files, readSoFar_calm ha (fun _ => rfl) hcalm⟩
  | disconnects s reason =>
    have hcalm := disconnect_calm s reason w
    exact ⟨hcalm.files, readSoFar_calm ha (fun _ => rfl) hcalm⟩

theorem accepts_readSoFar (h : Host) (fuel : ℕ) (fd : ℤ)
    (hv : Visited listening (es ++ [.elsewhere (.accepts h fuel fd)])) (ha : ReadSoFar listening es w) :
    OnlyFolders w.files (final (acceptConnection h fuel fd w)).files ∧
      ReadSoFar listening (es ++ [.elsewhere (.accepts h fuel fd)])
        (final (acceptConnection h fuel fd w)) := by
  obtain ⟨n, hn, v, hheard, hcalm⟩ := acceptConnection_heard (h := h) fuel fd w
  have hfiles := hcalm.files
  rw [hheard.files] at hfiles
  have haccepted := accepted_snoc es (.elsewhere (.accepts h fuel fd))
  have hapart := hv.apart
  rw [haccepted] at hapart
  have hfresh : fd ∉ accepted es := fun hmem =>
    List.disjoint_of_nodup_append hapart hmem (List.mem_singleton_self fd)
  refine ⟨hfiles, readSoFar_heard ha (fun _ => rfl) hn hheard hcalm (fun hnew => ?_) fun x hx hne => ?_⟩
  · by_cases hfd : fd = -1
    · have hown : w.net.socketOf fd = listening := (if_pos hfd).trans ha.own
      rw [hown, ha.quiet] at hn
      exact Nat.le_zero.mp hn
    · have hown : w.net.socketOf fd = fd := if_neg hfd
      rw [hown, haccepted] at hnew
      exact absurd (List.mem_append_right _ (List.mem_singleton_self fd)) hnew
  · obtain ⟨rfl, hsize⟩ := hx
    have hown : w.net.socketOf x = x := by
      unfold ConnectionManager.socketOf at hne ⊢
      split_ifs at hne ⊢ with hx
      · exact absurd ha.own hne
      · rfl
    refine ⟨rfl, hsize, ?_⟩
    rw [hown]
    exact ha.unread x hfresh

theorem terminalStep_readSoFar {e : TerminalEvent ServerThread} {q q' : Terminal ServerProgram}
    (hv : Visited listening (es ++ [e])) (ha : ReadSoFar listening es q.app.server)
    (hs : terminalStep serverApplication e q = some q') :
    OnlyFolders q.app.server.files q'.app.server.files ∧ ReadSoFar listening (es ++ [e]) q'.app.server := by
  rcases terminalStep_app hs with ⟨k, v, rfl, happ⟩ | ⟨t, rfl, happ⟩ | ⟨hne, happ⟩
  · have hq' : q'.app = (processInput q.commandBuffer q.sanitizedCommands q.app).2 :=
      (congrArg Prod.snd (Option.some.inj happ)).symm
    have hserver : q'.app.server = q.app.server := by
      rw [hq']
      exact processInput_server _ _ _
    rw [hserver]
    exact ⟨refl_of _ _, readSoFar_calm ha (fun _ => rfl) (refl_of _ _)⟩
  · obtain ⟨-, hserver⟩ := elsewhere_server happ
    rw [hserver]
    cases t with
    | session e => exact session_readSoFar hv ha
    | accepts h fuel fd => exact accepts_readSoFar h fuel fd hv ha
  · have hnone (fd : ℤ) : arrivedOn fd e = [] := by
      cases e with
      | elsewhere t => exact absurd rfl (hne t)
      | types | inputs | mains | processes | acceptEnds | wakesInput | wakesMain | wakesBuffer => rfl
    rw [happ]
    exact ⟨refl_of _ _, readSoFar_calm ha hnone (refl_of _ _)⟩

end Performing

theorem visited_files {net : ConnectionManager} (hnet : ∀ fd, net.inbox fd = []) (files : FileSystem)
    (queued : List Text) {es : List (TerminalEvent ServerThread)} {q : Terminal ServerProgram}
    (hv : Visited net.sockfd es)
    (hrun : runSteps (terminalStep serverApplication) es
      (Terminal.start queued ⟨ServerState.init net files, []⟩) = some q) :
    OnlyFolders files q.app.server.files := by
  have hstart : Visited net.sockfd [] → OnlyFolders files files ∧
      ReadSoFar net.sockfd [] (ServerState.init net files) := fun _ =>
    ⟨refl_of _ _, rfl, hnet _, fun fd _ => hnet fd, fun s hne => absurd (if_pos rfl) hne⟩
  exact (runSteps_invariant
    (I := fun es q => Visited net.sockfd es →
      OnlyFolders files q.app.server.files ∧ ReadSoFar net.sockfd es q.app.server) hstart
    (fun es e q q' hi hs hv => by
      obtain ⟨hfiles, ha⟩ := hi hv.init
      obtain ⟨hmore, ha'⟩ := terminalStep_readSoFar hv ha hs
      exact ⟨trans_of _ hfiles hmore, ha'⟩) hrun hv).1

/-! ## The clients -/

section Clients
open Client

/-- A client has written `bytes` to its server: its launch failed, or its threads took their turns after
it, or a command then made it crash. -/
inductive ClientWrites (bytes : Text) : Prop where
  | gaveUp {c : LaunchCalls} {username address : Text} {port : ℤ} {w w' : ClientState}
    {e : Fault Text Crash} (hlaunch : launch c username address port w = .error e w')
    (hbytes : w'.net.outbox c.socket = w.net.outbox c.socket ++ bytes)
  | ran {c : LaunchCalls} {username address : Text} {port sessionId : ℤ} {w w' : ClientState}
    {control : SyncControl} {queued : List Text} {es : List (TerminalEvent CommandCalls)}
    {q : Terminal SyncState} (hlaunch : launch c username address port w = .ok sessionId w')
    (hrun : runSteps (terminalStep clientApplication) es (Terminal.start queued ⟨w', control⟩) = some q)
    (hbytes : q.app.client.net.outbox c.socket = w.net.outbox c.socket ++ bytes)
  | crashed {c : LaunchCalls} {username address : Text} {port sessionId : ℤ} {w w' : ClientState}
    {control : SyncControl} {queued : List Text} {es : List (TerminalEvent CommandCalls)}
    {q : Terminal SyncState} {k : CommandCalls}
    (hlaunch : launch c username address port w = .ok sessionId w')
    (hrun : runSteps (terminalStep clientApplication) es (Terminal.start queued ⟨w', control⟩) = some q)
    (hmain : q.main = .processing)
    (hbytes : (final (clientCommand k q.sanitizedCommands q.app)).client.net.outbox c.socket =
      w.net.outbox c.socket ++ bytes)

theorem Talked.outbox {m m' : ConnectionManager} {fd : ℤ} {out : Text} {n : ℕ} (h : Talked m fd out n m') :
    m'.outbox fd = m.outbox fd ++ out := by
  have hout : m'.outbox = ((m.take fd n).put fd out).outbox := by rw [h]
  rw [hout, ConnectionManager.put_outbox_self]
  rfl

theorem talked_bytes {m m' : ConnectionManager} {fd : ℤ} {out bytes : Text} {n : ℕ}
    (h : Talked m fd out n m') (hbytes : m'.outbox fd = m.outbox fd ++ bytes) : bytes = out :=
  List.append_cancel_left (hbytes.symm.trans h.outbox)

/-- Whatever its user types, all that a client ever says is one login and one exit. -/
theorem clientWrites_converses {bytes : Text} (h : ClientWrites bytes) : Converses bytes := by
  have hwhole (c : LaunchCalls) (username : Text) {out : Text} (hout : out <+: farewell.wire) :
      Converses ((greeting c username).wire ++ out) :=
    ⟨username, c.machineName, (List.prefix_append_right_inj _).mpr hout⟩
  cases h with
  | @gaveUp c username address port w w' e hlaunch hbytes =>
    obtain ⟨out, n, hout, htalked, -⟩ := launch_talks c username address port w
    rw [hlaunch, final_error] at htalked
    rw [talked_bytes htalked hbytes]
    exact ⟨username, c.machineName, hout.trans (List.prefix_append _ _)⟩
  | @ran c username address port sessionId w w' control queued es q hlaunch hrun hbytes =>
    obtain ⟨n, -, -, htalked, hspoken⟩ := launched_spoken hlaunch hrun
    cases hspoken with
    | nothing hnet =>
      rw [hnet] at hbytes
      rw [talked_bytes htalked hbytes, ← List.append_nil (greeting c username).wire]
      exact hwhole c username List.nil_prefix
    | goodbye hout hmore _ _ =>
      rw [talked_bytes (htalked.trans hmore) hbytes]
      exact hwhole c username hout
  | @crashed c username address port sessionId w w' control queued es q k hlaunch hrun hmain hbytes =>
    obtain ⟨n, -, hown, htalked, hspoken⟩ := launched_spoken hlaunch hrun
    cases hspoken with
    | nothing hnet =>
      rcases command_talks k q.sanitizedCommands q.app with hsame | ⟨-, out, hout, hmore⟩
      · rw [hsame, hnet] at hbytes
        rw [talked_bytes htalked hbytes, ← List.append_nil (greeting c username).wire]
        exact hwhole c username List.nil_prefix
      · rw [hnet, hown] at hmore
        rw [talked_bytes (htalked.trans hmore) hbytes]
        exact hwhole c username hout
    | goodbye _ _ _ hdone => exact absurd hmain hdone.idle

end Clients

def visit : List (TerminalEvent ServerThread) :=
  [.elsewhere (.session ⟨pageHost.1, 0, 0, .arrives 4 (greeting localCalls (txt "ana")).wire⟩),
    .elsewhere (.accepts pageHost.1 (headerSize + 1) 4)]

theorem localClient_writes : ClientWrites (greeting localCalls (txt "ana")).wire := by
  obtain ⟨m, hlaunch⟩ := launched_locally
  obtain ⟨out, n, -, htalked, hlogged⟩ := launch_talks localCalls (txt "ana") (txt "localhost") 8080 newClient
  rw [hlaunch, final_ok] at htalked
  obtain rfl := (hlogged _ _ hlaunch).sent
  have hrun (q : Terminal Client.SyncState) :
      runSteps (terminalStep Client.clientApplication) [] q = some q := rfl
  exact .ran hlaunch (hrun (Terminal.start [] ⟨_, idleClient.control⟩)) htalked.outbox

section Answers
variable {w v : ServerState} {fd c : ℤ} {n : ℕ}

theorem Heard.outbox (hv : Heard c n w v) : v.net.outbox = w.net.outbox ∧ v.net.sockfd = w.net.sockfd := by
  obtain ⟨m, htook, rfl⟩ := hv
  refine ⟨?_, htook.sockfd⟩
  rw [show m.outbox = (w.net.take c n).outbox by rw [htook]]
  rfl

def Hushed (fd : ℤ) (w w' : ServerState) : Prop :=
  w'.net.sockfd = w.net.sockfd ∧ (fd ≠ w.net.sockfd → w'.net.outbox fd = w.net.outbox fd)

theorem Calm.hushed {P : ℤ → Prop} {w' : ServerState} (hc : Calm P w w') (hP : ¬ P fd) : Hushed fd w w' :=
  ⟨hc.sockfd, fun hfd => hc.outbox fd hfd hP⟩

theorem step_hushed (e : Event) : Kept (Hushed fd) (step e) := by
  intro w
  by_cases hsends : ∃ s, e.activity = .sends s
  · obtain ⟨s, hs⟩ := hsends
    have hrun : step e w = senderRound e.host e.fuel s w := by rw [step, hs]
    rw [hrun]
    exact (senderRound_calm e.fuel s w).hushed id
  · rw [not_exists] at hsends
    have hqueues : OnlyQueues (fun _ => True) w (final (step e w)) :=
      step_onlyQueues (fun _ _ _ _ => trivial) hsends w
    exact ⟨hqueues.2.1, fun _ => congrFun hqueues.1 fd⟩

theorem accepts_hushed (h : Host) (fuel : ℕ) {newSocket : ℤ} (hne : newSocket ≠ fd) :
    Kept (Hushed fd) (acceptConnection h fuel newSocket) := by
  intro w
  obtain ⟨n, -, v, hv, hcalm⟩ := acceptConnection_heard (h := h) fuel newSocket w
  obtain ⟨hsockfd, hout⟩ : Hushed fd v (final (acceptConnection h fuel newSocket w)) :=
    hcalm.hushed fun hx => hne hx.1.symm
  obtain ⟨houtbox, hsame⟩ := hv.outbox
  rw [hsame] at hsockfd hout
  exact ⟨hsockfd, fun hfd => (hout hfd).trans (congrFun houtbox fd)⟩

theorem terminalStep_hushed {e : TerminalEvent ServerThread} {q q' : Terminal ServerProgram}
    (he : acceptedOn e ≠ some fd) (hs : terminalStep serverApplication e q = some q') :
    Hushed fd q.app.server q'.app.server := by
  rcases terminalStep_app hs with ⟨k, v, rfl, happ⟩ | ⟨t, rfl, happ⟩ | ⟨-, happ⟩
  · have hq' : q'.app = (processInput q.commandBuffer q.sanitizedCommands q.app).2 :=
      (congrArg Prod.snd (Option.some.inj happ)).symm
    rw [hq', processInput_server]
    exact ⟨rfl, fun _ => rfl⟩
  · obtain ⟨-, hserver⟩ := elsewhere_server happ
    rw [hserver]
    cases t with
    | session e => exact step_hushed e _
    | accepts h fuel newSocket => exact accepts_hushed h fuel (fun hfd => he (congrArg some hfd)) _
  · rw [happ]
    exact ⟨rfl, fun _ => rfl⟩

end Answers

def pingedSession : List (TerminalEvent ServerThread) :=
  (pingRun pageHost.1).map fun e => .elsewhere (.session e)

end SyncWizard.Properties
