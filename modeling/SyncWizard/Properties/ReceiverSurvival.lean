import SyncWizard.Common.Transfer
import SyncWizard.Properties.SenderSockets
import SyncWizard.Server.Outcomes

/-! What the receiver thread of a session survives. Its `catch` block raises again, so any
exception on any way round the loop ends the process; the ways round on which nothing raises are
those that find a whole packet whose handler has nothing to complain about. -/

namespace SyncWizard.Properties
open Foundation Common Server

/-- No exception leaves the thread function, and it ends early only once the flag is cleared. -/
def Survives (s : SessionId) (ts : List Turn) (w : ServerState) : Prop :=
  ∃ rest w', sessionReceiverLoop s ts w = .ok rest w' ∧
    (rest ≠ [] → (w'.session s).runningReceiver = false)

def Waiting (m : ConnectionManager) (fd : ℤ) (p : Packet) : Prop :=
  ∃ f rest, frameCodec.decode (m.inbox (m.socketOf fd)) = some (f, rest) ∧ p.content = f.1

def requested (bytes : Text) : List Text :=
  (splitScan [] (bytes.takeWhile (· != nul))).filter fun n => !isTemporary n

/-- The file can be sent without a complaint: it is empty, since the first byte of any other is
written through a null pointer. -/
def SendsEmpty (h : Host) (f : FileSystem) (directoryPath args : Text) : Prop :=
  f.content (directoryPath ++ args) = some [] ∧ h.mayDigest (directoryPath ++ args) = true ∧
    h.mayRead (directoryPath ++ args) = true ∧
    Packet.Fits (txt "aupload|" ++ args ++ txt "|" ++ h.md5 [])

/-- A temporary is digested under a live lock and its renaming, whose test is inverted, fails. -/
def KeepsTemporary (h : Host) (f : FileSystem) (directoryPath args : Text)
    (lock : Option Lock) : Prop :=
  lock = some .live ∧ h.mayDigest (directoryPath ++ args ++ temporarySuffix) = true ∧
    ∀ q, ¬ FileSystem.Renames h f (directoryPath ++ args ++ temporarySuffix) (directoryPath ++ args) q

def QuietRoute (h : Host) (self : SessionId) (me : Identity) (w : ServerState)
    (p : Packet) : Route → Prop
  | .malformed _ | .logout | .ping | .pong | .download | .supload _ _ => True
  | .slist | .flist => Listable h w.files me.directoryPath
  | .clist _ => nul ∈ p.bytes ∧ Listable h w.files me.directoryPath ∧
      ∀ file ∈ requested p.bytes, Packet.Fits (txt "sdownload|" ++ file)
  | .delete _ => False
  | .adownload args =>
      h.statError (me.directoryPath ++ args) = none ∧
        (w.files.lookup (me.directoryPath ++ args)).isSome = true ∧
        ((w.session self).fileMtx args = none ∨
          (w.session self).fileMtx args = some .live ∧ SendsEmpty h w.files me.directoryPath args)
  | .sdownload args checksum => checksum = txt "fail" ∨
      (∃ q, FileSystem.Opens h w.files (me.directoryPath ++ args ++ temporarySuffix) q) ∧
        (p.isLast = true → KeepsTemporary h w.files me.directoryPath args
          ((w.session self).fileMtx args))

def Quiet (t : Turn) (s : SessionId) (w : ServerState) : Prop :=
  let me := (w.session s).identity
  t.host.Receives ∧ ∃ p, Waiting w.net me.socketFd p ∧ p.Terminated ∧
    QuietRoute t.host s me w p (receiverRoute p.fields)

/-- All ways round the loop that are begun with the flag set are quiet. -/
def QuietTurns (s : SessionId) : List Turn → ServerState → Prop
  | [], _ => True
  | t :: ts, w =>
    let v := t.meanwhile w
    (v.session s).runningReceiver = true →
      Quiet t s v ∧ ∀ v', sessionReceiverRound t.host t.depth s v = .ok () v' → QuietTurns s ts v'

section Handlers
variable {h : Host} {bc : Broadcast} {self : SessionId} {me : Identity} {w : ServerState} {p : Packet}
variable {args checksum : Text}

theorem listing_returns {line : Text → Text → Text → Text} {command : Text} (hf : Packet.Fits command)
    (hl : Listable h w.files me.directoryPath) :
    Returns ((do
      let output ← listFiles h me line
      answerWith self command output : ServerExec Unit) w) := by
  obtain ⟨f, hrun⟩ := listFiles_listable line hl
  rw [run_bind_ok hrun]
  exact answerWith_nil hf _

theorem clist_returns (args : Text) (hn : nul ∈ p.bytes) (hl : Listable h w.files me.directoryPath)
    (hfit : ∀ file ∈ requested p.bytes, Packet.Fits (txt "sdownload|" ++ file)) :
    Returns (clientSentClist h self me p args w) := by
  obtain ⟨f, hlist⟩ := listFiles_listable (slistLine me) hl
  have hpayload : splitPayload p w = .ok (splitScan [] (p.bytes.takeWhile (· != nul))) w := by
    unfold splitPayload
    cases hp : p.payload with
    | none =>
      rw [Packet.bytes, hp] at hn
      cases hn
    | some bytes =>
      have hbytes : p.bytes = bytes := by rw [Packet.bytes, hp, Option.getD_some]
      rw [hbytes] at hn ⊢
      simp only [splitBuffer, if_pos hn, run_pure]
  have hnone : getlineSplit [] = [] := by decide
  rw [clientSentClist, run_bind_ok hpayload, slist, run_bind_ok hlist, hnone]
  -- the server's own list is empty, so every name in the client's is asked for
  have hall : ∀ names : List Text, missingFrom [] [] names = names := fun names =>
    List.filter_eq_self.mpr fun _ _ => rfl
  simp only [List.filter_nil, hall]
  refine Returns.bind (returns_ok _ ()) fun _ v _ => Returns.forEach (fun file hfile v => ?_) v
  exact ⟨_, _, answer_run (hfit file hfile) v⟩

theorem adownload_returns (hstat : h.statError (me.directoryPath ++ args) = none)
    (hex : (w.files.lookup (me.directoryPath ++ args)).isSome = true)
    (hlock : (w.session self).fileMtx args = none ∨
      (w.session self).fileMtx args = some .live ∧ SendsEmpty h w.files me.directoryPath args) :
    Returns (clientRequestedAdownload h self me args w) := by
  let w₁ : ServerState := { w with files := w.files.record .test (me.directoryPath ++ args) }
  have hvalid : onFiles (isValidPath h (me.directoryPath ++ args)) w = .ok true w₁ :=
    hex ▸ onFiles_ok (FileSystem.isValidPath_run hstat)
  rw [clientRequestedAdownload, run_bind_ok hvalid]
  simp only [Bool.not_true, Bool.false_eq_true, if_false]
  rw [sendLocked, run_bind_ok (fileMutex_run args w₁)]
  rcases hlock with hnone | ⟨hlive, hcontent, hdigest, hread, hfits⟩
  · rw [show (w₁.session self).fileMtx args = none from hnone]
    exact returns_ok _ ()
  · rw [show (w₁.session self).fileMtx args = some .live from hlive]
    let w₂ : ServerState := { w₁ with files := w₁.files.record .read (me.directoryPath ++ args) }
    have hmd5 : onFiles (calculateMd5Checksum h (me.directoryPath ++ args)) w₁ = .ok (h.md5 []) w₂ :=
      onFiles_ok (FileSystem.calculateMd5Checksum_run hcontent hdigest)
    have hopen : onFiles (openRead h (me.directoryPath ++ args)) w₂ =
        .ok (some []) { w₂ with files := w₂.files.record .read (me.directoryPath ++ args) } :=
      onFiles_ok (FileSystem.openRead_run hcontent hread)
    dsimp only
    rw [sendFile, run_bind_ok (lockFile_live (w := w₁) hlive), run_bind_ok hmd5, run_bind_ok hopen]
    dsimp only
    rw [chunkLoop_empty hfits]
    exact returns_ok _ ()

theorem sdownload_returns (hb : p.Exact) {q : Path} (hc : checksum ≠ txt "fail")
    (ho : FileSystem.Opens h w.files (me.directoryPath ++ args ++ temporarySuffix) q)
    (hlast : p.isLast = true →
      KeepsTemporary h w.files me.directoryPath args ((w.session self).fileMtx args)) :
    Returns (clientSentSdownload h self me args p checksum w) := by
  obtain ⟨f, hrun, hcwd, -, hnode⟩ := clientSentSdownload_opened self hc hb ho
  rw [hrun, finishUpload]
  by_cases hl : p.isLast = true
  · obtain ⟨hlock, hdigest, hno⟩ := hlast hl
    rw [if_pos hl]
    obtain ⟨hloc, hcontent⟩ := ho.content hcwd hnode
    rw [completeTransfer_live (w := { w with files := f }) hlock hcontent hdigest]
    -- a directory in the way is in the way before and after the write
    have hno' : ∀ r, ¬ FileSystem.Renames h
        (f.record .read (me.directoryPath ++ args ++ temporarySuffix))
        (me.directoryPath ++ args ++ temporarySuffix) (me.directoryPath ++ args) r := by
      rintro r ⟨hr, hallowed, hdir⟩
      rw [FileSystem.record_locate, hloc] at hr
      refine hno r ⟨hr, hallowed, ?_⟩
      rw [FileSystem.record_node, hnode, Function.update_apply] at hdir
      split_ifs at hdir with hrq
      · rw [hrq]
        exact ho.noDirectory
      · exact hdir
    exact ⟨_, _, onFiles_ok (FileSystem.renameReplacing_stays hno')⟩
  · rw [if_neg hl]
    exact returns_ok _ ()

theorem perform_returns (hb : p.Exact) {route : Route} (hq : QuietRoute h self me w p route) :
    Returns (perform h bc self me p route w) := by
  cases route with
  | malformed command => exact returns_ok _ ()
  | logout => exact returns_ok _ ()
  | ping => exact ⟨_, _, answer_run (by decide) w⟩
  | pong => exact returns_ok _ ()
  | slist => exact listing_returns (by decide) hq
  | flist => exact listing_returns (by decide) hq
  | clist args => exact clist_returns args hq.1 hq.2.1 hq.2.2
  | delete args => exact hq.elim
  | adownload args => exact adownload_returns hq.1 hq.2.1 hq.2.2
  | download => exact returns_ok _ ()
  | sdownload args checksum =>
    change Returns (clientSentSdownload h self me args p checksum w)
    by_cases hc : checksum = txt "fail"
    · rw [clientSentSdownload, if_pos hc]
      exact returns_ok _ ()
    · obtain ⟨⟨q, ho⟩, hlast⟩ := hq.resolve_left hc
      exact sdownload_returns hb hc ho hlast
  | supload args arg2 =>
    change Returns (clientSentSupload args arg2 w)
    rw [clientSentSupload]
    split_ifs <;> exact returns_ok _ ()

theorem quietRoute_congr {q : Packet} (hpq : q.content = p.content) {route : Route}
    (hq : QuietRoute h self me w p route) : QuietRoute h self me w q route := by
  obtain ⟨hheader, hbytes⟩ := Prod.mk.inj hpq
  have hlast : q.isLast = p.isLast := by rw [Packet.isLast, hheader, Packet.isLast]
  cases route with
  | clist args =>
    unfold QuietRoute
    rw [show q.bytes = p.bytes from hbytes]
    exact hq
  | sdownload args checksum =>
    refine hq.imp id fun hopens => ?_
    rw [hlast]
    exact hopens
  | _ => exact hq

end Handlers

theorem round_returns {t : Turn} {s : SessionId} {w : ServerState} (hq : Quiet t s w) :
    Returns (sessionReceiverRound t.host t.depth s w) := by
  obtain ⟨hreceives, p, ⟨f, rest, hd, hp⟩, hterminated, hroute⟩ := hq
  obtain ⟨q, m, hrun, hq, hfd, hinbox⟩ := receivePacket_reliable hreceives hd
  have hpq : q.content = p.content := hq.trans hp.symm
  obtain ⟨hheader, hbytes⟩ := Prod.mk.inj hpq
  let me := (w.session s).identity
  have hreceive : receiveCallback t.host me w = .ok q { w with net := m } := onNet_ok hrun
  have hmemory : q.memory = p.memory := congrArg headerBytes hheader
  have hsplit : splitBuffer q.memory ({ w with net := m } : ServerState) =
      .ok p.fields { w with net := m } := by
    rw [hmemory]
    exact Packet.splitBuffer_terminated hterminated _
  have hroute' : QuietRoute t.host s me { w with net := m } q (receiverRoute p.fields) := by
    have hsame := quietRoute_congr hpq hroute
    cases hr : receiverRoute p.fields <;> rw [hr] at hsame <;> exact hsame
  rw [sessionReceiverRound, run_bind_ok (run_get w), receiverRound, run_bind_ok (run_get w)]
  refine Returns.attempt ?_ _
  rw [receiveAndPerform, run_bind_ok hreceive, run_bind_ok hsplit]
  exact perform_returns (receivePacket_exact hrun) hroute'

/-- The thread survives every run in which all ways round its loop are quiet. -/
theorem receiver_survives {s : SessionId} {ts : List Turn} {w : ServerState}
    (hq : QuietTurns s ts (w.setSession s { w.session s with runningReceiver := true })) :
    Survives s ts w := by
  have hloop : ∀ (ts : List Turn) (w : ServerState), QuietTurns s ts w →
      ∃ rest w', receiverLoop s ts w = .ok rest w' ∧
        (rest ≠ [] → (w'.session s).runningReceiver = false) := by
    intro ts
    induction ts with
    | nil => exact fun w _ => ⟨[], w, rfl, fun he => absurd rfl he⟩
    | cons t ts ih =>
      intro w hq
      rw [receiverLoop, run_bind_ok (run_modify w _), run_bind_ok (run_get _)]
      by_cases hrunning : ((t.meanwhile w).session s).runningReceiver = true
      · obtain ⟨hquiet, hlater⟩ := hq hrunning
        obtain ⟨u, v, hround⟩ := round_returns hquiet
        rw [if_pos hrunning, run_bind_ok hround]
        exact ih v (hlater v hround)
      · rw [if_neg hrunning]
        exact ⟨t :: ts, t.meanwhile w, rfl, fun _ => Bool.not_eq_true _ ▸ hrunning⟩
  exact hloop ts _ hq

def pinged : ServerState :=
  let w := oneDevice 4
  { w with net := { w.net with inbox := fun fd => if fd = 4 then pingPacket.wire else [] } }

def pingTurn : Turn := ⟨pageHost.1, 1, id⟩

theorem receiver_survives_ping : Survives 0 [pingTurn] pinged := by
  refine receiver_survives fun _ => ⟨⟨pageHost.2.toReceives, pingPacket, ?_, ?_, ?_⟩,
    fun _ _ => trivial⟩
  · have hexact : pingPacket.Exact := rfl
    have hdecode := frameCodec.decode_encode (pingPacket.frame hexact) []
    rw [List.append_nil, Packet.encode_frame hexact] at hdecode
    exact ⟨pingPacket.frame hexact, [], hdecode, rfl⟩
  · exact ((Packet.withCommand_carries (by decide) rfl).fields (by decide)).1
  · rw [pingPacket, ((Packet.withCommand_carries (by decide) rfl).fields (by decide)).2]
    trivial

def silentHost : Host := { pageHost.1 with selectRead := fun _ _ => .timedOut }

/-- A client that stays silent for three seconds ends the server. -/
theorem receiver_ends_on_timeout :
    ¬ ∀ (s : SessionId) (ts : List Turn) (w : ServerState), Survives s ts w := by
  intro hall
  obtain ⟨rest, w', hrun, -⟩ := hall 0 [⟨silentHost, 1, id⟩] (oneDevice 4)
  let w := (oneDevice 4).setSession 0 { (oneDevice 4).session 0 with runningReceiver := true }
  obtain ⟨what, v, hround⟩ :
      ∃ what v, sessionReceiverRound silentHost 1 0 w = .error (.raised what) v :=
    ⟨_, _, rfl⟩
  have hloop : sessionReceiverLoop 0 [⟨silentHost, 1, id⟩] (oneDevice 4) = .error (.raised what) v :=
    run_bind_error hround fun _ => receiverLoop 0 []
  rw [hloop] at hrun
  cases hrun

end SyncWizard.Properties
