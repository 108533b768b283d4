import SyncWizard.Server.Network

/-! What the handlers of a session can do to the server. A relation that admits the file calls,
the queued packets and the lock changes of one command is kept by the handler of that command;
everything else a handler does leaves the state alone. -/

namespace SyncWizard.Server
open Foundation Common

structure Admits (s : SessionId) (paths : Access → Prop) (packets : Packet → Prop)
    (R : ServerState → ServerState → Prop) : Prop where
  files : ∀ w f, Touched paths w.files f → R w { w with files := f }
  push : ∀ w p, packets p → R w (w.push s p)
  lock : ∀ w name l, R w (w.setLock s name l)
  stop : ∀ w, R w (w.stop s)

def Reaches (me : Identity) : Route → Access → Prop
  | .slist, a | .flist, a => a.kind = .list
  | .clist _, a => a.kind = .list ∨ ∃ file, a = ⟨.read, me.directoryPath ++ file⟩
  | .delete args, a =>
    a = ⟨.test, me.directoryPath ++ args⟩ ∨ a = ⟨.delete, me.directoryPath ++ args⟩
  | .adownload args, a =>
    a = ⟨.test, me.directoryPath ++ args⟩ ∨ a = ⟨.read, me.directoryPath ++ args⟩
  | .sdownload args checksum, a =>
    checksum ≠ txt "fail" ∧ (a = ⟨.append, me.directoryPath ++ args ++ temporarySuffix⟩ ∨
      a = ⟨.read, me.directoryPath ++ args ++ temporarySuffix⟩ ∨
      a = ⟨.rename, me.directoryPath ++ args ++ temporarySuffix⟩ ∨
      a = ⟨.rename, me.directoryPath ++ args⟩)
  | _, _ => False

def Queues : Route → Text → Prop
  | .ping, c => c = txt "pong"
  | .slist, c => c = txt "slist"
  | .flist, c => c = txt "flist"
  | .clist _, c => (∃ file, c = txt "sdownload|" ++ file) ∨
      ∃ file checksum, c = txt "sdownload|" ++ file ++ txt "|" ++ checksum
  | .adownload args, c => ∃ checksum, c = txt "aupload|" ++ args ++ txt "|" ++ checksum
  | _, _ => False

def Sends (c : Text) : Prop := c = txt "ping" ∨ c = txt "exit" ∨ ∃ route, Queues route c

section Keeping
variable {R : ServerState → ServerState → Prop} [Std.Refl R] [IsTrans ServerState R]
variable {h : Host} {bc : Broadcast} {self : SessionId} {me : Identity}
variable {paths : Access → Prop} {packets : Packet → Prop}

omit [Std.Refl R] [IsTrans ServerState R] in
theorem Admits.onFiles_kept (H : Admits self paths packets R) {α : Type} {p : Exec FileSystem α}
    (hp : Kept (Touched paths) p) : Kept R (onFiles p) := Kept.zoom hp H.files

theorem Admits.pushPacket_kept (H : Admits self paths packets R) {p : Packet} (hp : packets p) :
    Kept R (pushPacket self p) := Kept.modify fun w => H.push w p hp

theorem fileMutex_kept (name : Text) : Kept R (fileMutex self name) :=
  Kept.bind Kept.get fun _ => Kept.pure _

theorem Admits.lockFile_kept (H : Admits self paths packets R) (name : Text) :
    Kept R (lockFile self name) := lockIn_kept fun w l => H.lock w name l

theorem Admits.answer_kept (H : Admits self paths packets R) {command : Text}
    (hp : ∀ p, Packet.Carries command p → packets p) : Kept R (answer self command) :=
  Packet.mount_kept fun p hc => H.pushPacket_kept (hp p hc)

theorem Admits.answerWith_kept (H : Admits self paths packets R) {command payload : Text}
    (hp : payload = [] → ∀ p, Packet.Carries command p → packets p) :
    Kept R (answerWith self command payload) :=
  Packet.mountWith_kept fun he p hc => H.pushPacket_kept (hp he p hc)

omit [Std.Refl R] [IsTrans ServerState R] in
theorem Admits.listFiles_kept (H : Admits self paths packets R)
    (hl : ∀ path, paths ⟨.list, path⟩) (line : Text → Text → Text → Text) :
    Kept R (listFiles h me line) := H.onFiles_kept (listFolder_kept hl)

theorem Admits.sendFile_kept (H : Admits self paths packets R) {command file : Text}
    {cannotOpen : ServerExec Unit} (hread : paths ⟨.read, me.directoryPath ++ file⟩)
    (hp : ∀ checksum p, Packet.Carries (command ++ file ++ txt "|" ++ checksum) p → packets p)
    (hfail : Kept R cannotOpen) : Kept R (sendFile h self me command file cannotOpen) := by
  refine Kept.bind (H.lockFile_kept file) fun _ => ?_
  refine Kept.bind (H.onFiles_kept (calculateMd5Checksum_kept hread)) fun checksum => ?_
  refine Kept.bind (H.onFiles_kept (openRead_kept hread)) fun content => ?_
  cases content with
  | none => exact hfail
  | some c =>
    exact chunkLoop_kept (fun _ _ => Kept.pure ()) (fun p hc => H.pushPacket_kept (hp checksum p hc)) c

theorem Admits.sendLocked_kept (H : Admits self paths packets R) {command file : Text}
    {cannotOpen : ServerExec Unit} (hread : paths ⟨.read, me.directoryPath ++ file⟩)
    (hp : ∀ checksum p, Packet.Carries (command ++ file ++ txt "|" ++ checksum) p → packets p)
    (hfail : Kept R cannotOpen) : Kept R (sendLocked h self me command file cannotOpen) := by
  refine Kept.bind (fileMutex_kept file) fun lock => ?_
  cases lock with
  | none => exact Kept.pure _
  | some l => exact H.sendFile_kept hread hp hfail

theorem Admits.adownload_kept (H : Admits self paths packets R) {args : Text}
    (hpaths : ∀ a, Reaches me (.adownload args) a → paths a)
    (hp : ∀ c p, Queues (.adownload args) c → Packet.Carries c p → packets p) :
    Kept R (clientRequestedAdownload h self me args) := by
  have hfail (reason : Text) (hne : reason ≠ []) :
      Kept R (answerWith self (txt "aupload|" ++ args ++ txt "|fail") reason) :=
    H.answerWith_kept fun he => absurd he hne
  have hsend : Kept R (sendLocked h self me (txt "aupload|") args
      (answerWith self (txt "aupload|" ++ args ++ txt "|fail")
        (txt "Server could not bufferize file to send!"))) :=
    H.sendLocked_kept (hpaths _ (.inr rfl)) (fun checksum p hc => hp _ p ⟨checksum, rfl⟩ hc)
      (hfail _ (by decide))
  refine Kept.bind (H.onFiles_kept (isValidPath_kept (hpaths _ (.inl rfl)))) fun found => ?_
  split_ifs
  · exact Kept.bind (hfail _ (by decide)) fun _ => hsend
  · exact hsend

theorem Admits.eraseMutex_kept (H : Admits self paths packets R) (args : Text) :
    Kept R (eraseMutex self me args) := by
  refine Kept.bind (fileMutex_kept args) fun lock => ?_
  cases lock with
  | none => exact Kept.raise _
  | some _ => exact Kept.modify fun w => H.lock w args none

theorem Admits.deleteLocked_kept (H : Admits self paths packets R) {args : Text}
    (hdelete : paths ⟨.delete, me.directoryPath ++ args⟩) : Kept R (deleteLocked h self me args) := by
  refine Kept.bind (fileMutex_kept args) fun lock => ?_
  cases lock with
  | none =>
    refine Kept.bind (H.lockFile_kept args) fun _ => ?_
    exact Kept.bind (H.onFiles_kept (deleteFile_kept hdelete)) fun _ => H.eraseMutex_kept args
  | some l => exact Kept.bind (Kept.raise _) fun _ => H.eraseMutex_kept args

theorem Admits.delete_kept (H : Admits self paths packets R) {args : Text} {buffer : Packet}
    (hbc : ∀ fd p, Kept R (bc fd p)) (hpaths : ∀ a, Reaches me (.delete args) a → paths a) :
    Kept R (clientRequestedDelete h bc self me args buffer) := by
  refine Kept.bind (H.onFiles_kept (isValidPath_kept (hpaths _ (.inl rfl)))) fun found => ?_
  split_ifs
  · exact Kept.bind (hbc _ _) fun _ =>
      Kept.attempt (H.deleteLocked_kept (hpaths _ (.inr rfl))) fun what => Kept.raise _
  · exact H.answerWith_kept fun he => absurd he (by decide)

theorem Admits.sendMissing_kept (H : Admits self paths packets R) (args : Text)
    (hpaths : ∀ a, Reaches me (.clist args) a → paths a)
    (hp : ∀ c p, Queues (.clist args) c → Packet.Carries c p → packets p) (file : Text) :
    Kept R (sendMissing h self me file) :=
  H.sendLocked_kept (hpaths _ (.inr ⟨file, rfl⟩))
    (fun checksum p hc => hp _ p (.inr ⟨file, checksum, rfl⟩) hc) (Kept.pure _)

theorem Admits.clist_kept (H : Admits self paths packets R) {buffer : Packet} {args : Text}
    (hpaths : ∀ a, Reaches me (.clist args) a → paths a)
    (hp : ∀ c p, Queues (.clist args) c → Packet.Carries c p → packets p) :
    Kept R (clientSentClist h self me buffer args) := by
  refine Kept.bind (splitPayload_kept buffer) fun sessionNames => ?_
  refine Kept.bind (H.listFiles_kept (fun path => hpaths _ (.inl rfl)) _) fun listing => ?_
  refine Kept.bind (Kept.forEach fun file _ => H.sendMissing_kept args hpaths hp file) fun _ => ?_
  exact Kept.forEach fun file _ => H.answer_kept fun p hc => hp _ p (.inl ⟨file, rfl⟩) hc

theorem Admits.completeTransfer_kept (H : Admits self paths packets R) {args checksum : Text}
    (hc : checksum ≠ txt "fail") (hpaths : ∀ a, Reaches me (.sdownload args checksum) a → paths a) :
    Kept R (completeTransfer h self me args) := by
  refine Kept.bind (fileMutex_kept args) fun lock => ?_
  cases lock with
  | none => exact Kept.raise _
  | some l =>
    refine Kept.bind (H.lockFile_kept args) fun _ => ?_
    refine Kept.bind (H.onFiles_kept (calculateMd5Checksum_kept (hpaths _ ⟨hc, .inr (.inl rfl)⟩)))
      fun _ => ?_
    exact H.onFiles_kept (renameReplacing_kept (hpaths _ ⟨hc, .inr (.inr (.inl rfl))⟩)
      (hpaths _ ⟨hc, .inr (.inr (.inr rfl))⟩))

omit [Std.Refl R] [IsTrans ServerState R] in
theorem Admits.writePayload_kept (H : Admits self paths packets R) (p : Path) (buffer : Packet) :
    Kept R (writePayload p buffer) := H.onFiles_kept (streamWrite_kept _ _ _)

theorem Admits.sdownload_kept (H : Admits self paths packets R) {args checksum : Text} {buffer : Packet}
    (hpaths : ∀ a, Reaches me (.sdownload args checksum) a → paths a) :
    Kept R (clientSentSdownload h self me args buffer checksum) := by
  unfold clientSentSdownload
  by_cases hc : checksum = txt "fail"
  · rw [if_pos hc]
    exact Kept.pure _
  rw [if_neg hc]
  refine Kept.bind (H.onFiles_kept (openAppend_kept (hpaths _ ⟨hc, .inl rfl⟩))) fun opened => ?_
  cases opened with
  | none => exact H.answerWith_kept fun he => absurd he (by decide)
  | some p =>
    refine Kept.bind (H.writePayload_kept p buffer) fun _ => ?_
    split_ifs
    exacts [H.completeTransfer_kept hc hpaths, Kept.pure _]

theorem Admits.perform_kept (H : Admits self paths packets R) (hbc : ∀ fd p, Kept R (bc fd p))
    {buffer : Packet} {route : Route} (hpaths : ∀ a, Reaches me route a → paths a)
    (hp : ∀ c p, Queues route c → Packet.Carries c p → packets p) :
    Kept R (perform h bc self me buffer route) := by
  cases route with
  | malformed command => exact Kept.pure _
  | logout => exact Kept.modify H.stop
  | ping => exact H.answer_kept fun p => hp _ p rfl
  | pong => exact Kept.pure _
  | slist =>
    exact Kept.bind (H.listFiles_kept (fun path => hpaths _ rfl) _) fun _ =>
      H.answerWith_kept fun _ p => hp _ p rfl
  | flist =>
    exact Kept.bind (H.listFiles_kept (fun path => hpaths _ rfl) _) fun _ =>
      H.answerWith_kept fun _ p => hp _ p rfl
  | clist args => exact H.clist_kept hpaths hp
  | delete args => exact H.delete_kept hbc hpaths
  | adownload args => exact H.adownload_kept hpaths hp
  | download => exact Kept.pure _
  | sdownload args checksum => exact H.sdownload_kept hpaths
  | supload args arg2 =>
    change Kept R (clientSentSupload args arg2)
    unfold clientSentSupload
    split_ifs
    exacts [Kept.pure _, Kept.pure _]

end Keeping

/-! ## Whole threads -/

section Threads
variable {R : ServerState → ServerState → Prop} [Std.Refl R] [IsTrans ServerState R]
variable {h : Host} {packets : Packet → Prop}

theorem getSocketFd_kept (s : SessionId) : Kept R (getSocketFd s) :=
  Kept.bind Kept.get fun _ => Kept.pure _

theorem reportBroadcastError_kept (s : SessionId) (what : Text) :
    Kept R (reportBroadcastError h s what) :=
  Kept.bind (getSocketFd_kept s) fun _ => Kept.bind (literalPlus_kept _ _ _) fun _ => Kept.pure _

theorem broadcastOtherSessions_kept (H : ∀ s, Admits s (fun _ => True) packets R)
    (hp : ∀ c p, Sends c → Packet.Carries c p → packets p)
    (hreceive : ∀ me, Kept R (receiveCallback h me))
    (depth : ℕ) (u : UserId) (callerSockfd : ℤ) (p : Packet) :
    Kept R (broadcastOtherSessions h depth u callerSockfd p) := by
  induction depth generalizing callerSockfd p with
  | zero => exact Kept.crash _
  | succ depth ih =>
    refine Kept.bind Kept.get fun w => Kept.forEach fun s _ => ?_
    refine Kept.attempt ?_ fun what => reportBroadcastError_kept s what
    refine Kept.bind (getSocketFd_kept s) fun fd => ?_
    split_ifs
    · refine Kept.bind Kept.get fun v => Kept.bind (hreceive _) fun buffer => ?_
      refine Kept.bind (splitBuffer_kept _) fun fields => ?_
      exact (H s).perform_kept ih (fun _ _ => trivial) fun c q hc => hp c q (.inr (.inr ⟨_, hc⟩))
    · exact Kept.pure _

theorem sessionReceiverRound_kept (H : ∀ s, Admits s (fun _ => True) packets R)
    (hp : ∀ c p, Sends c → Packet.Carries c p → packets p)
    (hreceive : ∀ me, Kept R (receiveCallback h me))
    (depth : ℕ) (s : SessionId) : Kept R (sessionReceiverRound h depth s) := by
  refine Kept.bind Kept.get fun w => Kept.bind Kept.get fun v => ?_
  refine Kept.attempt ?_ fun what => Kept.raise _
  refine Kept.bind (hreceive _) fun buffer => Kept.bind (splitBuffer_kept _) fun fields => ?_
  exact (H s).perform_kept (broadcastOtherSessions_kept H hp hreceive depth _)
    (fun _ _ => trivial) fun c q hc => hp c q (.inr (.inr ⟨_, hc⟩))

theorem sendPing_kept {s : SessionId} {paths : Access → Prop} (H : Admits s paths packets R)
    (hp : ∀ p, Packet.Carries (txt "ping") p → packets p) : Kept R (sendPing s) := H.answer_kept hp

theorem disconnect_kept {s : SessionId} {paths : Access → Prop} (H : Admits s paths packets R)
    (hp : ∀ p, Packet.Carries (txt "exit") p → packets p) (reason : Text) :
    Kept R (disconnect s reason) :=
  Kept.bind (H.answerWith_kept fun _ => hp) fun _ => Kept.modify H.stop

theorem receiveCallback_state (me : Identity) (w : ServerState) :
    final (receiveCallback h me w) =
      { w with net := final (receivePacket h me.socketFd w.net) } := by
  unfold receiveCallback onNet zoom
  cases receivePacket h me.socketFd w.net <;> rfl

end Threads

end SyncWizard.Server
