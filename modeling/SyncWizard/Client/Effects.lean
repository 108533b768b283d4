import SyncWizard.Client.Network

/-! What the handlers of a client can do to it. A relation that admits their file calls, the
packets they queue, the changes of the lock table and the end of the threads is kept by every
command of the server and of the user. -/

namespace SyncWizard.Client
open Foundation Common

structure Admits (packets : Packet → Prop) (R : ClientState → ClientState → Prop) : Prop where
  files : ∀ w f, R w { w with files := f }
  push : ∀ w p, packets p → R w (w.push p)
  lock : ∀ w name l, R w (w.setLock name l)
  stop : ∀ w, R w w.stop

def Queues : Route → Text → Prop
  | .ping, c => c = txt "pong"
  | .delete args _, c => c = txt "delete|" ++ args ++ txt "|fail"
  | .sdownload args, c => ∃ checksum, c = txt "sdownload|" ++ args ++ txt "|" ++ checksum
  | _, _ => False

def UserQueues : List Text → Text → Prop
  | [command, args], c =>
    (command = txt "download" ∧ c = txt "adownload|" ++ unquoted args) ∨
      (command = txt "upload" ∧ ∃ checksum, c = txt "upload|" ++ unquoted args ++ txt "|" ++ checksum) ∨
      (command = txt "delete" ∧ c = txt "delete|" ++ unquoted args) ∨
      (command = txt "list" ∧ c = txt "flist|server")
  | _, _ => False

section Keeping
variable {R : ClientState → ClientState → Prop} [Std.Refl R] [IsTrans ClientState R]
variable {h : Host} {packets : Packet → Prop}

omit [Std.Refl R] [IsTrans ClientState R] in
theorem Admits.onFiles_kept (H : Admits packets R) {α : Type} (p : Exec FileSystem α) :
    Kept R (onFiles p) := by
  intro w
  unfold onFiles zoom
  cases p w.files <;> exact H.files w _

theorem Admits.pushPacket_kept (H : Admits packets R) {p : Packet} (hp : packets p) :
    Kept R (pushPacket p) := Kept.modify fun w => H.push w p hp

theorem fileMutex_kept (name : Text) : Kept R (fileMutex name) :=
  Kept.bind Kept.get fun _ => Kept.pure _

theorem Admits.lockFile_kept (H : Admits packets R) (name : Text) : Kept R (lockFile name) :=
  lockIn_kept fun w l => H.lock w name l

theorem Admits.setLock_kept (H : Admits packets R) (name : Text) (l : Option Lock) :
    Kept R (modify fun w => w.setLock name l : ClientExec Unit) := Kept.modify fun w => H.lock w name l

theorem Admits.answer_kept (H : Admits packets R) {command : Text}
    (hp : ∀ p, Packet.Carries command p → packets p) : Kept R (answer command) :=
  Packet.mount_kept fun p hc => H.pushPacket_kept (hp p hc)

theorem Admits.answerWith_kept (H : Admits packets R) {command payload : Text}
    (hp : payload = [] → ∀ p, Packet.Carries command p → packets p) :
    Kept R (answerWith command payload) :=
  Packet.mountWith_kept fun he p hc => H.pushPacket_kept (hp he p hc)

theorem reportReason_kept (buffer : Packet) : Kept R (reportReason buffer) :=
  Kept.bind (charraystr_kept _ _) fun _ => Kept.pure _

theorem raiseUnless_kept {b : Bool} {error : Text} {rest : Unit → ClientExec Unit}
    (hrest : Kept R (rest ())) : Kept R (if !b then raise error >>= rest else rest ()) := by
  split_ifs
  · exact Kept.bind (Kept.raise _) fun _ => hrest
  · exact hrest

/-! ## Commands of the server -/

theorem serverListCommand_kept (args : Text) (buffer : Packet) :
    Kept R (serverListCommand args buffer) := by
  unfold serverListCommand
  split_ifs
  exacts [Kept.bind (splitPayload_kept _) fun _ => Kept.pure _, reportReason_kept _, Kept.pure _]

theorem Admits.serverDownloadCommand_kept (H : Admits packets R) {args : Text}
    (hp : ∀ c p, Queues (.sdownload args) c → Packet.Carries c p → packets p) :
    Kept R (serverDownloadCommand h args) := by
  refine Kept.bind Kept.get fun w => Kept.bind (H.onFiles_kept _) fun found => ?_
  split_ifs
  · refine Kept.bind (fileMutex_kept args) fun lock => ?_
    cases lock with
    | none => exact Kept.raise _
    | some l =>
      refine Kept.bind (H.lockFile_kept args) fun _ => Kept.bind (H.onFiles_kept _) fun checksum => ?_
      refine Kept.bind (H.onFiles_kept _) fun content => ?_
      cases content with
      | none => exact H.answerWith_kept fun he => absurd he (by decide)
      | some c =>
        exact chunkLoop_kept (fun _ _ => Kept.pure ())
          (fun p hc => H.pushPacket_kept (hp _ p ⟨checksum, rfl⟩ hc)) c
  · exact H.answerWith_kept fun he => absurd he (by decide)

theorem Admits.completeTransfer_kept (H : Admits packets R) (args localFilePath : Text) :
    Kept R (completeTransfer h args localFilePath) := by
  refine Kept.bind (fileMutex_kept args) fun lock => ?_
  cases lock with
  | none => exact Kept.raise _
  | some l =>
    exact Kept.bind (H.lockFile_kept args) fun _ =>
      Kept.bind (H.onFiles_kept _) fun _ => H.onFiles_kept _

theorem Admits.receiveUpload_kept (H : Admits packets R) (command args localFilePath checksum : Text)
    (buffer : Packet) : Kept R (receiveUpload h command args localFilePath checksum buffer) := by
  unfold receiveUpload
  by_cases hc : checksum = txt "fail"
  · rw [if_pos hc]
    exact reportReason_kept buffer
  rw [if_neg hc]
  refine Kept.bind (H.onFiles_kept _) fun opened => ?_
  cases opened with
  | none => exact H.answerWith_kept fun he => absurd he (by decide)
  | some p =>
    refine Kept.bind (H.onFiles_kept _) fun _ => ?_
    split_ifs
    exacts [H.completeTransfer_kept args localFilePath, Kept.pure _]

theorem Admits.serverDeleteFileCommand_kept (H : Admits packets R) {args arg2 : Text} {buffer : Packet}
    (hp : ∀ c p, Queues (.delete args arg2) c → Packet.Carries c p → packets p) :
    Kept R (serverDeleteFileCommand h args buffer arg2) := by
  have hdelete (localFilePath : Text) : Kept R (attempt (deleteLocked h args localFilePath) fun what =>
      answerWith (txt "delete|" ++ args ++ txt "|fail") what) := by
    refine Kept.attempt (Kept.bind (fileMutex_kept args) fun lock => ?_) fun what =>
      H.answerWith_kept fun _ p => hp _ p rfl
    cases lock with
    | none => exact Kept.raise _
    | some l => exact Kept.bind (H.lockFile_kept args) fun _ => H.onFiles_kept _
  refine Kept.bind Kept.get fun w => ?_
  by_cases harg : arg2 = txt "fail"
  · rw [if_pos harg]
    exact reportReason_kept buffer
  rw [if_neg harg]
  refine Kept.bind (H.onFiles_kept _) fun found => ?_
  split_ifs
  exacts [H.answerWith_kept fun he =>
    absurd he (by decide), reportReason_kept buffer, Kept.pure _, hdelete _]

theorem Admits.perform_kept (H : Admits packets R) {buffer : Packet} {route : Route}
    (hp : ∀ c p, Queues route c → Packet.Carries c p → packets p) :
      Kept R (perform h buffer route) := by
  have hupload (command args localFilePath checksum : Text) :=
    H.receiveUpload_kept (h := h) command args localFilePath checksum buffer
  cases route with
  | malformed command => exact Kept.pure _
  | ping => exact H.answer_kept fun p => hp _ p rfl
  | pong => exact Kept.pure _
  | delete args arg2 => exact H.serverDeleteFileCommand_kept hp
  | exit => exact Kept.bind (charraystr_kept _ _) fun _ => Kept.modify H.stop
  | sdownload args => exact H.serverDownloadCommand_kept hp
  | list args => exact serverListCommand_kept args buffer
  | supload args checksum => exact Kept.bind Kept.get fun w => hupload _ _ _ _
  | aupload args checksum => exact Kept.bind Kept.get fun w => hupload _ _ _ _
  | upload args checksum => exact Kept.bind Kept.get fun w => hupload _ _ _ _

/-! ## Commands of the user -/

theorem Admits.requestDelete_kept (H : Admits packets R) {args : Text}
    (hp : ∀ p, Packet.Carries (txt "delete|" ++ unquoted args) p → packets p) :
    Kept R (requestDelete h args) := by
  refine Kept.bind (H.answer_kept hp) fun _ => Kept.bind Kept.get fun w => ?_
  refine Kept.bind (H.onFiles_kept _) fun found => ?_
  split_ifs
  · refine Kept.bind (fileMutex_kept _) fun lock => ?_
    cases lock with
    | some l => exact Kept.raise _
    | none =>
      refine Kept.bind (H.lockFile_kept _) fun _ => Kept.bind (H.onFiles_kept _) fun _ => ?_
      refine Kept.bind (fileMutex_kept _) fun lock => ?_
      cases lock with
      | some l => exact H.setLock_kept _ _
      | none => exact Kept.raise _
  · exact Kept.pure _

theorem Admits.emplaceLock_kept (H : Admits packets R) (name : Text) : Kept R (emplaceLock name) := by
  refine Kept.bind (fileMutex_kept name) fun lock => ?_
  cases lock with
  | some l => exact Kept.pure _
  | none => exact H.setLock_kept _ _

theorem Admits.copyTo_kept (H : Admits packets R) (temporary : Option Path) (p : Packet) :
    Kept R (copyTo temporary p) := by
  cases temporary with
  | none => exact Kept.pure _
  | some t => exact H.onFiles_kept _

theorem Admits.uploadLocked_kept (H : Admits packets R) {filePath : Text} (localFilePath : Text)
    (hp : ∀ checksum p, Packet.Carries
      (txt "upload|" ++ filePath ++ txt "|" ++ checksum) p → packets p) :
    Kept R (uploadLocked h filePath localFilePath) := by
  refine Kept.bind (H.lockFile_kept _) fun _ => Kept.bind (H.onFiles_kept _) fun checksum => ?_
  refine Kept.bind (H.onFiles_kept _) fun file => Kept.bind (H.onFiles_kept _) fun temporary => ?_
  cases file with
  | none => exact Kept.pure _
  | some content =>
    refine Kept.bind ?_ fun _ => H.onFiles_kept _
    exact chunkLoop_kept (fun p _ => H.copyTo_kept temporary p)
      (fun p hc => H.pushPacket_kept (hp checksum p hc)) content

theorem Admits.uploadCommand_kept (H : Admits packets R) {args : Text}
    (hp : ∀ checksum p, Packet.Carries
      (txt "upload|" ++ unquoted args ++ txt "|" ++ checksum) p → packets p) :
    Kept R (uploadCommand h args) := by
  refine Kept.bind Kept.get fun w => Kept.bind (H.onFiles_kept _) fun found => ?_
  have hsend := H.uploadLocked_kept (h := h) (w.syncDirPath ++ args) hp
  split_ifs
  · refine Kept.bind (fileMutex_kept _) fun lock => ?_
    split_ifs
    exacts [Kept.bind (H.emplaceLock_kept args) fun _ => hsend, hsend]
  · exact Kept.pure _

theorem Admits.listCommand_kept (H : Admits packets R) {args : Text}
    (hp : ∀ p, Packet.Carries (txt "flist|server") p → packets p) : Kept R (listCommand h args) := by
  unfold listCommand
  by_cases hserver : args = txt "server"
  · rw [if_pos hserver]
    exact H.answer_kept hp
  rw [if_neg hserver]
  by_cases hclient : args = txt "client"
  · rw [if_pos hclient]
    exact Kept.bind Kept.get fun w => Kept.bind (H.onFiles_kept _) fun _ => Kept.pure _
  · rw [if_neg hclient]
    exact Kept.pure _

theorem Admits.userCommand_kept (H : Admits packets R) {fuel : ℕ} {words : List Text}
    (hexit : words ≠ [txt "exit"]) (hp : ∀ c p, UserQueues words c → Packet.Carries c p → packets p) :
    Kept R (processUserInterfaceCommands h fuel words) := by
  match words with
  | [] => exact Kept.pure _
  | [command] =>
    have hne : command ≠ txt "exit" := fun he => hexit (he ▸ rfl)
    rw [processUserInterfaceCommands, if_neg hne]
    split_ifs
    exacts [Kept.pure _, Kept.pure _]
  | [command, args] =>
    rw [processUserInterfaceCommands]
    split_ifs with hdownload hupload hdelete hlist
    · exact H.answer_kept fun p => hp _ p (.inl ⟨hdownload, rfl⟩)
    · exact H.uploadCommand_kept fun checksum p => hp _ p (.inr (.inl ⟨hupload, checksum, rfl⟩))
    · exact H.requestDelete_kept fun p => hp _ p (.inr (.inr (.inl ⟨hdelete, rfl⟩)))
    · exact H.listCommand_kept fun p => hp _ p (.inr (.inr (.inr ⟨hlist, rfl⟩)))
    · exact Kept.pure _
  | _ :: _ :: _ :: _ => exact Kept.pure _

end Keeping

def OnlyQueues (packets : Packet → Prop) (w w' : ClientState) : Prop :=
  ∃ new, w'.senderBuffer = w.senderBuffer ++ new ∧ ∀ p ∈ new, packets p

section Queueing
variable {packets : Packet → Prop}

instance : Std.Refl (OnlyQueues packets) :=
  ⟨fun _ => ⟨[], (List.append_nil _).symm, fun _ hp => nomatch hp⟩⟩

instance : IsTrans ClientState (OnlyQueues packets) := ⟨by
  rintro w₁ w₂ w₃ ⟨new₁, hq₁, hp₁⟩ ⟨new₂, hq₂, hp₂⟩
  refine ⟨new₁ ++ new₂, by rw [hq₂, hq₁, List.append_assoc], fun p hp => ?_⟩
  rcases List.mem_append.mp hp with hp | hp
  exacts [hp₁ p hp, hp₂ p hp]⟩

theorem onlyQueues_admits : Admits packets (OnlyQueues packets) where
  files w _ := refl_of (OnlyQueues packets) w
  push _ p hp := ⟨[p], rfl, fun _ hq => List.mem_singleton.mp hq ▸ hp⟩
  lock w _ _ := refl_of (OnlyQueues packets) w
  stop w := refl_of (OnlyQueues packets) w

end Queueing

end SyncWizard.Client
