import SyncWizard.Client.Outcomes
import SyncWizard.Common.Receiving
import SyncWizard.Server.Outcomes

/-! The three handlers of file packets, `client_sent_sdownload_` of a session, `server_upload_command_`
and `server_async_upload_command_` of a client, as handlers of one kind. Each is `receiveChunk` on
the files of its own process. -/

namespace SyncWizard.Properties
open Foundation Common

/-- A handler of file packets in a process of some kind. `call` is told the name of the file, the
checksum in the command and the packet. -/
structure ChunkHandler where
  State : Type
  files : State → FileSystem
  withFiles : FileSystem → State → State
  directory : State → Text
  lock : State → Text → Option Lock
  call : Text → Text → Packet → Exec State Unit

inductive Receiver where
  | sdownload (self : Server.SessionId) (me : Server.Identity)
  | upload
  | aupload

def Receiver.handler (h : Host) : Receiver → ChunkHandler
  | .sdownload self me =>
    { State := Server.ServerState
      files := fun w => w.files
      withFiles := fun f w => { w with files := f }
      directory := fun _ => me.directoryPath
      lock := fun w name => (w.session self).fileMtx name
      call := fun args checksum buffer => Server.clientSentSdownload h self me args buffer checksum }
  | .upload =>
    { State := Client.ClientState
      files := fun w => w.files
      withFiles := fun f w => { w with files := f }
      directory := fun w => w.syncDirPath
      lock := fun w name => w.fileMtx name
      call := Client.serverUploadCommand h }
  | .aupload =>
    { State := Client.ClientState
      files := fun w => w.files
      withFiles := fun f w => { w with files := f }
      directory := fun w => w.asyncDirPath
      lock := fun w name => w.fileMtx name
      call := Client.serverAsyncUploadCommand h }

/-! ## What the processes do -/

section Server
variable {h : Host} {self : Server.SessionId} {me : Server.Identity} {args : Text}
  {w : Server.ServerState}

theorem server_completes_live (hl : (w.session self).fileMtx args = some .live) :
    Server.completeTransfer h self me args w =
      Server.onFiles (completeFile h (me.directoryPath ++ args)) w := by
  rw [Server.completeTransfer, run_bind_ok (Server.fileMutex_run args w), hl]
  refine (run_bind_ok (Server.lockFile_live hl) _).trans ?_
  exact congrFun (Server.onFiles_bind _ _).symm w

end Server

section Client
variable {h : Host} {args path : Text} {w : Client.ClientState}

theorem client_completes_none (hl : w.fileMtx args = none) :
    ∃ what, Client.completeTransfer h args path w = .error (.raised what) w := by
  refine ⟨Client.clientError .serverSide (Client.noFileMutex args), ?_⟩
  rw [Client.completeTransfer, run_bind_ok (Client.fileMutex_run args w), hl]
  rfl

theorem client_completes_live (hl : w.fileMtx args = some .live) :
    Client.completeTransfer h args path w = Client.onFiles (completeFile h path) w := by
  rw [Client.completeTransfer, run_bind_ok (Client.fileMutex_run args w), hl]
  refine (run_bind_ok (Client.lockFile_live hl) _).trans ?_
  exact congrFun (Client.onFiles_bind _ _).symm w

theorem client_completes_locked (hl : w.fileMtx args = some .null) :
    Client.completeTransfer h args path w = .error (.crashed .nullLock) w := by
  have hlock : Client.lockFile args w = .error (.crashed .nullLock) w := lockIn_null hl
  rw [Client.completeTransfer, run_bind_ok (Client.fileMutex_run args w), hl]
  exact run_bind_error hlock _

end Client

/-! ## Handlers of any kind -/

section Handlers
variable {h : Host} (k : Receiver)

@[simp] theorem handler_files (f : FileSystem) (w : (k.handler h).State) :
    (k.handler h).files ((k.handler h).withFiles f w) = f := by
  cases k <;> rfl

@[simp] theorem handler_withFiles (f g : FileSystem) (w : (k.handler h).State) :
    (k.handler h).withFiles f ((k.handler h).withFiles g w) = (k.handler h).withFiles f w := by
  cases k <;> rfl

@[simp] theorem handler_withFiles_self (w : (k.handler h).State) :
    (k.handler h).withFiles ((k.handler h).files w) w = w := by
  cases k <;> rfl

@[simp] theorem handler_directory (f : FileSystem) (w : (k.handler h).State) :
    (k.handler h).directory ((k.handler h).withFiles f w) = (k.handler h).directory w := by
  cases k <;> rfl

@[simp] theorem handler_lock (f : FileSystem) (w : (k.handler h).State) :
    (k.handler h).lock ((k.handler h).withFiles f w) = (k.handler h).lock w := by
  cases k <;> rfl

def Receiver.finish (h : Host) : (k : Receiver) → Text → Text → Exec (k.handler h).State Unit
  | .sdownload self me, args, _ => Server.completeTransfer h self me args
  | .upload, args, path => Client.completeTransfer h args path
  | .aupload, args, path => Client.completeTransfer h args path

variable {args checksum path : Text} {buffer : Packet} {w : (k.handler h).State}

theorem handler_receiveIn (hc : checksum ≠ txt "fail") (w : (k.handler h).State) :
    ∃ refuse : Exec (k.handler h).State Unit,
      (k.handler h).call args checksum buffer w =
        receiveIn (k.handler h).files (k.handler h).withFiles h
          ((k.handler h).directory w ++ args) buffer
          refuse (k.finish h args ((k.handler h).directory w ++ args)) w ∧
      ∀ w', ∃ what, refuse w' = .error (.raised what) w' := by
  cases k with
  | sdownload self me =>
    refine ⟨Server.answerWith self (txt "sdownload|" ++ args ++ txt "|fail")
      (txt "Given file could not be created or accessed" ++ txt "on user server folder."), ?_,
        fun w' => Packet.mountWith_raises (by decide)⟩
    exact congrFun (if_neg hc) w
  | upload =>
    refine ⟨Client.answerWith (txt "supload|" ++ args ++ txt "|fail")
      (txt "Given file could not be created or accessed" ++ txt "on user local machine."), ?_,
        fun w' => Packet.mountWith_raises (by decide)⟩
    exact congrFun (if_neg hc) w
  | aupload =>
    refine ⟨Client.answerWith (txt "aupload|" ++ args ++ txt "|fail")
      (txt "Given file could not be created or accessed" ++ txt "on user local machine."), ?_,
        fun w' => Packet.mountWith_raises (by decide)⟩
    exact congrFun (if_neg hc) w

theorem finish_none (path : Text) (hl : (k.handler h).lock w args = none) :
    ∃ what, k.finish h args path w = .error (.raised what) w := by
  cases k with
  | sdownload self me => exact Server.completeTransfer_none h me hl
  | upload => exact client_completes_none hl
  | aupload => exact client_completes_none hl

theorem finish_null (path : Text) (hl : (k.handler h).lock w args = some .null) :
    k.finish h args path w = .error (.crashed .nullLock) w := by
  cases k with
  | sdownload self me => exact Server.completeTransfer_null hl
  | upload => exact client_completes_locked hl
  | aupload => exact client_completes_locked hl

theorem finish_live (hp : path = (k.handler h).directory w ++ args)
    (hl : (k.handler h).lock w args = some .live) :
    k.finish h args path w =
      zoom (k.handler h).files (k.handler h).withFiles (completeFile h path) w := by
  subst hp
  cases k with
  | sdownload self me => exact server_completes_live hl
  | upload => exact client_completes_live hl
  | aupload => exact client_completes_live hl

theorem finish_completes (hp : path = (k.handler h).directory w ++ args)
    (hm : (k.handler h).lock w args ≠ some .null) :
    quiet (k.finish h args path) w = zoom (k.handler h).files (k.handler h).withFiles
      (quiet (if ((k.handler h).lock w args == some .live) = true then completeFile h path
        else pure ())) w := by
  cases hl : (k.handler h).lock w args with
  | none =>
    obtain ⟨what, hend⟩ := finish_none k path hl
    rw [run_quiet_raised hend]
    exact congrArg (EStateM.Result.ok ()) (handler_withFiles_self k w).symm
  | some l =>
    cases l with
    | null => exact absurd hl hm
    | live =>
      rw [if_pos (beq_self_eq_true _), ← zoom_quiet]
      exact quiet_congr (finish_live k hp hl)

theorem handler_seen {β : Type} (seen : EStateM.Result (Fault Text Crash) (k.handler h).State Unit → β)
    (hc : checksum ≠ txt "fail") (hcomplete : buffer.isLast = true → ∀ f : FileSystem,
      seen (quiet (k.finish h args ((k.handler h).directory w ++ args)) ((k.handler h).withFiles f w)) =
        seen (zoom (k.handler h).files (k.handler h).withFiles
          (quiet (if ((k.handler h).lock w args == some .live) = true then
            completeFile h ((k.handler h).directory w ++ args) else pure ()))
          ((k.handler h).withFiles f w))) :
    seen (quiet ((k.handler h).call args checksum buffer) w) =
      seen (zoom (k.handler h).files (k.handler h).withFiles
        (quiet (receiveChunk h ((k.handler h).directory w ++ args)
          ((k.handler h).lock w args == some .live) buffer)) w) := by
  obtain ⟨refuse, hcall, hrefuse⟩ := handler_receiveIn k hc w
  rw [quiet_congr hcall]
  refine quiet_receiveIn seen (handler_files k) (handler_withFiles k) (fun f => ?_) hcomplete
  obtain ⟨what, hraise⟩ := hrefuse ((k.handler h).withFiles f w)
  exact run_quiet_raised hraise

theorem handler_receives (hc : checksum ≠ txt "fail")
    (hm : buffer.isLast = true → (k.handler h).lock w args ≠ some .null) :
    quiet ((k.handler h).call args checksum buffer) w =
      zoom (k.handler h).files (k.handler h).withFiles
        (quiet (receiveChunk h ((k.handler h).directory w ++ args)
        ((k.handler h).lock w args == some .live) buffer)) w := by
  refine handler_seen k id hc fun hlast f => ?_
  have hlock := handler_lock k f w
  rw [← hlock]
  exact finish_completes k (by rw [handler_directory]) (by rw [hlock]; exact hm hlast)

theorem handler_final (hc : checksum ≠ txt "fail") :
    final ((k.handler h).call args checksum buffer w) =
      (k.handler h).withFiles (final (quiet (receiveChunk h ((k.handler h).directory w ++ args)
        ((k.handler h).lock w args == some .live) buffer) ((k.handler h).files w))) w := by
  rw [← final_quiet]
  refine Eq.trans ?_ (final_zoom (k.handler h).files (k.handler h).withFiles _ w)
  by_cases hm : (k.handler h).lock w args = some .null
  · have hbeq : (some Lock.null == some Lock.live) = false := rfl
    refine handler_seen k final hc fun _ f => ?_
    rw [final_quiet, finish_null k _ (by rw [handler_lock, hm]), final_zoom, hm, hbeq, handler_files]
    exact (handler_withFiles k f f w).symm
  · exact congrArg final (handler_receives k hc fun _ => hm)

theorem handler_failed {args : Text} {buffer : Packet} (w : (k.handler h).State) :
    final ((k.handler h).call args (txt "fail") buffer w) = w := by
  have hreport (w : Client.ClientState) : final (Client.reportReason buffer w) = w := by
    unfold Client.reportReason charraystr
    split
    · split_ifs <;> rfl
    · split_ifs <;> rfl
  cases k with
  | sdownload self me => rfl
  | upload => exact hreport w
  | aupload => exact hreport w

theorem handler_final_directory {args checksum : Text} {buffer : Packet} (w : (k.handler h).State) :
    (k.handler h).directory (final ((k.handler h).call args checksum buffer w)) =
      (k.handler h).directory w := by
  by_cases hc : checksum = txt "fail"
  · rw [hc, handler_failed]
  · rw [handler_final k hc, handler_directory]

end Handlers

end SyncWizard.Properties
