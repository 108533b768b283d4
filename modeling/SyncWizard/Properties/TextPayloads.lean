import SyncWizard.Client.Commands
import SyncWizard.Common.Transfer
import SyncWizard.Server.Outcomes
import SyncWizard.Server.Runs
import SyncWizard.Server.Sessions

/-! Texts as payloads: the file lists, the reasons of failures and of a farewell. All of them are
stored in the payload array of a new packet, which has no room for any byte. -/

namespace SyncWizard.Properties
open Foundation Common Server

/-- Where a text becomes the payload of a packet: in the handlers of a session, in the accept loop and
in the handlers of a client. -/
inductive TextSite where
  | exit (reason : Text)
  | slist (listing : Text)
  | flist (listing : Text)
  | deleteMissing (file : Text)
  | adownloadMissing (file : Text)
  | adownloadUnopened (file : Text)
  | sdownloadUnopened (file : Text)
  | loginMalformed
  | loginFailed (what : Text)
  | loginInvalid
  | clientSdownloadMissing (file : Text)
  | clientSdownloadUnopened (file : Text)
  | clientSuploadUnopened (file : Text)
  | clientDeleteMissing (file : Text)
  | clientDeleteFailed (file what : Text)
  | clientAuploadUnopened (file : Text)

namespace TextSite

def command : TextSite → Text
  | .exit _ => txt "exit"
  | .slist _ => txt "slist"
  | .flist _ => txt "flist"
  | .deleteMissing file | .clientDeleteMissing file | .clientDeleteFailed file _ =>
    txt "delete|" ++ file ++ txt "|fail"
  | .adownloadMissing file | .adownloadUnopened file | .clientAuploadUnopened file =>
    txt "aupload|" ++ file ++ txt "|fail"
  | .sdownloadUnopened file | .clientSdownloadMissing file | .clientSdownloadUnopened file =>
    txt "sdownload|" ++ file ++ txt "|fail"
  | .clientSuploadUnopened file => txt "supload|" ++ file ++ txt "|fail"
  | .loginMalformed | .loginFailed _ | .loginInvalid => txt "login|fail"

def text : TextSite → Text
  | .exit reason => reason
  | .slist listing => listing
  | .flist listing => listing
  | .deleteMissing _ => txt "Could not find or acess given file path!"
  | .adownloadMissing _ => txt "Could not find or acess given file!"
  | .adownloadUnopened _ => txt "Server could not bufferize file to send!"
  | .sdownloadUnopened _ =>
    txt "Given file could not be created or accessed" ++ txt "on user server folder."
  | .loginMalformed => txt "Malformed login command, invalid argument number"
  | .loginFailed what => txt "Exception ocurred registring new user:" ++ what
  | .loginInvalid => txt "Invalid user info!"
  | .clientSdownloadMissing _ | .clientDeleteMissing _ =>
    txt "Given file was not found on user local machine."
  | .clientSdownloadUnopened _ => txt "Local machine could not acess given file!"
  | .clientSuploadUnopened _ | .clientAuploadUnopened _ =>
    txt "Given file could not be created or accessed" ++ txt "on user local machine."
  | .clientDeleteFailed _ what => what

/-- A site whose text may be empty; the text of every other one begins with words of its own. -/
def MayBeEmpty : TextSite → Prop
  | .exit _ | .slist _ | .flist _ | .clientDeleteFailed _ _ => True
  | _ => False

theorem text_ne_nil {site : TextSite} (hs : ¬ site.MayBeEmpty) : site.text ≠ [] := by
  cases site with
  | exit | slist | flist | clientDeleteFailed => exact absurd trivial hs
  | loginFailed what => exact List.append_ne_nil_of_left_ne_nil (by decide) _
  | deleteMissing | adownloadMissing | adownloadUnopened | sdownloadUnopened |
      loginMalformed | loginInvalid
  | clientSdownloadMissing | clientSdownloadUnopened | clientSuploadUnopened | clientDeleteMissing
  | clientAuploadUnopened => exact of_decide_eq_false rfl

end TextSite

/-! ## The handlers at the sites -/

/-- A run has come to where the packet of a site is composed. -/
def TextSite.ComposedBy (site : TextSite) {σ : Type} (r : EStateM.Result (Fault Text Crash) σ Unit) : Prop :=
  ∃ (push : Packet → Exec σ Unit) (s : σ), r = Packet.mountWith push site.command site.text s

namespace TextSite

theorem ComposedBy.raises {σ : Type} {site : TextSite} {r : EStateM.Result (Fault Text Crash) σ Unit}
    (hc : site.ComposedBy r) (hs : ¬ site.MayBeEmpty) : ∃ what s, r = .error (.raised what) s := by
  obtain ⟨push, s, rfl⟩ := hc
  obtain ⟨what, hraises⟩ : ∃ what, Packet.mountWith push site.command site.text s =
      .error (.raised what) s := Packet.mountWith_raises (text_ne_nil hs)
  exact ⟨what, s, hraises⟩

theorem composedBy_bind {σ : Type} (site : TextSite) (push : Packet → Exec σ Unit) (f : Unit → Exec σ Unit)
    (s : σ) : site.ComposedBy ((Packet.mountWith push site.command site.text >>= f) s) :=
  ⟨fun p => push p >>= f, s, by simp only [Packet.mountWith, bind_assoc]⟩

section OfSessions
variable {h : Host} {bc : Broadcast} {s : SessionId} {me : Identity} {file : Text} {w v : ServerState}

theorem disconnect_composes (reason : Text) : (exit reason).ComposedBy (disconnect s reason w) :=
  composedBy_bind _ _ _ w

theorem slist_composes {listing : Text} (hl : Server.slist h me w = .ok listing v) :
    (slist listing).ComposedBy (clientRequestedSlist h s me w) :=
  ⟨pushPacket s, v, run_bind_ok hl _⟩

theorem flist_composes {listing : Text} (hl : listFiles h me (flistLine h) w = .ok listing v) :
    (flist listing).ComposedBy (clientRequestedFlist h s me w) :=
  ⟨pushPacket s, v, run_bind_ok hl _⟩

theorem delete_composes (ht : onFiles (isValidPath h (me.directoryPath ++ file)) w = .ok false v)
    (buffer : Packet) : (deleteMissing file).ComposedBy (clientRequestedDelete h bc s me file buffer w) :=
  ⟨pushPacket s, v, run_bind_ok ht _⟩

theorem adownload_missing_composes
    (ht : onFiles (isValidPath h (me.directoryPath ++ file)) w = .ok false v) :
    (adownloadMissing file).ComposedBy (clientRequestedAdownload h s me file w) := by
  rw [clientRequestedAdownload, run_bind_ok ht]
  exact composedBy_bind _ _ _ v

theorem adownload_unopened_composes {checksum : Text} {lock : Lock} {u t t' : ServerState}
    (ht : onFiles (isValidPath h (me.directoryPath ++ file)) w = .ok true v)
    (hm : (v.session s).fileMtx file = some lock) (hl : lockFile s file v = .ok () u)
    (hd : onFiles (calculateMd5Checksum h (me.directoryPath ++ file)) u = .ok checksum t)
    (ho : onFiles (openRead h (me.directoryPath ++ file)) t = .ok none t') :
    (adownloadUnopened file).ComposedBy (clientRequestedAdownload h s me file w) := by
  have hmutex : fileMutex s file v = .ok (some lock) v := by rw [← hm]; rfl
  rw [clientRequestedAdownload, run_bind_ok ht]
  refine ⟨pushPacket s, t', (run_bind_ok hmutex _).trans ?_⟩
  exact (run_bind_ok hl _).trans ((run_bind_ok hd _).trans (run_bind_ok ho _))

theorem sdownload_composes {arg2 : Text} (hno : arg2 ≠ txt "fail")
    (ho : onFiles (openAppend h (me.directoryPath ++ file ++ temporarySuffix)) w = .ok none v)
    (buffer : Packet) :
    (sdownloadUnopened file).ComposedBy (clientSentSdownload h s me file buffer arg2 w) := by
  rw [clientSentSdownload, if_neg hno]
  exact ⟨pushPacket s, v, run_bind_ok ho _⟩

end OfSessions

section OfLogins
variable {h : Host} {fuel : ℕ} {fd : ℤ} {q : Packet} {w v : ServerState}

theorem refuse_composes (site : TextSite) (hc : site.command = txt "login|fail") :
    site.ComposedBy (refuse h fuel fd site.text w) :=
  ⟨fun p => do onNet (sendPacket h fuel p fd); closeSocket fd, w, by rw [hc]; rfl⟩

theorem login_malformed_composes {fields : List Text} (hf : splitBuffer q.memory w = .ok fields v)
    (hlen : fields.length ≠ 3) : loginMalformed.ComposedBy (answerLogin h fuel fd q w) := by
  rw [answerLogin, run_bind_ok hf]
  match fields with
  | [_, _, _] => exact absurd rfl hlen
  | [] | [_] | [_, _] | _ :: _ :: _ :: _ :: _ => exact refuse_composes loginMalformed rfl

theorem login_invalid_composes {command username machine : Text}
    (hf : splitBuffer q.memory w = .ok [command, username, machine] v)
    (hno : isValidUsername username = false) : loginInvalid.ComposedBy (answerLogin h fuel fd q w) := by
  rw [answerLogin, run_bind_ok hf]
  dsimp only
  rw [if_neg (by rw [hno]; exact Bool.false_ne_true)]
  exact refuse_composes loginInvalid rfl

theorem login_failed_composes {command username machine what : Text} {u : ServerState}
    (hf : splitBuffer q.memory w = .ok [command, username, machine] v)
    (hvalid : isValidUsername username = true)
    (hr : (do handleNewSession h fuel fd username machine; approve h fuel fd : ServerExec Unit) v =
      .error (.raised what) u) :
    (loginFailed what).ComposedBy (answerLogin h fuel fd q w) := by
  rw [answerLogin, run_bind_ok hf]
  dsimp only
  rw [if_pos hvalid, run_attempt_raised hr]
  exact refuse_composes (loginFailed what) rfl

end OfLogins

section OfClients
variable {h : Host} {file checksum : Text} {w v u t : Client.ClientState}

theorem client_sdownload_missing_composes
    (ht : Client.onFiles (isValidPath h (w.syncDirPath ++ file)) w = .ok false v) :
    (clientSdownloadMissing file).ComposedBy (Client.serverDownloadCommand h file w) :=
  ⟨Client.pushPacket, v, (run_bind_ok rfl _).trans (run_bind_ok ht _)⟩

theorem client_sdownload_unopened_composes {lock : Lock}
    (ht : Client.onFiles (isValidPath h (w.syncDirPath ++ file)) w = .ok true v)
    (hm : v.fileMtx file = some lock) (hl : Client.lockFile file v = .ok () u)
    (hd : Client.onFiles (calculateMd5Checksum h (w.syncDirPath ++ file)) u = .ok checksum t)
    {t' : Client.ClientState} (ho : Client.onFiles (openRead h (w.syncDirPath ++ file)) t = .ok none t') :
    (clientSdownloadUnopened file).ComposedBy (Client.serverDownloadCommand h file w) := by
  have hmutex : Client.fileMutex file v = .ok (some lock) v := by rw [← hm]; rfl
  refine ⟨Client.pushPacket, t', (run_bind_ok rfl _).trans ((run_bind_ok ht _).trans ?_)⟩
  exact (run_bind_ok hmutex _).trans ((run_bind_ok hl _).trans ((run_bind_ok hd _).trans (run_bind_ok ho _)))

theorem client_upload_composes {site : TextSite} {command localFilePath arg2 : Text} {buffer : Packet}
    (hcommand : site.command = command ++ file ++ txt "|fail")
    (htext : site.text = txt "Given file could not be created or accessed" ++ txt "on user local machine.")
    (hno : arg2 ≠ txt "fail")
    (ho : Client.onFiles (openAppend h (localFilePath ++ temporarySuffix)) w = .ok none v) :
    site.ComposedBy (Client.receiveUpload h command file localFilePath arg2 buffer w) := by
  rw [Client.receiveUpload, if_neg hno]
  exact ⟨Client.pushPacket, v, (run_bind_ok ho _).trans (by rw [hcommand, htext]; rfl)⟩

theorem client_supload_composes {arg2 : Text} {buffer : Packet} (hno : arg2 ≠ txt "fail")
    (ho : Client.onFiles (openAppend h (w.syncDirPath ++ file ++ temporarySuffix)) w = .ok none v) :
    (clientSuploadUnopened file).ComposedBy (Client.serverUploadCommand h file arg2 buffer w) :=
  client_upload_composes rfl rfl hno ho

theorem client_aupload_composes {arg2 : Text} {buffer : Packet} (hno : arg2 ≠ txt "fail")
    (ho : Client.onFiles (openAppend h (w.asyncDirPath ++ file ++ temporarySuffix)) w = .ok none v) :
    (clientAuploadUnopened file).ComposedBy (Client.serverAsyncUploadCommand h file arg2 buffer w) :=
  client_upload_composes rfl rfl hno ho

theorem client_delete_missing_composes {arg2 : Text} {buffer : Packet} (hno : arg2 ≠ txt "fail")
    (ht : Client.onFiles (isValidPath h (w.syncDirPath ++ file)) w = .ok false v) :
    (clientDeleteMissing file).ComposedBy (Client.serverDeleteFileCommand h file buffer arg2 w) := by
  rw [Client.serverDeleteFileCommand, run_bind_ok (run_get w), if_neg hno, run_bind_ok ht]
  exact ⟨Client.pushPacket, v, rfl⟩

theorem client_delete_failed_composes {arg2 what : Text} {buffer : Packet} (hno : arg2 ≠ txt "fail")
    (hfile : file ≠ txt "fail") (ht : Client.onFiles (isValidPath h (w.syncDirPath ++ file)) w = .ok true v)
    (hr : Client.deleteLocked h file (w.syncDirPath ++ file) v = .error (.raised what) u) :
    (clientDeleteFailed file what).ComposedBy (Client.serverDeleteFileCommand h file buffer arg2 w) := by
  rw [Client.serverDeleteFileCommand, run_bind_ok (run_get w), if_neg hno, run_bind_ok ht]
  simp only [Bool.not_true, Bool.false_eq_true, if_false, if_neg hfile]
  exact ⟨Client.pushPacket, u, run_attempt_raised hr _⟩

end OfClients
end TextSite
/-! ## What arrives -/

/-- The packet is composed and pushed, and whoever receives it reads the text. -/
def Arrives (command text : Text) : Prop :=
  ∃ p : Packet, Packet.Reads command p ∧ p.Exact ∧
    (∀ (σ : Type) (push : Packet → Exec σ Unit) (s : σ),
      Packet.mountWith push command text s = push p s) ∧
    ∀ (h : Host) (sockfd : ℤ) (m m' : ConnectionManager) (q : Packet) (rest : Text),
      m.inbox (m.socketOf sockfd) = p.wire ++ rest → receivePacket h sockfd m = .ok q m' →
        ∀ (σ : Type) (s : σ), charraystr q.payload q.payloadSize.toNat s = .ok text s

section Composing
variable {command text : Text}

theorem received_empty {h : Host} {sockfd : ℤ} {m m' : ConnectionManager} {p q : Packet} {rest : Text}
    (hp : p.payloadSize = 0) (hinbox : m.inbox (m.socketOf sockfd) = p.wire ++ rest)
    (hr : receivePacket h sockfd m = .ok q m') : q.payload = none ∧ q.payloadSize = 0 := by
  obtain ⟨hheader, hpayload⟩ := receivePacket_reads hr
  have htake : (m.inbox (m.socketOf sockfd)).take headerSize = headerBytes p.toHeader := by
    rw [hinbox, Packet.wire, List.append_assoc]
    exact List.take_left' (headerBytes_length _)
  rw [htake, readHeader_headerBytes] at hheader
  have hsize : q.payloadSize = 0 := (congrArg Header.payloadSize hheader).trans hp
  refine ⟨hpayload.trans (if_pos ?_), hsize⟩
  rw [hsize]
  rfl

theorem arrives_empty (hf : Packet.Fits command) : Arrives command [] := by
  let p := Packet.init.withCommand (Packet.commandArray command)
  have hcarries : Packet.Carries command p := Packet.withCommand_carries hf rfl
  refine ⟨p, hcarries.toReads, rfl, fun σ push s => Packet.mountWith_nil hf, ?_⟩
  intro h sockfd m m' q rest hinbox hr σ s
  obtain ⟨hpayload, hsize⟩ := received_empty (p := p) rfl hinbox hr
  rw [hpayload, hsize]
  rfl

theorem empty_of_arrives (ha : Arrives command text) : text = [] ∧ Packet.Fits command := by
  obtain ⟨p, hreads, -, hmount, -⟩ := ha
  refine ⟨?_, hreads.fits⟩
  by_contra hne
  let push : Packet → Exec Unit Unit := fun _ => pure ()
  obtain ⟨what, hraises⟩ : ∃ what, Packet.mountWith push command text () = .error (.raised what) () :=
    Packet.mountWith_raises hne
  rw [hmount] at hraises
  cases hraises

end Composing

theorem disconnect_returns {s : SessionId} {reason : Text} {w : ServerState} :
    Returns (disconnect s reason w) ↔ reason = [] := by
  constructor
  · intro hr
    by_contra hne
    obtain ⟨what, hraises⟩ : ∃ what, answerWith s (txt "exit") reason w = .error (.raised what) w :=
      Packet.mountWith_raises hne
    rw [disconnect, run_bind_error hraises] at hr
    exact not_returns_error _ _ hr
  · rintro rfl
    have hmount : answerWith s (txt "exit") [] w = _ := Packet.mountWith_nil (by decide)
    rw [disconnect, run_bind_ok hmount]
    exact returns_ok _ _

/-- Only the empty text gets through. A farewell is queued only without a reason, and a failure report
and a refused login, which begin with words of their own, never are. -/
theorem texts_arrive_iff (command text : Text) (s : SessionId) (w : ServerState) (site : TextSite) :
    (Arrives command text ↔ text = [] ∧ Packet.Fits command) ∧
      (Returns (disconnect s text w) ↔ text = []) ∧
      (site.MayBeEmpty ∨ ¬ Arrives site.command site.text) := by
  refine ⟨⟨empty_of_arrives, ?_⟩, disconnect_returns, ?_⟩
  · rintro ⟨rfl, hf⟩
    exact arrives_empty hf
  · by_cases hs : site.MayBeEmpty
    · exact .inl hs
    · exact .inr fun ha => TextSite.text_ne_nil hs (empty_of_arrives ha).1

theorem farewell_not_arriving : ¬ ∀ command text : Text,
    Packet.Fits command → nul ∉ text → Arrives command text := by
  intro hall
  have harrives := hall (txt "exit") (txt "Nuked!") (by decide) (by decide)
  exact absurd (empty_of_arrives harrives).1 (by decide)

end SyncWizard.Properties
