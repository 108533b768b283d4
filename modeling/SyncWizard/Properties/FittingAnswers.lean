import SyncWizard.Client.Commands
import SyncWizard.Server.Commands
import SyncWizard.Common.Storage

/-! Requests about a file and the answers to them. Both put words around the file's name, and the answers
put more: the longest names fit the command of the request only. -/

namespace SyncWizard.Properties
open Foundation Common

/-- The requests that are answered with a command, `adownload` and `delete` at the server, `sdownload` and
`supload` at the client. -/
inductive Request where
  | adownload (name : Text)
  | delete (name : Text)
  | sdownload (name : Text)
  | supload (name checksum : Text)
  deriving DecidableEq, Repr

def IsHexDigit (c : Byte) : Prop := 48 ≤ c ∧ c ≤ 57 ∨ 65 ≤ c ∧ c ≤ 70

structure IsDigest (d : Text) : Prop where
  length : d.length = 32
  hex : ∀ c ∈ d, IsHexDigit c

namespace Request

def command : Request → Text
  | .adownload name => txt "adownload|" ++ name
  | .delete name => txt "delete|" ++ name
  | .sdownload name => txt "sdownload|" ++ name
  | .supload name checksum => txt "supload|" ++ name ++ txt "|" ++ checksum

def Answers : Request → Text → Prop
  | .adownload name, c =>
    c = txt "aupload|" ++ name ++ txt "|fail" ∨
      ∃ d, IsDigest d ∧ c = txt "aupload|" ++ name ++ txt "|" ++ d
  | .delete name, c => c = txt "delete|" ++ name ++ txt "|fail"
  | .sdownload name, c =>
    c = txt "sdownload|" ++ name ++ txt "|fail" ∨
      ∃ d, IsDigest d ∧ c = txt "sdownload|" ++ name ++ txt "|" ++ d
  | .supload name _, c => c = txt "supload|" ++ name ++ txt "|fail"

def report : Request → Text
  | .adownload name => txt "aupload|" ++ name ++ txt "|fail"
  | .delete name => txt "delete|" ++ name ++ txt "|fail"
  | .sdownload name => txt "sdownload|" ++ name ++ txt "|fail"
  | .supload name _ => txt "supload|" ++ name ++ txt "|fail"

def Raises : Request → Text → Prop
  | .adownload name, what => ∃ h self me w w',
    Server.clientRequestedAdownload h self me name w = .error (.raised what) w'
  | .delete name, what => ∃ h bc self me buffer w w',
    Server.clientRequestedDelete h bc self me name buffer w = .error (.raised what) w'
  | .sdownload name, what => ∃ h w w',
    Client.serverDownloadCommand h name w = .error (.raised what) w'
  | .supload name checksum, what => ∃ h buffer w w',
    Client.serverUploadCommand h name checksum buffer w = .error (.raised what) w'

structure AnswersFit (r : Request) : Prop where
  fits : ∀ c, r.Answers c → Packet.Fits c
  returns : ∀ c, r.Answers c → ∀ what, strcharray c 1024 = .error what → ¬ r.Raises what

def Short : Request → Prop
  | .adownload name => name.length ≤ 982
  | .delete name => name.length ≤ 1011
  | .sdownload name => name.length ≤ 980
  | .supload name _ => name.length ≤ 1010

def zeroDigest : Text := List.replicate 32 48

theorem zeroDigest_digest : IsDigest zeroDigest where
  length := List.length_replicate
  hex c hc := by
    rw [List.eq_of_mem_replicate hc]
    exact .inl (by decide)

theorem fail_fits (before name : Text) :
    Packet.Fits (before ++ name ++ txt "|fail") ↔ before.length + name.length ≤ 1018 := by
  have hfail : (txt "|fail").length = 5 := by decide
  rw [Packet.Fits, List.length_append, List.length_append, hfail]
  omega

theorem digest_fits (before name : Text) {d : Text} (hd : IsDigest d) :
    Packet.Fits (before ++ name ++ txt "|" ++ d) ↔ before.length + name.length ≤ 990 := by
  have hbar : (txt "|").length = 1 := by decide
  rw [Packet.Fits, List.length_append, List.length_append, List.length_append, hbar, hd.length]
  omega

theorem both_fit (before name : Text) :
    (∀ c, (c = before ++ name ++ txt "|fail" ∨
        ∃ d, IsDigest d ∧ c = before ++ name ++ txt "|" ++ d) → Packet.Fits c) ↔
      before.length + name.length ≤ 990 := by
  constructor
  · exact fun hall =>
      (digest_fits before name zeroDigest_digest).mp (hall _ (.inr ⟨_, zeroDigest_digest, rfl⟩))
  · rintro hlength c (rfl | ⟨d, hd, rfl⟩)
    · exact (fail_fits before name).mpr (by omega)
    · exact (digest_fits before name hd).mpr hlength

theorem fits_iff (r : Request) : (∀ c, r.Answers c → Packet.Fits c) ↔ r.Short := by
  have hone (before name : Text) :
      (∀ c, c = before ++ name ++ txt "|fail" → Packet.Fits c) ↔
        before.length + name.length ≤ 1018 := by
    rw [← fail_fits]
    exact ⟨fun hall => hall _ rfl, fun hc c he => he ▸ hc⟩
  cases r with
  | adownload name =>
    have hword : (txt "aupload|").length = 8 := by decide
    refine (both_fit (txt "aupload|") name).trans ?_
    rw [hword, Short]
    omega
  | delete name =>
    have hword : (txt "delete|").length = 7 := by decide
    refine (hone (txt "delete|") name).trans ?_
    rw [hword, Short]
    omega
  | sdownload name =>
    have hword : (txt "sdownload|").length = 10 := by decide
    refine (both_fit (txt "sdownload|") name).trans ?_
    rw [hword, Short]
    omega
  | supload name checksum =>
    have hword : (txt "supload|").length = 8 := by decide
    refine (hone (txt "supload|") name).trans ?_
    rw [hword, Short]
    omega

theorem answersFit_of {r : Request} (hfits : ∀ c, r.Answers c → Packet.Fits c) : r.AnswersFit where
  fits := hfits
  returns c hc what hraised := by
    have hok := strcharray_ok (by decide) (by decide) (hfits c hc)
    rw [hraised] at hok
    cases hok

end Request

/-! ## What a handler raises -/

section Reports

theorem long_report {σ : Type} (push : Packet → Exec σ Unit) {command : Text}
    (hl : ¬ Packet.Fits command) (payload : Text) (s : σ) :
    ∃ what, strcharray command 1024 = .error what ∧
      Packet.mountWith push command payload s = .error (.raised what) s := by
  obtain ⟨what, hw⟩ := strcharray_long (s := command) (by decide) (by decide) (Nat.le_of_not_lt hl)
  have hset : Packet.init.setCommand command s = .error (.raised what) s := by
    rw [Packet.setCommand, hw]
    rfl
  exact ⟨what, hw, run_bind_error hset _⟩

def voidFiles : FileSystem := ⟨[], ∅, []⟩

def syncFolder : Name := ⟨txt "stock", by decide⟩

theorem voidFiles_locate (rest : Text) : voidFiles.locate (syncFolder.1 ++ slash :: rest) = none := by
  have hcstr : cstr (syncFolder.1 ++ slash :: rest) = syncFolder.1 ++ slash :: cstr rest := by
    have hkept := List.takeWhile_eq_self_iff.mp (FileSystem.cstr_eq syncFolder.2.2.2.2.2)
    rw [cstr, List.takeWhile_append_of_pos hkept, List.takeWhile_cons_of_pos (by decide), cstr]
  have hsteps : stepsOf (syncFolder.1 ++ slash :: rest) =
      .down syncFolder :: ((cstr rest).splitOn slash).map stepOf := by
    rw [stepsOf, hcstr, List.splitOn_append_cons_self_of_not_mem syncFolder.2.2.2.2.1, List.map_cons,
      FileSystem.stepOf_name]
  have hstart : voidFiles.startOf (syncFolder.1 ++ slash :: rest) = [] := by
    rw [FileSystem.startOf, hcstr, List.head?_append_of_ne_nil _ (by decide)]
    exact if_neg (by decide)
  obtain ⟨step, steps, hrest⟩ := List.exists_cons_of_ne_nil
    (List.splitOn_ne_nil slash (cstr rest))
  rw [FileSystem.locate, hcstr, if_neg (List.append_ne_nil_of_right_ne_nil _ (List.cons_ne_nil _ _)),
    hstart, hsteps, hrest, List.map_cons, PathStep.walk, if_pos (by decide), PathStep.walk,
    if_neg (by decide)]

def voidServer : Server.ServerState := .init ⟨3, 0, fun _ => [], fun _ => [], fun _ => true⟩ voidFiles

def voidIdentity : Server.Identity := ⟨5, txt "user", txt "machine", syncFolder.1 ++ [slash], 0⟩

def voidClient : Client.ClientState :=
  ⟨⟨3, 0, fun _ => [], fun _ => [], fun _ => true⟩, voidFiles, syncFolder.1 ++ [slash],
    syncFolder.1 ++ [slash], fun _ => none, [], true, true, true⟩

theorem voidFiles_invalid (name : Text) :
    isValidPath pageHost.1 (syncFolder.1 ++ [slash] ++ name) voidFiles =
      .ok false (voidFiles.record .test (syncFolder.1 ++ [slash] ++ name)) := by
  have hlookup : voidFiles.lookup (syncFolder.1 ++ [slash] ++ name) = none := by
    rw [List.append_assoc, FileSystem.lookup, List.singleton_append, voidFiles_locate]
    rfl
  exact FileSystem.isValidPath_missing rfl hlookup

def testedServer (name : Text) : Server.ServerState :=
  { voidServer with files := voidFiles.record .test (syncFolder.1 ++ [slash] ++ name) }

def testedClient (name : Text) : Client.ClientState :=
  { voidClient with files := voidFiles.record .test (syncFolder.1 ++ [slash] ++ name) }

def unopenedClient (name : Text) : Client.ClientState :=
  { voidClient with
    files := voidFiles.record .append (syncFolder.1 ++ [slash] ++ name ++ temporarySuffix) }

theorem voidServer_invalid (name : Text) :
    Server.onFiles (isValidPath pageHost.1 (syncFolder.1 ++ [slash] ++ name)) voidServer =
      .ok false (testedServer name) :=
  run_zoom_ok (voidFiles_invalid name)

theorem voidClient_invalid (name : Text) :
    Client.onFiles (isValidPath pageHost.1 (syncFolder.1 ++ [slash] ++ name)) voidClient =
      .ok false (testedClient name) :=
  run_zoom_ok (voidFiles_invalid name)

theorem voidClient_unopened (name : Text) :
    Client.onFiles (openAppend pageHost.1 (syncFolder.1 ++ [slash] ++ name ++ temporarySuffix))
        voidClient = .ok none (unopenedClient name) := by
  have hlocate : voidFiles.locate (syncFolder.1 ++ [slash] ++ name ++ temporarySuffix) = none := by
    rw [List.append_assoc, List.append_assoc, List.singleton_append]
    exact voidFiles_locate _
  refine run_zoom_ok ?_
  change openAppend _ _ voidFiles = _
  rw [openAppend, hlocate]

/-- What `strcharray` says about the report is what the handler ends with. -/
def Request.ReportRaises (r : Request) : Prop :=
  ∃ what, strcharray r.report 1024 = .error what ∧ r.Raises what

theorem adownload_raises {name : Text} (hl : ¬ Packet.Fits (Request.adownload name).report) :
    (Request.adownload name).ReportRaises := by
  obtain ⟨what, hw, hrun⟩ := long_report (Server.pushPacket 0) hl
    (txt "Could not find or acess given file!") (testedServer name)
  have hraised : Server.clientRequestedAdownload pageHost.1 0 voidIdentity name voidServer =
      .error (.raised what) (testedServer name) :=
    (run_bind_ok (voidServer_invalid name) _).trans (run_bind_error hrun _)
  exact ⟨what, hw, _, _, _, _, _, hraised⟩

theorem delete_raises {name : Text} (hl : ¬ Packet.Fits (Request.delete name).report) :
    (Request.delete name).ReportRaises := by
  obtain ⟨what, hw, hrun⟩ := long_report (Server.pushPacket 0) hl
    (txt "Could not find or acess given file path!") (testedServer name)
  have hraised : Server.clientRequestedDelete pageHost.1 (fun _ _ => pure ()) 0 voidIdentity name
      Packet.init voidServer = .error (.raised what) (testedServer name) :=
    (run_bind_ok (voidServer_invalid name) _).trans hrun
  exact ⟨what, hw, _, _, _, _, _, _, _, hraised⟩

theorem sdownload_raises {name : Text} (hl : ¬ Packet.Fits (Request.sdownload name).report) :
    (Request.sdownload name).ReportRaises := by
  obtain ⟨what, hw, hrun⟩ := long_report Client.pushPacket hl
    (txt "Given file was not found on user local machine.") (testedClient name)
  have hraised : Client.serverDownloadCommand pageHost.1 name voidClient =
      .error (.raised what) (testedClient name) := by
    rw [Client.serverDownloadCommand, run_bind_ok (run_get voidClient)]
    exact (run_bind_ok (voidClient_invalid name) _).trans hrun
  exact ⟨what, hw, _, _, _, hraised⟩

theorem supload_raises {name checksum : Text} (hc : checksum ≠ txt "fail")
    (hl : ¬ Packet.Fits (Request.supload name checksum).report) :
    (Request.supload name checksum).ReportRaises := by
  obtain ⟨what, hw, hrun⟩ := long_report Client.pushPacket hl
    (txt "Given file could not be created or accessed" ++ txt "on user local machine.")
    (unopenedClient name)
  have hraised : Client.serverUploadCommand pageHost.1 name checksum Packet.init voidClient =
      .error (.raised what) (unopenedClient name) := by
    rw [Client.serverUploadCommand, run_bind_ok (run_get voidClient), Client.receiveUpload,
      if_neg hc]
    exact (run_bind_ok (voidClient_unopened name) _).trans hrun
  exact ⟨what, hw, _, _, _, _, hraised⟩

theorem report_raises {r : Request} (hl : ¬ Packet.Fits r.report)
    (hc : ∀ name, r ≠ .supload name (txt "fail")) : r.ReportRaises := by
  cases r with
  | adownload name => exact adownload_raises hl
  | delete name => exact delete_raises hl
  | sdownload name => exact sdownload_raises hl
  | supload name checksum => exact supload_raises (fun he => hc name (he ▸ rfl)) hl

end Reports

/-- A request whose name is short enough is answered in a command that fits; the limit lies below the one
for the request itself. -/
theorem answers_fit_iff (r : Request) : r.AnswersFit ↔ r.Short :=
  ⟨fun ha => (Request.fits_iff r).mp ha.fits,
    fun hs => Request.answersFit_of ((Request.fits_iff r).mpr hs)⟩

def nestedPath : Text := (List.replicate 505 (txt "a/")).flatten ++ txt "a"

theorem nestedPath_length : nestedPath.length = 1011 := by
  have hfolder : (txt "a/").length = 2 := by decide
  have hname : (txt "a").length = 1 := by decide
  rw [nestedPath, List.length_append, List.length_flatten, List.map_replicate, List.sum_replicate_nat,
    hfolder, hname]

theorem nested_path_unanswered : Packet.Fits (Request.adownload nestedPath).command ∧
    ¬ (Request.adownload nestedPath).AnswersFit := by
  have hword : (txt "adownload|").length = 10 := by decide
  have hlong : ¬ Packet.Fits (Request.adownload nestedPath).report := by
    rw [Request.report, Request.fail_fits, nestedPath_length]
    decide
  constructor
  · rw [Request.command, Packet.Fits, List.length_append, hword, nestedPath_length]
    decide
  · intro ha
    obtain ⟨what, hw, hraises⟩ := report_raises hlong fun name he => by cases he
    exact ha.returns _ (.inl rfl) what hw hraises

end SyncWizard.Properties
