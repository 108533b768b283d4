import SyncWizard.Client.Effects
import SyncWizard.Properties.ChunkHandlers
import SyncWizard.Properties.PacketScans
import SyncWizard.Server.Reconciliation
import SyncWizard.Server.Runs

/-! Commands that report a failure of the other end. Six of the seven leave files, locks and queues as
they are; `clist|fail` goes on to read the reason as a list of names and asks for each of them. -/

namespace SyncWizard.Properties
open Foundation Common

/-! ## The server -/

inductive ServerReport where
  | clist
  | sdownload (file : Text)
  | supload (file : Text)

def ServerReport.fields : ServerReport → List Text
  | .clist => [txt "clist", txt "fail"]
  | .sdownload file => [txt "sdownload", file, txt "fail"]
  | .supload file => [txt "supload", file, txt "fail"]

structure ServerInert (w w' : Server.ServerState) : Prop where
  files : w'.files.node = w.files.node
  locks : ∀ s, (w'.session s).fileMtx = (w.session s).fileMtx
  queues : ∀ s, (w'.session s).senderBuffer = (w.session s).senderBuffer

instance : Std.Refl ServerInert := ⟨fun _ => ⟨rfl, fun _ => rfl, fun _ => rfl⟩⟩

instance : IsTrans Server.ServerState ServerInert := ⟨fun _ _ _ h h' =>
  ⟨h'.files.trans h.files, fun s => (h'.locks s).trans (h.locks s),
    fun s => (h'.queues s).trans (h.queues s)⟩⟩

structure InertlyHandled (w : Server.ServerState)
    (r : EStateM.Result (Fault Text Crash) Server.ServerState Unit) : Prop where
  inside : ∀ v, r ≠ .error (.crashed .outOfBounds) v
  inert : ServerInert w (final r)

def SameNodes (f f' : FileSystem) : Prop := f'.node = f.node

instance : Std.Refl SameNodes := ⟨fun _ => rfl⟩

instance : IsTrans FileSystem SameNodes := ⟨fun _ _ _ h h' => h'.trans h⟩

theorem sameNodes_list {h : Host} (path : Text) : Kept SameNodes (listDirectory h path) := by
  intro f
  unfold listDirectory
  split <;> rfl

/-- The file that `clist|fail` asks for first: the folder can be listed, the reason is read up to its
end, and this is the first part of it that is not the name of a temporary. -/
structure AsksFor (h : Host) (me : Server.Identity) (w : Server.ServerState) (buffer : Packet)
    (file : Text) : Prop where
  listable : Listable h w.files me.directoryPath
  named : ∃ reason, buffer.payload = some reason ∧ nul ∈ reason ∧
    ((reason.takeWhile (· != nul)).splitOn bar).find? (fun n => !Server.isTemporary n) = some file
  fits : Packet.Fits (txt "sdownload|" ++ file)

def Endless (buffer : Packet) : Prop := ∃ reason, buffer.payload = some reason ∧ nul ∉ reason

section Server
open Server
variable {h : Host} {bc : Broadcast} {self : SessionId} {me : Identity} {buffer : Packet}
  {w w' : ServerState} {file : Text}

theorem slist_inert : Kept ServerInert (slist h me) := by
  have hfolder : Kept SameNodes (listFolder h me.directoryPath (sessionError (noFolder me))
      (sessionError (noListing me me.directoryPath)) (slistLine me)) :=
    listFolder_keeps sameNodes_list fun _ _ => rfl
  exact Kept.zoom hfolder fun w f hf => ⟨hf, fun _ => rfl, fun _ => rfl⟩

theorem reconcile_noServer (names : List Text) :
    reconcile (getlineSplit []) names = ⟨[], names.filter fun n => !isTemporary n⟩ := by
  have hnone : getlineSplit [] = [] := rfl
  have hall : missingFrom [] [] (names.filter fun n => !isTemporary n) =
      names.filter fun n => !isTemporary n := List.filter_eq_self.mpr fun _ _ => rfl
  rw [hnone, reconcile]
  simp only [moveTemporaries_eq, collectMissing_eq, List.nil_append, List.filter_nil, hall]
  rfl

theorem splitPayload_reads {reason : Text} (hp : buffer.payload = some reason) (hend : nul ∈ reason) :
    splitPayload buffer w = .ok ((reason.takeWhile (· != nul)).splitOn bar) w := by
  rw [splitPayload, hp]
  simp only [splitBuffer, if_pos hend, splitScan_nil]
  rfl

theorem splitPayload_fails (hno : ¬ ∃ reason, buffer.payload = some reason ∧ nul ∈ reason) :
    ∃ e, splitPayload buffer w = .error e w := by
  rw [splitPayload]
  cases hp : buffer.payload with
  | none => exact ⟨_, rfl⟩
  | some reason =>
    have hend : nul ∉ reason := fun hm => hno ⟨reason, hp, hm⟩
    simp only [splitBuffer, if_neg hend]
    exact ⟨_, rfl⟩

variable (self) in
theorem clist_asks (hl : Listable h w.files me.directoryPath) {reason : Text}
    (hp : buffer.payload = some reason) (hend : nul ∈ reason) (args : Text) :
    ∃ w₁, ServerInert w w₁ ∧ clientSentClist h self me buffer args w =
      forEach (fun file => answer self (txt "sdownload|" ++ file))
        (((reason.takeWhile (· != nul)).splitOn bar).filter fun n => !isTemporary n) w₁ := by
  obtain ⟨f, hf⟩ := listFiles_listable (slistLine me) hl
  have hinert : ServerInert w (final (slist h me w)) := slist_inert w
  have hslist : slist h me w = .ok [] { w with files := f } := hf
  rw [hslist] at hinert
  refine ⟨_, hinert, ?_⟩
  rw [clientSentClist_reconciles, run_bind_ok (splitPayload_reads hp hend), run_bind_ok hslist]
  simp only [reconcile_noServer]
  rfl

theorem clist_unlisted (hn : nul ∉ me.directoryPath) (hl : ¬ Listable h w.files me.directoryPath)
    {reason : Text} (hp : buffer.payload = some reason) (hend : nul ∈ reason) (args : Text) :
    ServerInert w (final (clientSentClist h self me buffer args w)) := by
  have hinert : ServerInert w (final (slist h me w)) := slist_inert w
  rw [clientSentClist, run_bind_ok (splitPayload_reads hp hend)]
  cases hs : slist h me w with
  | ok output w₁ =>
    obtain ⟨f, hlisted⟩ := onFiles_inv hs
    obtain ⟨p, hlocated, hallowed, hfolder⟩ := listFolder_inv hlisted
    exact absurd ⟨p, hn, hlocated, hallowed, hfolder⟩ hl
  | error e w₁ =>
    rw [hs] at hinert
    rw [run_bind_error hs]
    exact hinert

variable (self) in
theorem answers_queue (files : List Text) : Kept (OnlyQueues fun _ => True)
    (forEach (fun file => answer self (txt "sdownload|" ++ file)) files) :=
  Kept.forEach fun _ _ => (onlyQueues_admits self).answer_kept fun _ _ => trivial

theorem asking_not_inert (hf : Packet.Fits (txt "sdownload|" ++ file)) (files : List Text)
    (hw : ServerInert w w') :
    ¬ ServerInert w
      (final (forEach (fun file => answer self (txt "sdownload|" ++ file)) (file :: files) w')) := by
  intro hinert
  obtain ⟨p, hp⟩ : ∃ p, answer self (txt "sdownload|" ++ file) w' = .ok () (w'.push self p) :=
    ⟨_, answer_run hf w'⟩
  obtain ⟨-, -, hrest⟩ := answers_queue self files (w'.push self p)
  obtain ⟨-, new, hnew, -⟩ := hrest self
  have hpushed : ((w'.push self p).session self).senderBuffer =
      (w.session self).senderBuffer ++ [p] := by
    have hsession : (w'.push self p).session self = _ := Function.update_self ..
    rw [hsession, hw.queues self]
  have hqueue := hinert.queues self
  rw [forEach, run_bind_ok hp, hnew, hpushed, List.append_assoc, List.append_right_eq_self] at hqueue
  cases hqueue

theorem asking_too_long (hlong : ¬ Packet.Fits (txt "sdownload|" ++ file)) (files : List Text) :
    final (forEach (fun file => answer self (txt "sdownload|" ++ file)) (file :: files) w) = w := by
  obtain ⟨what, hwhat⟩ := Packet.setCommand_long (p := Packet.init) hlong w
  have hraised : answer self (txt "sdownload|" ++ file) w = .error (.raised what) w :=
    run_bind_error hwhat _
  rw [forEach, run_bind_error hraised, final_error]

theorem clist_inert_iff (hn : nul ∉ me.directoryPath) (args : Text) :
    ServerInert w (final (clientSentClist h self me buffer args w)) ↔
      ∀ file, ¬ AsksFor h me w buffer file := by
  constructor
  · rintro hinert file ⟨hl, ⟨reason, hp, hend, hfile⟩, hf⟩
    obtain ⟨w₁, hw₁, hrun⟩ := clist_asks self hl hp hend args
    rw [← List.head?_filter] at hfile
    obtain ⟨files, hfiles⟩ := List.head?_eq_some_iff.mp hfile
    rw [hrun, hfiles] at hinert
    exact asking_not_inert hf files hw₁ hinert
  · intro hno
    by_cases hread : ∃ reason, buffer.payload = some reason ∧ nul ∈ reason
    swap
    · obtain ⟨e, hfails⟩ := splitPayload_fails (w := w) hread
      rw [clientSentClist, run_bind_error hfails]
      exact refl_of ServerInert w
    obtain ⟨reason, hp, hend⟩ := hread
    by_cases hl : Listable h w.files me.directoryPath
    swap
    · exact clist_unlisted hn hl hp hend args
    obtain ⟨w₁, hw₁, hrun⟩ := clist_asks self hl hp hend args
    rw [hrun]
    cases hfiles : ((reason.takeWhile (· != nul)).splitOn bar).filter (fun n => !isTemporary n) with
    | nil => exact hw₁
    | cons file files =>
      have hlong : ¬ Packet.Fits (txt "sdownload|" ++ file) := by
        refine fun hf => hno file ⟨hl, ⟨reason, hp, hend, ?_⟩, hf⟩
        rw [← List.head?_filter, hfiles]
        rfl
      rw [asking_too_long hlong]
      exact hw₁

theorem clist_inside_iff (args : Text) :
    (∀ v, clientSentClist h self me buffer args w ≠ .error (.crashed .outOfBounds) v) ↔
      ¬ Endless buffer := by
  constructor
  · rintro hinside ⟨reason, hp, hend⟩
    have hsplit : splitPayload buffer w = .error (.crashed .outOfBounds) w := by
      rw [splitPayload, hp]
      simp only [splitBuffer, if_neg hend, run_crash]
    exact hinside w (run_bind_error hsplit _)
  · intro hended v hr
    cases hp : buffer.payload with
    | none =>
      have hsplit : splitPayload buffer w = .error (.crashed .nullRead) w := by
        rw [splitPayload, hp]
        rfl
      cases (run_bind_error hsplit _).symm.trans hr
    | some reason =>
      have hlisted : Listed buffer := ⟨reason, hp, by_contra fun hend => hended ⟨reason, hp, hend⟩⟩
      exact (clist_stays_iff w).mpr hlisted ⟨v, .inr hr⟩

end Server

/-! ## A client -/

inductive ClientReport where
  | supload (file : Text)
  | upload (file : Text)
  | aupload (file : Text)
  | delete (file : Text)

def ClientReport.fields : ClientReport → List Text
  | .supload file => [txt "supload", file, txt "fail"]
  | .upload file => [txt "upload", file, txt "fail"]
  | .aupload file => [txt "aupload", file, txt "fail"]
  | .delete file => [txt "delete", file, txt "fail"]

structure ClientInert (w w' : Client.ClientState) : Prop where
  files : w'.files.node = w.files.node
  locks : w'.fileMtx = w.fileMtx
  queue : w'.senderBuffer = w.senderBuffer

theorem client_report_inert (h : Host) (buffer : Packet) (report : ClientReport)
    (w : Client.ClientState) :
    ClientInert w (final (Client.perform h buffer (Client.receiverRoute report.fields) w)) := by
  have hsame : final (Client.perform h buffer (Client.receiverRoute report.fields) w) = w := by
    cases report with
    | supload file => exact handler_failed .upload w
    | upload file => exact handler_failed .upload w
    | aupload file => exact handler_failed .aupload w
    | delete file =>
      have hreport := Client.reportReason_kept (R := Eq) buffer w
      exact hreport.symm
  rw [hsame]
  exact ⟨rfl, rfl, rfl⟩

/-- Every report is inert but `clist|fail`, and that one as long as the reason has an end and there is no
file to ask for. The folder of a session is named after its user, and the name has only letters and
digits. -/
theorem failure_reports_inert_iff (h : Host) (bc : Server.Broadcast) (self : Server.SessionId)
    (me : Server.Identity) (buffer : Packet) (report : ServerReport) (w : Server.ServerState)
    (report' : ClientReport) (c : Client.ClientState) (hn : nul ∉ me.directoryPath) :
    (InertlyHandled w (Server.perform h bc self me buffer (Server.receiverRoute report.fields) w) ↔
      (report = .clist → ¬ Endless buffer ∧ ∀ file, ¬ AsksFor h me w buffer file)) ∧
    ClientInert c (final (Client.perform h buffer (Client.receiverRoute report'.fields) c)) := by
  refine ⟨?_, client_report_inert h buffer report' c⟩
  cases report with
  | clist =>
    constructor
    · exact fun ⟨hinside, hinert⟩ _ =>
        ⟨(clist_inside_iff (txt "fail")).mp hinside, (clist_inert_iff hn (txt "fail")).mp hinert⟩
    · intro hc
      obtain ⟨hended, hno⟩ := hc rfl
      exact ⟨(clist_inside_iff (txt "fail")).mpr hended, (clist_inert_iff hn (txt "fail")).mpr hno⟩
  | sdownload file =>
    refine iff_of_true ⟨fun v hr => ?_, refl_of ServerInert w⟩ fun he => nomatch he
    cases hr
  | supload file =>
    refine iff_of_true ⟨fun v hr => ?_, refl_of ServerInert w⟩ fun he => nomatch he
    cases hr

def bareServer : Server.ServerState :=
  .init ⟨3, 0, fun _ => [], fun _ => [], fun _ => true⟩ ⟨[], ∅, []⟩

def bareClient : Client.ClientState :=
  ⟨⟨3, 0, fun _ => [], fun _ => [], fun _ => true⟩, ⟨[], ∅, []⟩, txt "./sync_", txt "./",
    fun _ => none, [], true, true, true⟩

def temporaryReason : Packet :=
  { Packet.init with payloadSize := 15, payload := some (txt "a.swizdownload" ++ [nul]) }

theorem temporary_reason_inert : InertlyHandled bareServer (Server.perform pageHost.1
    (fun _ _ => pure ()) 0 ⟨5, txt "user", txt "machine", txt "./", 0⟩ temporaryReason
    (Server.receiverRoute ServerReport.clist.fields) bareServer) := by
  obtain ⟨hserver, -⟩ := failure_reports_inert_iff pageHost.1 (fun _ _ => pure ()) 0
    ⟨5, txt "user", txt "machine", txt "./", 0⟩ temporaryReason .clist bareServer (.upload (txt "x"))
    bareClient (by decide)
  refine hserver.mpr fun _ => ⟨?_, ?_⟩
  · rintro ⟨reason, hreason, hend⟩
    cases hreason
    exact hend (by decide)
  · rintro file ⟨-, ⟨reason, hreason, -, hfirst⟩, -⟩
    cases hreason
    have hnone : (((txt "a.swizdownload" ++ [nul]).takeWhile (· != nul)).splitOn bar).find?
        (fun n => !Server.isTemporary n) = none := by decide
    cases hnone.symm.trans hfirst

def reasonPacket : Packet := { Packet.init with payloadSize := 2, payload := some [120, 0] }

/-- The client's reason `x` comes back as the request for a file `x`. -/
theorem reason_requested : ¬ ∀ (bc : Server.Broadcast) (report : ServerReport),
    ServerInert bareServer (final (Server.perform pageHost.1 bc 0
      ⟨5, txt "user", txt "machine", txt "./", 0⟩ reasonPacket
      (Server.receiverRoute report.fields) bareServer)) := by
  intro hall
  have hclist := (clist_inert_iff (by decide) (txt "fail")).mp (hall (fun _ _ => pure ()) .clist)
  refine hclist (txt "x") ⟨⟨[], by decide, by decide, rfl, by decide⟩, ⟨_, rfl, ?_, ?_⟩, ?_⟩
  · decide
  · decide
  · decide

end SyncWizard.Properties
