import SyncWizard.Client.Effects
import SyncWizard.Common.Command
import SyncWizard.Server.Runs

/-! The commands that the two ends send each other after a login, and whether the other end has a
handler for them under the same name and number of fields. -/

namespace SyncWizard.Properties
open Foundation Common

inductive ClientMessage where
  | pong
  | exit
  | adownload (file : Text)
  | delete (file : Text)
  | upload (file checksum : Text)
  | listServer
  | sdownload (file checksum : Text)
  | sdownloadFailed (file : Text)
  | suploadFailed (file : Text)
  | deleteFailed (file : Text)
  | auploadFailed (file : Text)

inductive ServerMessage where
  | ping
  | pong
  | exit
  | slist
  | flist
  | aupload (file checksum : Text)
  | sdownloadRequest (file : Text)
  | sdownload (file checksum : Text)
  | deleteFailed (file : Text)
  | auploadFailed (file : Text)
  | sdownloadFailed (file : Text)

def failed : Text := txt "fail"

def ClientMessage.command : ClientMessage → Command
  | .pong => ⟨txt "pong", []⟩
  | .exit => ⟨txt "exit", []⟩
  | .adownload file => ⟨txt "adownload", [file]⟩
  | .delete file => ⟨txt "delete", [file]⟩
  | .upload file checksum => ⟨txt "upload", [file, checksum]⟩
  | .listServer => ⟨txt "flist", [txt "server"]⟩
  | .sdownload file checksum => ⟨txt "sdownload", [file, checksum]⟩
  | .sdownloadFailed file => ⟨txt "sdownload", [file, failed]⟩
  | .suploadFailed file => ⟨txt "supload", [file, failed]⟩
  | .deleteFailed file => ⟨txt "delete", [file, failed]⟩
  | .auploadFailed file => ⟨txt "aupload", [file, failed]⟩

def ServerMessage.command : ServerMessage → Command
  | .ping => ⟨txt "ping", []⟩
  | .pong => ⟨txt "pong", []⟩
  | .exit => ⟨txt "exit", []⟩
  | .slist => ⟨txt "slist", []⟩
  | .flist => ⟨txt "flist", []⟩
  | .aupload file checksum => ⟨txt "aupload", [file, checksum]⟩
  | .sdownloadRequest file => ⟨txt "sdownload", [file]⟩
  | .sdownload file checksum => ⟨txt "sdownload", [file, checksum]⟩
  | .deleteFailed file => ⟨txt "delete", [file, failed]⟩
  | .auploadFailed file => ⟨txt "aupload", [file, failed]⟩
  | .sdownloadFailed file => ⟨txt "sdownload", [file, failed]⟩

inductive Message where
  | toServer (m : ClientMessage)
  | toClient (m : ServerMessage)

namespace Message

def command : Message → Command
  | .toServer m => m.command
  | .toClient m => m.command

/-- The command that the receiver takes a packet for; none if it takes it for malformed. -/
def takenFor (m : Message) (fields : List Text) : Option Text :=
  match m with
  | .toServer _ => (Server.receiverRoute fields).command
  | .toClient _ => (Client.receiverRoute fields).command

def Understood (m : Message) (p : Packet) : Prop :=
  p.Terminated ∧ m.takenFor p.fields = some m.command.name

def Shared : Message → Prop
  | .toServer (.upload _ _) | .toServer .listServer | .toServer (.deleteFailed _)
  | .toServer (.auploadFailed _) => False
  | .toClient .exit | .toClient .slist | .toClient .flist | .toClient (.sdownload _ _)
  | .toClient (.sdownloadFailed _) => False
  | _ => True

def Plain (m : Message) : Prop := ∀ a ∈ m.command.args, IsField a

theorem Plain.fields {m : Message} (hm : m.Plain) : ∀ f ∈ m.command.fields, IsField f := by
  have hname : IsField m.command.name := by
    rcases m with m | m <;> cases m <;> exact of_decide_eq_true rfl
  exact List.forall_mem_cons.mpr ⟨hname, hm⟩

theorem takenFor_iff (m : Message) : m.takenFor m.command.fields = some m.command.name ↔ m.Shared := by
  rcases m with m | m
  · cases m with
    | upload | listServer | deleteFailed | auploadFailed => exact iff_of_false (fun h => nomatch h) id
    | _ => exact iff_of_true rfl trivial
  · cases m with
    | exit | slist | flist | sdownload | sdownloadFailed => exact iff_of_false (fun h => nomatch h) id
    | _ => exact iff_of_true rfl trivial

end Message

theorem understood_iff (m : Message) (hm : m.Plain) {p : Packet} (hp : p.Reads m.command.text) :
    m.Understood p ↔ m.Shared := by
  obtain ⟨hterminated, hfields⟩ := Command.fields_read hm.fields hp
  rw [Message.Understood, hfields, ← m.takenFor_iff]
  exact and_iff_right hterminated

/-! ## Who sends these messages -/

def FromClient (p : Packet) : Prop := ∃ m : ClientMessage, p.Reads m.command.text

def FromServer (p : Packet) : Prop := ∃ m : ServerMessage, p.Reads m.command.text

theorem fromServer_of_sends {c : Text} {p : Packet} (hs : Server.Sends c)
    (hc : p.Carries c) : FromServer p := by
  have hread := hc.toReads
  obtain rfl | rfl | ⟨route, hq⟩ := hs
  · exact ⟨.ping, hread⟩
  · exact ⟨.exit, hread⟩
  · cases route with
    | ping =>
      obtain rfl : c = txt "pong" := hq
      exact ⟨.pong, hread⟩
    | slist =>
      obtain rfl : c = txt "slist" := hq
      exact ⟨.slist, hread⟩
    | flist =>
      obtain rfl : c = txt "flist" := hq
      exact ⟨.flist, hread⟩
    | clist args =>
      obtain ⟨file, rfl⟩ | ⟨file, checksum, rfl⟩ := hq
      · exact ⟨.sdownloadRequest file, Command.reads_one hread⟩
      · exact ⟨.sdownload file checksum, Command.reads_two hread⟩
    | adownload args =>
      obtain ⟨checksum, rfl⟩ := hq
      exact ⟨.aupload args checksum, Command.reads_two hread⟩
    | _ => exact hq.elim

theorem fromClient_of_queues {route : Client.Route} {c : Text} {p : Packet} (hq : Client.Queues route c)
    (hc : p.Carries c) : FromClient p := by
  have hread := hc.toReads
  cases route with
  | ping =>
    obtain rfl : c = txt "pong" := hq
    exact ⟨.pong, hread⟩
  | delete args arg2 =>
    obtain rfl : c = txt "delete|" ++ args ++ txt "|fail" := hq
    rw [show txt "|fail" = txt "|" ++ failed from rfl, ← List.append_assoc] at hread
    exact ⟨.deleteFailed args, Command.reads_two hread⟩
  | sdownload args =>
    obtain ⟨checksum, rfl⟩ := hq
    exact ⟨.sdownload args checksum, Command.reads_two hread⟩
  | _ => exact hq.elim

theorem fromClient_of_userQueues {words : List Text} {c : Text} {p : Packet}
    (hq : Client.UserQueues words c)
    (hc : p.Carries c) : FromClient p := by
  have hread := hc.toReads
  match words, hq with
  | [command, args], hq =>
    obtain ⟨-, rfl⟩ | ⟨-, checksum, rfl⟩ | ⟨-, rfl⟩ | ⟨-, rfl⟩ := hq
    · exact ⟨.adownload _, Command.reads_one hread⟩
    · exact ⟨.upload _ checksum, Command.reads_two hread⟩
    · exact ⟨.delete _, Command.reads_one hread⟩
    · exact ⟨.listServer, hread⟩

theorem server_queues_messages {e : Server.Event} (hsend : ∀ s, e.activity ≠ .sends s) :
    Kept (Server.OnlyQueues FromServer) (Server.step e) :=
  Server.step_onlyQueues (fun _ _ => fromServer_of_sends) hsend

theorem client_queues_messages (h : Host) (buffer : Packet) (route : Client.Route) :
    Kept (Client.OnlyQueues FromClient) (Client.perform h buffer route) :=
  Client.onlyQueues_admits.perform_kept fun _ _ => fromClient_of_queues

theorem user_queues_messages (h : Host) (fuel : ℕ) {words : List Text} (hexit : words ≠ [txt "exit"]) :
    Kept (Client.OnlyQueues FromClient) (Client.processUserInterfaceCommands h fuel words) :=
  Client.onlyQueues_admits.userCommand_kept hexit fun _ _ => fromClient_of_userQueues

/-- All that the two ends queue for each other are these messages, and one of them goes to the
handler of its command exactly when both ends know that command with as many fields. -/
theorem commandLanguage_iff (h : Host) (m : Message) (hm : m.Plain) {p : Packet}
    (hp : p.Reads m.command.text) :
    (∀ e : Server.Event, (∀ s, e.activity ≠ .sends s) →
      Kept (Server.OnlyQueues FromServer) (Server.step e)) ∧
    (∀ buffer route, Kept (Client.OnlyQueues FromClient) (Client.perform h buffer route)) ∧
    (∀ fuel words, words ≠ [txt "exit"] →
      Kept (Client.OnlyQueues FromClient) (Client.processUserInterfaceCommands h fuel words)) ∧
    (m.Understood p ↔ m.Shared) :=
  ⟨fun _ => server_queues_messages, client_queues_messages h, fun fuel _ => user_queues_messages h fuel,
    understood_iff m hm hp⟩

theorem delete_understood : (Message.toServer (.delete (txt "/a"))).Understood
    (Packet.init.withCommand (Packet.commandArray (txt "delete|/a"))) :=
  (commandLanguage_iff pageHost.1 (.toServer (.delete (txt "/a")))
    (List.forall_mem_singleton.mpr (by decide))
    (Packet.withCommand_carries (by decide) rfl).toReads).2.2.2.mpr trivial

theorem listServer_malformed :
    ¬ ∀ (w w' : Client.ClientState) (p : Packet), Client.requestListServer w = .ok () w' →
      w'.senderBuffer = w.senderBuffer ++ [p] → (Message.toServer .listServer).Understood p := by
  intro hall
  let w : Client.ClientState :=
    ⟨⟨3, 0, fun _ => [], fun _ => [], fun _ => true⟩, ⟨[], ∅, []⟩, txt ".",
      txt "./downloads", fun _ => none, [], true, true, true⟩
  let p := Packet.init.withCommand (Packet.commandArray (txt "flist|server"))
  have hread : p.Reads (txt "flist|server") := (Packet.withCommand_carries (by decide) rfl).toReads
  have hrun : Client.requestListServer w = .ok () (w.push p) := Packet.mount_run hread.fits
  obtain ⟨-, htaken⟩ := hall w (w.push p) p hrun rfl
  rw [(hread.fields (by decide)).2] at htaken
  exact absurd htaken (by decide)

end SyncWizard.Properties
