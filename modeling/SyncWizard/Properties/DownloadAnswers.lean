import SyncWizard.Properties.ChunkLabels
import SyncWizard.Server.Outcomes
import SyncWizard.Server.Sessions

/-! The answer to an asynchronous download: the file in packets, or one failure report. A report does
not get past its reason, and the one packet of an empty file announces bytes it does not have. -/

namespace SyncWizard.Properties
open Foundation Common Server

def openable (h : Host) (f : FileSystem) (path : Text) : Option Text :=
  if h.mayRead path then f.content path else none

/-- The packets of a file: each has the command and the bytes it announces, and together they have the
content. -/
structure ChunkSequence (command content : Text) (packets : List Packet) : Prop where
  nonempty : packets ≠ []
  commands : ∀ p ∈ packets, Packet.Reads command p
  exact : ∀ p ∈ packets, p.Exact
  content : packets.flatMap Packet.bytes = content

/-- The one answer to a request: the packets of a file that can be opened, else one failure report. -/
def AnswerOf (h : Host) (f : FileSystem) (path args : Text) (packets : List Packet) : Prop :=
  match openable h f path with
  | some content => ChunkSequence (txt "aupload|" ++ args ++ txt "|" ++ h.md5 content) content packets
  | none => ∃ p, packets = [p] ∧ Packet.Reads (txt "aupload|" ++ args ++ txt "|fail") p

def AnswersOnce (h : Host) (self : SessionId) (me : Identity) (args : Text) (w : ServerState) : Prop :=
  ∃ w' packets, clientRequestedAdownload h self me args w = .ok () w' ∧
    (w'.session self).senderBuffer = (w.session self).senderBuffer ++ packets ∧
    AnswerOf h w.files (me.directoryPath ++ args) args packets

section Requests
variable {h : Host} {self : SessionId} {me : Identity} {args command : Text} {w w' : ServerState}

theorem sendLocked_inv {cannotOpen : ServerExec Unit} (hcannot : ∀ w, ¬ Returns (cannotOpen w))
    {u : Unit} (hr : sendLocked h self me command args cannotOpen w = .ok u w') :
    w' = w ∨ openable h w.files (me.directoryPath ++ args) = some [] ∧
      ∃ c, (w'.session self).senderBuffer = (w.session self).senderBuffer ++ [emptyChunk c] := by
  obtain ⟨lock, t₁, hlock, hr⟩ := run_bind_inv hr
  cases hlock
  cases hentry : (w.session self).fileMtx args with
  | none =>
    rw [hentry] at hr
    cases hr
    exact .inl rfl
  | some lock =>
    rw [hentry] at hr
    dsimp only at hr
    rw [sendFile] at hr
    obtain ⟨_, t₂, hlocked, hdigested⟩ := run_bind_inv hr
    obtain rfl : t₂ = w := lockIn_inv hlocked
    obtain ⟨checksum, t₃, hchecksum, hopening⟩ := run_bind_inv hdigested
    obtain ⟨f₃, hdigest, rfl⟩ := run_zoom_inv hchecksum
    obtain ⟨opened, t₄, hopened, hsending⟩ := run_bind_inv hopening
    obtain ⟨f₄, hread, rfl⟩ := run_zoom_inv hopened
    cases opened with
    | none => exact absurd ⟨_, _, hsending⟩ (hcannot _)
    | some content =>
      obtain ⟨-, rfl, hpush⟩ := chunkLoop_inv hsending
      obtain ⟨-, -, -, rfl⟩ := FileSystem.calculateMd5Checksum_inv hdigest
      obtain ⟨hcontent, rfl⟩ := FileSystem.openRead_inv hread
      cases hpush
      refine .inr ⟨hcontent.symm, command ++ args ++ txt "|" ++ checksum, ?_⟩
      dsimp only [ServerState.push, ServerState.setSession]
      rw [Function.update_self]

theorem emptyChunk_not_exact (command : Text) : ¬ (emptyChunk command).Exact := by
  intro hexact
  have hbytes : (emptyChunk command).bytes.length = 0 := rfl
  rw [Packet.Exact, hbytes, emptyChunk_size] at hexact
  exact absurd hexact (by decide)

theorem adownload_inv {u : Unit} (hr : clientRequestedAdownload h self me args w = .ok u w') :
    (w'.session self).senderBuffer = (w.session self).senderBuffer ∨
      openable h w.files (me.directoryPath ++ args) = some [] ∧
        ∃ c, (w'.session self).senderBuffer = (w.session self).senderBuffer ++ [emptyChunk c] := by
  have hreport {reason : Text} (hne : reason ≠ []) (w : ServerState) :
      ¬ Returns (answerWith self (txt "aupload|" ++ args ++ txt "|fail") reason w) := by
    obtain ⟨what, hraises⟩ : ∃ what, answerWith self (txt "aupload|" ++ args ++ txt "|fail") reason w =
        .error (.raised what) w := Packet.mountWith_raises hne
    rw [hraises]
    exact not_returns_error _ _
  obtain ⟨found, t, hfound, hr⟩ := run_bind_inv hr
  obtain ⟨f, hvalid, rfl⟩ := run_zoom_inv hfound
  obtain rfl : f = w.files.record .test (me.directoryPath ++ args) := by
    unfold isValidPath at hvalid
    split at hvalid <;> cases hvalid
    rfl
  cases found with
  | false =>
    obtain ⟨_, _, hreported, -⟩ := run_bind_inv hr
    exact absurd ⟨_, _, hreported⟩ (hreport (by decide) _)
  | true =>
    obtain ⟨_, _, hnothing, hlocked⟩ := run_bind_inv hr
    cases hnothing
    rcases sendLocked_inv (hreport (by decide)) hlocked with rfl | hempty
    exacts [.inl rfl, .inr hempty]

theorem not_answersOnce : ¬ AnswersOnce h self me args w := by
  rintro ⟨w', packets, hr, hqueue, hanswer⟩
  rcases adownload_inv hr with hsame | ⟨hempty, command, hone⟩
  · rw [hsame, List.self_eq_append_right] at hqueue
    subst hqueue
    unfold AnswerOf at hanswer
    split at hanswer
    · exact hanswer.nonempty rfl
    · obtain ⟨p, hp, -⟩ := hanswer
      cases hp
  · rw [hone, List.append_cancel_left_eq] at hqueue
    subst hqueue
    unfold AnswerOf at hanswer
    rw [hempty] at hanswer
    exact absurd (hanswer.exact _ List.mem_cons_self) (emptyChunk_not_exact command)

end Requests

/-- Neither the one packet of an empty file nor nothing at all is the answer to a request. -/
theorem requests_never_answered (h : Host) (self : SessionId) (me : Identity) (args : Text)
    (w : ServerState) : ¬ AnswersOnce h self me args w := not_answersOnce

def newSessionOfAna : ServerState :=
  (ServerState.init ⟨3, 0, fun _ => [], fun _ => [], fun _ => true⟩ ⟨[], ∅, []⟩).allocate
    (registeredAs 4 (txt "ana") (txt "laptop") 0)

theorem missing_unanswered :
    ¬ AnswersOnce pageHost.1 0 (newSessionOfAna.session 0).identity (txt "/notes") newSessionOfAna :=
  not_answersOnce

end SyncWizard.Properties
