import SyncWizard.Client.Network
import SyncWizard.Common.Storage

/-! How the handlers of a client end, and what they can have queued when they return. -/

namespace SyncWizard.Client
open Foundation Common

section Answers
variable {command payload name args : Text} {w w' : ClientState} {h : Host}

theorem answerWith_raises (hne : payload ≠ []) (w : ClientState) :
    ¬ Returns (answerWith command payload w) := by
  have hraises : ∃ what, answerWith command payload w = .error (.raised what) w :=
    Packet.mountWith_raises hne
  obtain ⟨what, hw⟩ := hraises
  rw [hw]
  exact not_returns_error _ _

theorem lockFile_live (hl : w.fileMtx name = some .live) : lockFile name w = .ok () w := lockIn_live hl

theorem fileMutex_run (name : Text) (w : ClientState) : fileMutex name w = .ok (w.fileMtx name) w := rfl

end Answers

/-! ## Requested uploads -/

section Uploads
variable {h : Host} {args : Text} {w w' : ClientState}

/-- The temporary of an upload never gets a byte: they would come from a null pointer. -/
theorem copyTo_blank {p : Packet} (hp : Blank p) (temporary : Option Path) (w : ClientState) :
    copyTo temporary p w = .ok () w := by
  cases temporary with
  | none => rfl
  | some t =>
    have hsize : p.payloadSize.toNat = 8192 := by
      rw [hp.size]
      rfl
    have hwrite : streamWrite t p.payload p.payloadSize.toNat w.files = .ok () w.files := by
      rw [hp.payload, hsize]
      rfl
    rw [copyTo]
    exact run_zoom_ok hwrite

structure Sendable (h : Host) (w : ClientState) (args content : Text) : Prop where
  lock : w.fileMtx args = some .live
  content : w.files.content (w.syncDirPath ++ args) = some content
  tested : h.statError (w.syncDirPath ++ args) = none
  digested : h.mayDigest (w.syncDirPath ++ args) = true
  read : h.mayRead (w.syncDirPath ++ args) = true

/-- A file with anything in it is read for ever, to a payload pointer that points nowhere. -/
theorem serverDownloadCommand_nonempty {content : Text}
    (hs : Sendable h w args content) (hne : content ≠ [])
    (hf : Packet.Fits (txt "sdownload|" ++ args ++ txt "|" ++ h.md5 content)) :
    ∃ w', serverDownloadCommand h args w = .error (.crashed .hang) w' := by
  let path := w.syncDirPath ++ args
  let w₁ : ClientState := { w with files := w.files.record .test path }
  let w₂ : ClientState := { w₁ with files := w₁.files.record .read path }
  let w₃ : ClientState := { w₂ with files := w₂.files.record .read path }
  have hvalid : onFiles (isValidPath h path) w = .ok true w₁ :=
    run_zoom_ok (FileSystem.isValidPath_file hs.tested hs.content)
  have hchecksum : onFiles (calculateMd5Checksum h path) w₁ = .ok (h.md5 content) w₂ :=
    run_zoom_ok (FileSystem.calculateMd5Checksum_run hs.content hs.digested)
  have hopened : onFiles (openRead h path) w₂ = .ok (some content) w₃ :=
    run_zoom_ok (FileSystem.openRead_run hs.content hs.read)
  have hcopy (p : Packet) (_ : Blank p) (v : ClientState) :
      Returns ((pure () : ClientExec Unit) v) := ⟨(), v, rfl⟩
  have hpush (p : Packet) (v : ClientState) : Returns (pushPacket p v) := ⟨(), v.push p, rfl⟩
  obtain ⟨w', hhangs⟩ := chunkLoop_hangs hf hcopy hpush hne w₃
  refine ⟨w', ?_⟩
  rw [serverDownloadCommand, run_bind_ok (run_get w), run_bind_ok hvalid, if_pos rfl,
    run_bind_ok (fileMutex_run args w₁), show w₁.fileMtx args = some .live from hs.lock]
  dsimp only
  rw [run_bind_ok (lockFile_live (w := w₁) hs.lock), run_bind_ok hchecksum, run_bind_ok hopened]
  exact hhangs

theorem serverDownloadCommand_inv {u : Unit} (hr : serverDownloadCommand h args w = .ok u w') :
    ∃ command, w'.senderBuffer = w.senderBuffer ++ [emptyChunk command] := by
  obtain ⟨w₀, t₀, hget, hr⟩ := run_bind_inv hr
  cases hget
  obtain ⟨found, t₁, hfound, hr⟩ := run_bind_inv hr
  obtain ⟨f₁, -, rfl⟩ := run_zoom_inv hfound
  split_ifs at hr
  · obtain ⟨lock, t₂, hlock, hr⟩ := run_bind_inv hr
    cases hlock
    cases hentry : w.fileMtx args with
    | none =>
      rw [hentry] at hr
      cases hr
    | some lock =>
      rw [hentry] at hr
      obtain ⟨_, t₃, hlocked, hr⟩ := run_bind_inv hr
      obtain rfl := lockIn_inv hlocked
      obtain ⟨checksum, t₄, hchecksum, hr⟩ := run_bind_inv hr
      obtain ⟨f₄, -, rfl⟩ := run_zoom_inv hchecksum
      obtain ⟨opened, t₅, hopened, hr⟩ := run_bind_inv hr
      obtain ⟨f₅, -, rfl⟩ := run_zoom_inv hopened
      cases opened with
      | none => exact absurd ⟨_, _, hr⟩ (answerWith_raises (by decide) _)
      | some content =>
        obtain ⟨-, -, hpush⟩ := chunkLoop_inv hr
        cases hpush
        exact ⟨_, rfl⟩
  · exact absurd ⟨_, _, hr⟩ (answerWith_raises (by decide) _)

end Uploads

end SyncWizard.Client
