import SyncWizard.Common.FileStream
import SyncWizard.Common.Packet

/-! The loop that all four file senders share: it cuts a file into packets of 8192 bytes. -/

namespace SyncWizard.Common
open Foundation

variable {σ : Type}

def defaultPayload : ℕ := 8192

def expectedPackets (fileSize : ℕ) : BitVec 64 :=
  (BitVec.ofNat 64 fileSize + BitVec.ofNat 64 defaultPayload - 1) / BitVec.ofNat 64 defaultPayload

def chunkPacket (index : BitVec 32) (expected : BitVec 64) : Packet :=
  { Packet.init with
    sequenceNumber := index
    expectedPackets := expected
    payloadSize := BitVec.ofNat 64 defaultPayload }

/-- The packet of a round with what was read; the last one gets an array of just that size, but
keeps its `payload_size`. -/
def Packet.withRead (p : Packet) (payload : Option Text) (bytesRead : ℕ) : Packet :=
  { p with payload := if p.isLast then some ((payload.getD []).take bytesRead) else payload }

/-- The rounds until `eof()`. `copy` is what a sender does with a round's packet right after the
read, `push` appends it to the send queue; the payload pointer never gets any storage. -/
def chunkRounds (command : Text) (copy push : Packet → Exec σ Unit) (expected : BitVec 64) :
    ℕ → BitVec 32 → FileStream → Exec σ Unit
  | 0, _, _ => crash .hang
  | rounds + 1, index, file =>
    if file.eof then pure ()
    else do
      let p ← (chunkPacket index expected).setCommand command
      let (file, payload) ← file.readInto p.payload defaultPayload
      copy { p with payload }
      push (p.withRead payload file.gcount)
      chunkRounds command copy push expected rounds (index + 1) file

/-- The whole loop on a file with the given content, for as many rounds as it would take if every one
but the last read `8192` bytes. -/
def chunkLoop (command : Text) (copy push : Packet → Exec σ Unit) (content : Text) : Exec σ Unit :=
  chunkRounds command copy push (expectedPackets content.length) (content.length / defaultPayload + 2) 0
    (.opened content)

/-! ## What becomes of it -/

def chunk (command : Text) (index : BitVec 32) (expected : BitVec 64) : Packet :=
  (chunkPacket index expected).withCommand (Packet.commandArray command)

def emptyChunk (command : Text) : Packet := chunk command 0 0

structure Blank (p : Packet) : Prop where
  size : p.payloadSize = BitVec.ofNat 64 defaultPayload
  payload : p.payload = none

section Rounds
variable {command : Text} {copy push : Packet → Exec σ Unit} {expected : BitVec 64} {file : FileStream}

theorem chunk_blank (command : Text) (index : BitVec 32) (expected : BitVec 64) :
    Blank (chunk command index expected) := ⟨rfl, rfl⟩

theorem chunk_carries (hf : Packet.Fits command) (index : BitVec 32) (expected : BitVec 64) :
    Packet.Carries command (chunk command index expected) := Packet.withCommand_carries hf rfl

theorem Packet.Carries.withRead {p : Packet} (hp : p.Carries command) :
    Packet.Carries command (p.withRead none 0) := by
  refine ⟨⟨hp.fits, hp.command⟩, ?_⟩
  unfold Packet.withRead Packet.bytes
  split_ifs <;> rfl

theorem chunkRounds_succ (hf : Packet.Fits command) (he : file.eof = false) (rounds : ℕ)
    (index : BitVec 32) (s : σ) :
    chunkRounds command copy push expected (rounds + 1) index file s =
      (do
        copy (chunk command index expected)
        push ((chunk command index expected).withRead none 0)
        chunkRounds command copy push expected rounds (index + 1) file.refused : Exec σ Unit) s := by
  have hread := FileStream.readInto_null (σ := σ) he (show streamBuffer < defaultPayload by decide) s
  have hcount : file.refused.gcount = 0 := by
    unfold FileStream.refused
    split_ifs <;> rfl
  rw [chunkRounds, if_neg (by rw [he]; exact Bool.false_ne_true), run_bind_ok (Packet.setCommand_fits hf s)]
  refine (run_bind_ok hread _).trans ?_
  dsimp only
  rw [hcount]
  rfl

theorem chunkRounds_long (hl : ¬ Packet.Fits command) (he : file.eof = false) (rounds : ℕ)
    (index : BitVec 32) (s : σ) : ∃ what,
    chunkRounds command copy push expected (rounds + 1) index file s = .error (.raised what) s := by
  obtain ⟨what, hw⟩ := Packet.setCommand_long (p := chunkPacket index expected) hl s
  refine ⟨what, ?_⟩
  rw [chunkRounds, if_neg (by rw [he]; exact Bool.false_ne_true), run_bind_error hw]

theorem chunkRounds_stuck (hs : file.Stuck) (rounds : ℕ) (index : BitVec 32) (s : σ) :
    ¬ Returns (chunkRounds command copy push expected rounds index file s) := by
  induction rounds generalizing index file s with
  | zero => exact not_returns_error _ _
  | succ rounds ih =>
    by_cases hf : Packet.Fits command
    · rw [chunkRounds_succ hf hs.eof]
      intro hr
      obtain ⟨_, t, -, hr⟩ := returns_bind_iff.mp hr
      obtain ⟨_, t', -, hr⟩ := returns_bind_iff.mp hr
      exact ih hs.refused _ t' hr
    · obtain ⟨what, hw⟩ : ∃ what, chunkRounds command copy push expected (rounds + 1) index file s =
          .error (.raised what) s := chunkRounds_long hf hs.eof rounds index s
      rw [hw]
      exact not_returns_error _ _

theorem chunkRounds_hangs (hf : Packet.Fits command) (hcopy : ∀ p, Blank p → ∀ s, Returns (copy p s))
    (hpush : ∀ p s, Returns (push p s)) (hs : file.Stuck) (rounds : ℕ) (index : BitVec 32) (s : σ) :
    ∃ s', chunkRounds command copy push expected rounds index file s = .error (.crashed .hang) s' := by
  induction rounds generalizing index file s with
  | zero => exact ⟨s, rfl⟩
  | succ rounds ih =>
    obtain ⟨_, t, hcopied⟩ := hcopy _ (chunk_blank command index expected) s
    obtain ⟨_, t', hpushed⟩ := hpush ((chunk command index expected).withRead none 0) t
    rw [chunkRounds_succ hf hs.eof, run_bind_ok hcopied, run_bind_ok hpushed]
    exact ih hs.refused _ t'

end Rounds

section Loops
variable {command : Text}

theorem chunkLoop_long (hl : ¬ Packet.Fits command) (copy push : Packet → Exec σ Unit) (content : Text)
    (s : σ) : ∃ what, chunkLoop command copy push content s = .error (.raised what) s :=
  chunkRounds_long hl rfl _ _ s

theorem chunkLoop_nonempty (copy push : Packet → Exec σ Unit) {content : Text} (hne : content ≠ [])
    (s : σ) : ¬ Returns (chunkLoop command copy push content s) :=
  chunkRounds_stuck (FileStream.opened_stuck hne) _ _ s

theorem chunkLoop_hangs (hf : Packet.Fits command) {copy push : Packet → Exec σ Unit}
    (hcopy : ∀ p, Blank p → ∀ s, Returns (copy p s)) (hpush : ∀ p s, Returns (push p s)) {content : Text}
    (hne : content ≠ []) (s : σ) :
    ∃ s', chunkLoop command copy push content s = .error (.crashed .hang) s' :=
  chunkRounds_hangs hf hcopy hpush (FileStream.opened_stuck hne) _ _ s

theorem chunkLoop_empty (hf : Packet.Fits command) (copy push : Packet → Exec σ Unit)
    (s : σ) : chunkLoop command copy push [] s =
      (do copy (emptyChunk command); push (emptyChunk command) : Exec σ Unit) s := by
  have hexpected : expectedPackets ([] : Text).length = 0 := by decide
  have hread : (emptyChunk command).withRead none 0 = emptyChunk command := rfl
  have hended (index : BitVec 32) : chunkRounds command copy push 0 1 index (FileStream.opened []).refused =
      pure () := rfl
  rw [chunkLoop, hexpected, chunkRounds_succ hf rfl]
  simp only [List.length_nil, Nat.zero_div, Nat.zero_add, hended, bind_pure_unit]
  rw [show chunk command 0 0 = emptyChunk command from rfl, hread]

theorem chunkLoop_inv {copy push : Packet → Exec σ Unit} {content : Text} {u : Unit}
    {s s' : σ} (hr : chunkLoop command copy push content s = .ok u s') :
    Packet.Fits command ∧ content = [] ∧
      (do copy (emptyChunk command); push (emptyChunk command) : Exec σ Unit) s = .ok u s' := by
  by_cases hf : Packet.Fits command
  · rcases eq_or_ne content [] with rfl | hne
    · rw [chunkLoop_empty hf] at hr
      exact ⟨hf, rfl, hr⟩
    · exact absurd ⟨u, s', hr⟩ (chunkLoop_nonempty copy push hne s)
  · obtain ⟨what, hw⟩ := chunkLoop_long hf copy push content s
    rw [hw] at hr
    cases hr

section Keeping
variable {R : σ → σ → Prop} [Std.Refl R] [IsTrans σ R]

theorem chunkRounds_kept {copy push : Packet → Exec σ Unit}
    (hcopy : ∀ p, Packet.Carries command p → Kept R (copy p))
    (hpush : ∀ p, Packet.Carries command p → Kept R (push p)) (expected : BitVec 64) (rounds : ℕ)
    (index : BitVec 32) (file : FileStream) :
    Kept R (chunkRounds command copy push expected rounds index file) := by
  induction rounds generalizing index file with
  | zero => exact Kept.crash _
  | succ rounds ih =>
    intro s
    cases he : file.eof with
    | true =>
      rw [chunkRounds, if_pos he]
      exact refl_of R s
    | false =>
      by_cases hf : Packet.Fits command
      · rw [chunkRounds_succ hf he]
        have hcarries := chunk_carries hf index expected
        exact Kept.bind (hcopy _ hcarries)
          (fun _ => Kept.bind (hpush _ hcarries.withRead) fun _ => ih (index + 1) file.refused) s
      · obtain ⟨what, hw⟩ : ∃ what, chunkRounds command copy push expected (rounds + 1) index file s =
            .error (.raised what) s := chunkRounds_long hf he rounds index s
        rw [hw]
        exact refl_of R s

theorem chunkLoop_kept {copy push : Packet → Exec σ Unit}
    (hcopy : ∀ p, Packet.Carries command p → Kept R (copy p))
    (hpush : ∀ p, Packet.Carries command p → Kept R (push p))
    (content : Text) : Kept R (chunkLoop command copy push content) :=
  chunkRounds_kept hcopy hpush _ _ _ _

end Keeping

end Loops

end SyncWizard.Common
