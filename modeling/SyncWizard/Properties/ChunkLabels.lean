import SyncWizard.Client.Outcomes
import SyncWizard.Server.Commands

/-! How the loop that cuts a file into packets labels them. It gets through an empty file only, and the
one packet of that announces bytes it does not have; with anything in the file it never ends. -/

namespace SyncWizard.Properties
open Foundation Common

structure ChunkSender where
  State : Type
  queue : State → List Packet
  copy : Packet → Exec State Unit
  push : Packet → Exec State Unit
  copied : ∀ p, Blank p → ∀ s, ∃ s', copy p s = .ok () s' ∧ queue s' = queue s
  pushed : ∀ p s, ∃ s', push p s = .ok () s' ∧ queue s' = queue s ++ [p]

theorem server_pushed (self : Server.SessionId) (p : Packet) (w : Server.ServerState) :
    ∃ w', Server.pushPacket self p w = .ok () w' ∧
      (w'.session self).senderBuffer = (w.session self).senderBuffer ++ [p] := by
  refine ⟨w.push self p, rfl, ?_⟩
  have hsession : (w.push self p).session self = _ := Function.update_self ..
  rw [hsession]

/-- The four handlers with the loop. The temporary of an upload may not have been opened. -/
inductive FileSender where
  | adownload (self : Server.SessionId)
  | clist (self : Server.SessionId)
  | sdownload
  | upload (temporary : Option Path)

def ofSession (self : Server.SessionId) : ChunkSender where
  State := Server.ServerState
  queue w := (w.session self).senderBuffer
  copy _ := pure ()
  push := Server.pushPacket self
  copied _ _ w := ⟨w, rfl, rfl⟩
  pushed := server_pushed self

def ofClient (copy : Packet → Client.ClientExec Unit)
    (hc : ∀ p, Blank p → ∀ w, copy p w = .ok () w) : ChunkSender where
  State := Client.ClientState
  queue w := w.senderBuffer
  copy := copy
  push := Client.pushPacket
  copied p hp w := ⟨w, hc p hp w, rfl⟩
  pushed p w := ⟨w.push p, rfl, rfl⟩

def FileSender.process : FileSender → ChunkSender
  | .adownload self => ofSession self
  | .clist self => ofSession self
  | .sdownload => ofClient (fun _ => pure ()) fun _ _ _ => rfl
  | .upload temporary => ofClient (Client.copyTo temporary) fun _ hp w => Client.copyTo_blank hp temporary w

/-- The packets that the loop adds to the queue, in as many rounds as it is watched for. -/
def enqueued (k : ChunkSender) (command content : Text) (s : k.State) : List Packet :=
  (k.queue (final (chunkLoop command k.copy k.push content s))).drop (k.queue s).length

/-- The packets are those of the content, each with its number and its size, and the receivers take
none but the last one for the last one. -/
structure Labelled (content : Text) (packets : List Packet) : Prop where
  count : packets.length = max 1 ((content.length + 8191) / 8192)
  numbered : ∀ (i : ℕ) (p : Packet), packets[i]? = some p → p.sequenceNumber.toInt = i
  sized : ∀ (i : ℕ) (p : Packet), packets[i]? = some p →
    p.payloadSize.toNat = min 8192 (content.length - 8192 * i)
  total : (packets.map fun p : Packet => p.payloadSize.toNat).sum = content.length
  last : ∀ (i : ℕ) (p : Packet), packets[i]? = some p → (p.isLast = true ↔ i + 1 = packets.length)

section Loops
variable {k : ChunkSender} {command content : Text} {s : k.State}

theorem chunkRounds_queue (k : ChunkSender) (hf : Packet.Fits command) {file : FileStream}
    (hs : file.Stuck) (expected : BitVec 64) (rounds : ℕ) (index : BitVec 32) (s : k.State) :
    ∃ packets, packets.length = rounds ∧
      k.queue (final (chunkRounds command k.copy k.push expected rounds index file s)) =
        k.queue s ++ packets := by
  induction rounds generalizing index file s with
  | zero => exact ⟨[], rfl, (List.append_nil _).symm⟩
  | succ rounds ih =>
    obtain ⟨s₁, hcopied, hqueue₁⟩ := k.copied _ (chunk_blank command index expected) s
    obtain ⟨s₂, hpushed, hqueue₂⟩ := k.pushed ((chunk command index expected).withRead none 0) s₁
    obtain ⟨packets, hlength, hqueue⟩ := ih hs.refused (index + 1) s₂
    rw [chunkRounds_succ hf hs.eof, run_bind_ok hcopied, run_bind_ok hpushed, hqueue, hqueue₂, hqueue₁,
      List.append_assoc]
    refine ⟨[_] ++ packets, ?_, rfl⟩
    rw [List.length_append, hlength, List.length_singleton, Nat.add_comm]

theorem enqueued_cases (k : ChunkSender) (command content : Text) (s : k.State) :
    enqueued k command content s = [] ∨
      content = [] ∧ enqueued k command content s = [emptyChunk command] ∨
      (enqueued k command content s).length = content.length / 8192 + 2 := by
  unfold enqueued
  by_cases hf : Packet.Fits command
  swap
  · obtain ⟨what, hlong⟩ := chunkLoop_long hf k.copy k.push content s
    rw [hlong, final_error, List.drop_length]
    exact .inl rfl
  rcases eq_or_ne content [] with rfl | hne
  · obtain ⟨s₁, hcopied, hqueue₁⟩ := k.copied _ (chunk_blank command 0 0) s
    obtain ⟨s₂, hpushed, hqueue₂⟩ := k.pushed (emptyChunk command) s₁
    have hcopied' : k.copy (emptyChunk command) s = .ok () s₁ := hcopied
    rw [chunkLoop_empty hf, run_bind_ok hcopied', hpushed, final_ok, hqueue₂, hqueue₁, List.drop_left]
    exact .inr (.inl ⟨rfl, rfl⟩)
  · obtain ⟨packets, hlength, hqueue⟩ := chunkRounds_queue k hf (FileStream.opened_stuck hne)
      (expectedPackets content.length) (content.length / defaultPayload + 2) 0 s
    rw [chunkLoop, hqueue, List.drop_left]
    exact .inr (.inr hlength)

theorem emptyChunk_size (command : Text) : (emptyChunk command).payloadSize.toNat = 8192 := rfl

theorem not_labelled_count {packets : List Packet}
    (hp : packets = [] ∨ packets.length = content.length / 8192 + 2) : ¬ Labelled content packets := by
  intro hl
  have hcount := hl.count
  rcases hp with rfl | hlength
  · rw [List.length_nil] at hcount
    omega
  · omega

theorem not_labelled_empty : ¬ Labelled [] [emptyChunk command] := by
  intro hl
  have hsize := hl.sized 0 _ rfl
  rw [emptyChunk_size] at hsize
  exact absurd hsize (by decide)

theorem enqueued_not_labelled (k : ChunkSender) (command content : Text) (s : k.State) :
    ¬ Labelled content (enqueued k command content s) := by
  rcases enqueued_cases k command content s with hnone | ⟨rfl, hone⟩ | hmany
  · exact not_labelled_count (.inl hnone)
  · rw [hone]
    exact not_labelled_empty
  · exact not_labelled_count (.inr hmany)

end Loops

/-- Whatever the file, the loop of none of the four handlers labels its packets as it should. -/
theorem chunks_never_labelled (k : FileSender) (command content : Text) (s : k.process.State) :
    ¬ Labelled content (enqueued k.process command content s) :=
  enqueued_not_labelled k.process command content s

theorem oneByte_not_labelled :
    ¬ Labelled [7] (enqueued (FileSender.adownload 0).process (txt "aupload|a|sum") [7]
      (Server.ServerState.init ⟨3, 0, fun _ => [], fun _ => [], fun _ => true⟩ ⟨[], ∅, []⟩)) :=
  enqueued_not_labelled _ _ _ _

end SyncWizard.Properties
