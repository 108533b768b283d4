import SyncWizard.Common.Text
import SyncWizard.Foundation.Framing

/-! The packet structure of `packet.hpp` and its memory layout: everything but the payload
pointer is the header, which is copied to the wire byte by byte. -/

namespace SyncWizard.Common
open Foundation

/-- `padding` stands for the four bytes that align `payload_size`: a received packet has there what
came in, a new one whatever there was before, for which the model has zeros. -/
structure Header where
  command : Chars 1024
  sequenceNumber : BitVec 32
  padding : Chars 4
  payloadSize : BitVec 64
  expectedPackets : BitVec 64
  deriving DecidableEq

/-! ## Memory layout -/

/-- `sizeof(packet) - sizeof(char*)`: the array, the `int`, its padding, two `size_t`. -/
def headerSize : ℕ := 1048

def headerBytes (h : Header) : Text :=
  h.command.1 ++ (bytesOf 4 h.sequenceNumber.toNat ++ (h.padding.1 ++
    (bytesOf 8 h.payloadSize.toNat ++ bytesOf 8 h.expectedPackets.toNat)))

def readHeader (bs : Text) : Header where
  command := (Chars.zero 1024).overwrite (bs.take 1024)
  sequenceNumber := BitVec.ofNat 32 (valueOf ((bs.drop 1024).take 4))
  padding := (Chars.zero 4).overwrite ((bs.drop 1028).take 4)
  payloadSize := BitVec.ofNat 64 (valueOf ((bs.drop 1032).take 8))
  expectedPackets := BitVec.ofNat 64 (valueOf ((bs.drop 1040).take 8))

theorem headerBytes_length (h : Header) : (headerBytes h).length = headerSize := by
  simp only [headerBytes, List.length_append, h.command.2, h.padding.2, bytesOf_length, headerSize]

theorem ofNat_valueOf_bytesOf {w k : ℕ} (hw : 2 ^ w = 256 ^ k) (v : BitVec w) :
    BitVec.ofNat w (valueOf (bytesOf k v.toNat)) = v := by
  rw [valueOf_bytesOf (hw ▸ v.isLt), BitVec.ofNat_toNat, BitVec.setWidth_eq]

theorem readHeader_headerBytes (h : Header) : readHeader (headerBytes h) = h := by
  obtain ⟨⟨c, hc⟩, seq, ⟨pad, hp⟩, size, expected⟩ := h
  have h4 (n : ℕ) : (bytesOf 4 n).length = 4 := bytesOf_length 4 n
  have h8 (n : ℕ) : (bytesOf 8 n).length = 8 := bytesOf_length 8 n
  have d1 (x : Text) : (c ++ x).drop 1024 = x := List.drop_left' hc
  have d2 (k : ℕ) (x : Text) : (c ++ x).drop (1024 + k) = x.drop k := by
    rw [← List.drop_drop, d1]
  have e1 (n : ℕ) (x : Text) : (bytesOf 4 n ++ x).drop 4 = x := List.drop_left' (h4 n)
  have e2 (n : ℕ) (x : Text) : (bytesOf 4 n ++ (pad ++ x)).drop 8 = x := by
    rw [show 8 = 4 + 4 from rfl, ← List.drop_drop, e1, List.drop_left' hp]
  have e3 (n m : ℕ) (x : Text) : (bytesOf 4 n ++ (pad ++ (bytesOf 8 m ++ x))).drop 16 = x := by
    rw [show 16 = 8 + 8 from rfl, ← List.drop_drop, e2, List.drop_left' (h8 m)]
  simp only [readHeader, headerBytes, d1, d2 4, d2 8, d2 16, e1, e2, e3, List.take_left' hc,
    List.take_left' (h4 _), List.take_left' hp, List.take_left' (h8 _), List.take_of_length_le (h8 _).le,
    ofNat_valueOf_bytesOf (by decide : 2 ^ 32 = 256 ^ 4),
    ofNat_valueOf_bytesOf (by decide : 2 ^ 64 = 256 ^ 8)]
  have hcommand : (Chars.zero 1024).overwrite c = ⟨c, hc⟩ := Subtype.ext (Chars.overwrite_full _ hc)
  have hpadding : (Chars.zero 4).overwrite pad = ⟨pad, hp⟩ := Subtype.ext (Chars.overwrite_full _ hp)
  exact congrArg₂ (Header.mk · seq · size expected) hcommand hpadding

/-- A null payload pointer is `none`. -/
structure Packet extends Header where
  payload : Option Text
  deriving DecidableEq

namespace Packet

def init : Packet := ⟨⟨Chars.zero 1024, 0, Chars.zero 4, 0, 0⟩, none⟩

def bytes (p : Packet) : Text := p.payload.getD []

def Exact (p : Packet) : Prop := p.bytes.length = p.payloadSize.toNat

def content (p : Packet) : Header × Text := (p.toHeader, p.bytes)

variable {σ : Type}

def withCommand (p : Packet) (bs : Text) : Packet := { p with command := p.command.overwrite bs }

def setCommand (p : Packet) (s : Text) : Exec σ Packet :=
  match strcharray s 1024 with
  | .error what => raise what
  | .ok bs => pure (p.withCommand bs)

def setReason (p : Packet) (s : Text) : Exec σ Packet :=
  match strcharray s s.length with
  | .error what => raise what
  | .ok [] => pure { p with payloadSize := BitVec.ofNat 64 s.length }
  | .ok (b :: bs) =>
    match p.payload with
    | none => crash .nullWrite
    | some old =>
      if old.length < bs.length + 1 then crash .outOfBounds
      else
        let stored := b :: bs ++ old.drop (bs.length + 1)
        pure { p with payload := some stored, payloadSize := BitVec.ofNat 64 s.length }

/-- `sequence_number == expected_packets - 1`, the `int` widened to `size_t`. -/
def isLast (p : Packet) : Bool := p.sequenceNumber.signExtend 64 == p.expectedPackets - 1

section Keeping
variable {R : σ → σ → Prop} [Std.Refl R] [IsTrans σ R]

theorem setCommand_kept (p : Packet) (s : Text) : Kept R (p.setCommand s) := by
  unfold setCommand
  split
  exacts [Kept.raise _, Kept.pure _]

theorem setReason_kept (p : Packet) (s : Text) : Kept R (p.setReason s) := by
  unfold setReason
  split
  · exact Kept.raise _
  · exact Kept.pure _
  · split
    · exact Kept.crash _
    · split_ifs
      exacts [Kept.crash _, Kept.pure _]

end Keeping

def Fits (s : Text) : Prop := s.length < 1024

instance (s : Text) : Decidable (Fits s) := inferInstanceAs (Decidable (s.length < 1024))

def commandArray (s : Text) : Text := strncpy s s.length ++ List.replicate (1024 - s.length) nul

theorem setCommand_fits {p : Packet} {s : Text} (h : Fits s) (t : σ) :
    p.setCommand s t = .ok (p.withCommand (commandArray s)) t := by
  simp only [setCommand, strcharray_ok (by decide) (by decide) h, run_pure, commandArray]

theorem setCommand_long {p : Packet} {s : Text} (h : ¬ Fits s) (t : σ) :
    ∃ what, p.setCommand s t = .error (.raised what) t := by
  obtain ⟨what, hw⟩ := strcharray_long (s := s) (by decide) (by decide) (Nat.le_of_not_lt h)
  exact ⟨what, by simp only [setCommand, hw, run_raise]⟩

theorem commandArray_length {s : Text} (h : Fits s) : (commandArray s).length = 1024 := by
  have : s.length < 1024 := h
  simp only [commandArray, List.length_append, strncpy_length, List.length_replicate]
  omega

structure Reads (command : Text) (p : Packet) : Prop where
  fits : Fits command
  command : p.command.1 = commandArray command

structure Carries (command : Text) (p : Packet) : Prop extends Reads command p where
  bytes : p.bytes = []

theorem withCommand_carries {p : Packet} {s : Text} (h : Fits s) (hp : p.bytes = []) :
    Carries s (p.withCommand (commandArray s)) where
  fits := h
  command := Chars.overwrite_full _ (commandArray_length h)
  bytes := hp

def ofCommand (command : Text) : Packet := init.withCommand (commandArray command)

theorem ofCommand_carries {command : Text} (h : Fits command) : Carries command (ofCommand command) :=
  withCommand_carries h rfl

theorem setCommand_yields {p q : Packet} {s : Text} (hp : p.bytes = [])
    (h : Yields (p.setCommand (σ := σ) s) q) : Carries s q := by
  obtain ⟨t, t', hr⟩ := h
  by_cases hf : Fits s
  · rw [setCommand_fits hf] at hr
    cases hr
    exact withCommand_carries hf hp
  · obtain ⟨what, hw⟩ := setCommand_long (p := p) hf t
    rw [hw] at hr
    cases hr

/-- What `split_buffer(p.command)` walks over: without a NUL in the array it goes on into the
sequence number and what is stored behind it. -/
def memory (p : Packet) : Text := headerBytes p.toHeader

def Terminated (p : Packet) : Prop := nul ∈ p.memory

instance (p : Packet) : Decidable p.Terminated := inferInstanceAs (Decidable (nul ∈ p.memory))

def fields (p : Packet) : List Text := splitScan [] (p.memory.takeWhile (· != nul))

theorem splitBuffer_terminated {p : Packet} (h : p.Terminated) (t : σ) :
    splitBuffer p.memory t = .ok p.fields t := by
  unfold Terminated at h
  rw [splitBuffer, if_pos h]
  rfl

theorem splitBuffer_unterminated {p : Packet} (h : ¬ p.Terminated) (t : σ) :
    splitBuffer p.memory t = .error (.crashed .outOfBounds) t := by
  unfold Terminated at h
  rw [splitBuffer, if_neg h]
  rfl

theorem Reads.array {p : Packet} {s : Text} (hc : Reads s p) (hs : nul ∉ s) :
    p.command.1 = s ++ nul :: List.replicate (1023 - s.length) nul := by
  have hlen : s.length < 1024 := hc.fits
  rw [hc.command, commandArray, strncpy_self hs, ← List.replicate_succ,
    show 1023 - s.length + 1 = 1024 - s.length by omega]

theorem fields_ended {p : Packet} {s rest : Text} (hc : p.command.1 = s ++ nul :: rest) (hs : nul ∉ s) :
    p.Terminated ∧ p.fields = splitScan [] s := by
  have hmemory : ∃ rest, p.memory = s ++ nul :: rest := by
    rw [Packet.memory, headerBytes, hc, List.append_assoc, List.cons_append]
    exact ⟨_, rfl⟩
  obtain ⟨rest, hmemory⟩ := hmemory
  rw [Terminated, Packet.fields, hmemory, takeWhile_ended hs]
  exact ⟨List.mem_append_right _ List.mem_cons_self, rfl⟩

theorem Reads.fields {p : Packet} {s : Text} (hc : Reads s p) (hs : nul ∉ s) :
    p.Terminated ∧ p.fields = splitScan [] s := fields_ended (hc.array hs) hs

theorem setReason_raises (p : Packet) {s : Text} (h : s ≠ []) (t : σ) :
    p.setReason s t = .error (.raised (txt "[UTILS] Given string \"" ++ s ++
      txt "\" exceeds vector maximum size!")) t := by
  simp only [setReason, strcharray_own_size h, run_raise]

theorem setReason_nil (p : Packet) (t : σ) :
    p.setReason [] t = .ok { p with payloadSize := 0 } t := by
  simp only [setReason, List.length_nil, strcharray_empty, run_pure]
  rfl

theorem setReason_yields {p q : Packet} {c s : Text} (hp : Carries c p)
    (h : Yields (p.setReason (σ := σ) s) q) : s = [] ∧ Carries c q := by
  obtain ⟨t, t', hr⟩ := h
  rcases eq_or_ne s [] with rfl | hne
  · rw [setReason_nil] at hr
    cases hr
    exact ⟨rfl, ⟨hp.fits, hp.command⟩, hp.bytes⟩
  · rw [setReason_raises p hne] at hr
    cases hr

end Packet

def splitPayload {σ : Type} (p : Packet) : Exec σ (List Text) :=
  match p.payload with
  | none => crash .nullRead
  | some bytes => splitBuffer bytes

theorem splitPayload_kept {σ : Type} {R : σ → σ → Prop} [Std.Refl R] [IsTrans σ R] (p : Packet) :
    Kept R (splitPayload p) := by
  unfold splitPayload
  split
  exacts [Kept.crash _, splitBuffer_kept _]

/-! ## Mounting -/

namespace Packet
variable {σ : Type}

def mount (push : Packet → Exec σ Unit) (command : Text) : Exec σ Unit := do
  let p ← init.setCommand command
  push p

def mountWith (push : Packet → Exec σ Unit) (command payload : Text) : Exec σ Unit := do
  let p ← init.setCommand command
  let p ← p.setReason payload
  push p

section Mounting
variable {push : Packet → Exec σ Unit} {command payload : Text} {s : σ}

theorem mount_run (hf : Fits command) :
    mount push command s = push (init.withCommand (commandArray command)) s :=
  run_bind_ok (setCommand_fits hf s) _

/-- A reason is too long for the payload array it is stored in, so no failure is ever reported. -/
theorem mountWith_raises (hne : payload ≠ []) :
    ∃ what, mountWith push command payload s = .error (.raised what) s := by
  by_cases hf : Fits command
  · have hreason := setReason_raises (init.withCommand (commandArray command)) hne s
    exact ⟨_, (run_bind_ok (setCommand_fits hf s) _).trans (run_bind_error hreason _)⟩
  · obtain ⟨what, hw⟩ := setCommand_long (p := init) hf s
    exact ⟨what, run_bind_error hw _⟩

theorem mountWith_nil (hf : Fits command) :
    mountWith push command [] s = push (init.withCommand (commandArray command)) s :=
  (run_bind_ok (setCommand_fits hf s) _).trans (run_bind_ok (setReason_nil _ s) _)

variable {R : σ → σ → Prop} [Std.Refl R] [IsTrans σ R]

theorem mount_kept (hp : ∀ p, Carries command p → Kept R (push p)) : Kept R (mount push command) :=
  Kept.bindOf (setCommand_kept _ _) fun p hy => hp p (setCommand_yields rfl hy)

theorem mountWith_kept (hp : payload = [] → ∀ p, Carries command p → Kept R (push p)) :
    Kept R (mountWith push command payload) := by
  refine Kept.bindOf (setCommand_kept _ _) fun p hy => ?_
  refine Kept.bindOf (setReason_kept _ _) fun q hy' => ?_
  obtain ⟨hempty, hq⟩ := setReason_yields (setCommand_yields rfl hy) hy'
  exact hp hempty q hq

end Mounting

end Packet

/-! ## The wire -/

def frameCodec : Codec Byte {f : Header × Text // f.2.length = f.1.payloadSize.toNat} :=
  (Codec.fixed headerSize headerBytes readHeader headerBytes_length readHeader_headerBytes).withBody
    fun h => h.payloadSize.toNat

def Packet.wire (p : Packet) : Text := headerBytes p.toHeader ++ p.bytes

def Packet.frame (p : Packet) (h : p.Exact) :
    {f : Header × Text // f.2.length = f.1.payloadSize.toNat} :=
  ⟨p.content, h⟩

theorem Packet.encode_frame {p : Packet} (h : p.Exact) : frameCodec.encode (p.frame h) = p.wire := rfl

theorem Packet.wire_append_inj {p q : Packet} (hp : p.Exact) (hq : q.Exact) {r t : Text}
    (h : p.wire ++ r = q.wire ++ t) : p.content = q.content ∧ r = t := by
  obtain ⟨hframe, hrest⟩ := frameCodec.encode_append_inj (a := p.frame hp) (b := q.frame hq) h
  exact ⟨congrArg Subtype.val hframe, hrest⟩

theorem Packet.wire_length {p : Packet} (h : p.Exact) :
    p.wire.length = headerSize + p.payloadSize.toNat := by
  rw [wire, List.length_append, headerBytes_length, h]

end SyncWizard.Common
