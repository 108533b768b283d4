import SyncWizard.Common.Transfer

/-! What a failed receive leaves behind. `receive_packet` does not put back what it has read, so after a
failure the next receive starts where that one stopped, and takes for a header whatever is there. -/

namespace SyncWizard.Common

def ConnectionManager.gets (m : ConnectionManager) (fd : ℤ) (arrival : Text) : ConnectionManager :=
  { m with inbox := Function.update m.inbox fd (m.inbox fd ++ arrival) }

@[simp] theorem ConnectionManager.gets_inbox_self (m : ConnectionManager) (fd : ℤ) (arrival : Text) :
    (m.gets fd arrival).inbox fd = m.inbox fd ++ arrival := Function.update_self ..

@[simp] theorem ConnectionManager.gets_socketOf (m : ConnectionManager) (fd : ℤ) (arrival : Text)
    (sockfd : ℤ) : (m.gets fd arrival).socketOf sockfd = m.socketOf sockfd := rfl

@[simp] theorem ConnectionManager.gets_nil (m : ConnectionManager) (fd : ℤ) : m.gets fd [] = m := by
  simp only [gets, List.append_nil, Function.update_eq_self]

end SyncWizard.Common

namespace SyncWizard.Properties
open Foundation Common

def streamOf (packets : List Packet) : Text := packets.flatMap Packet.wire

/-- Receives from one socket that all raise, the bytes that arrive for them, and how many of the bytes
they take. -/
inductive Fails (sockfd : ℤ) : ConnectionManager → Text → ℕ → ConnectionManager → Prop
  | once {h : Host} {m m' : ConnectionManager} {arrival what : Text} {n : ℕ}
      (raised : receivePacket h sockfd (m.gets (m.socketOf sockfd) arrival) = .error (.raised what) m')
      (bound : n ≤ (m.inbox (m.socketOf sockfd) ++ arrival).length)
      (took : (m.gets (m.socketOf sockfd) arrival).Took (m.socketOf sockfd) n m') :
      Fails sockfd m arrival n m'
  | again {m m₁ m₂ : ConnectionManager} {arrival later : Text} {n k : ℕ}
      (first : Fails sockfd m arrival n m₁) (rest : Fails sockfd m₁ later k m₂) :
      Fails sockfd m (arrival ++ later) (n + k) m₂

/-- Whichever way the next successful receive goes, it returns a packet of the stream, of which `got` has
arrived so far. -/
def ReadsOn (packets : List Packet) (sockfd : ℤ) (got : Text) (m : ConnectionManager) : Prop :=
  ∀ (h : Host) (arrival : Text) (q : Packet) (m' : ConnectionManager),
    got ++ arrival <+: streamOf packets →
      receivePacket h sockfd (m.gets (m.socketOf sockfd) arrival) = .ok q m' →
        ∃ p ∈ packets, p.content = q.content

/-- From the point `n` on, the bytes of the stream are not those of a packet that was never sent: they
announce more than there is, or are one of the packets. -/
def NoStray (packets : List Packet) (n : ℕ) : Prop :=
  ∀ f rest, frameCodec.decode ((streamOf packets).drop n) = some (f, rest) →
    ∃ p ∈ packets, p.content = f.1

section Failing
variable {sockfd : ℤ} {m m' : ConnectionManager} {arrival : Text} {n : ℕ} {packets : List Packet}

theorem fails_socketOf (hf : Fails sockfd m arrival n m') : m'.socketOf sockfd = m.socketOf sockfd := by
  induction hf with
  | once _ _ took => exact took.socketOf sockfd
  | again _ _ ih₁ ih₂ => exact ih₂.trans ih₁

theorem fails_left (hf : Fails sockfd m arrival n m') :
    n ≤ (m.inbox (m.socketOf sockfd) ++ arrival).length ∧
      m'.inbox (m.socketOf sockfd) = (m.inbox (m.socketOf sockfd) ++ arrival).drop n := by
  induction hf with
  | once _ bound took =>
    refine ⟨bound, ?_⟩
    rw [took.inbox_self, ConnectionManager.gets_inbox_self]
  | @again m m₁ m₂ arrival later n k first rest ih₁ ih₂ =>
    obtain ⟨hle₁, hleft₁⟩ := ih₁
    obtain ⟨hle₂, hleft₂⟩ := ih₂
    rw [fails_socketOf first, hleft₁, ← List.drop_append_of_le_length hle₁, List.append_assoc]
      at hle₂ hleft₂
    refine ⟨?_, by rw [hleft₂, List.drop_drop]⟩
    rw [List.length_drop] at hle₂
    rw [← List.append_assoc, List.length_append] at hle₂ ⊢
    omega

theorem readsOn_of_noStray (hf : Fails sockfd m arrival n m') (hn : NoStray packets n) :
    ReadsOn packets sockfd (m.inbox (m.socketOf sockfd) ++ arrival) m' := by
  obtain ⟨hle, hleft⟩ := fails_left hf
  rintro h next q m'' ⟨later, hstream⟩ hr
  obtain ⟨f, rest, hdecode, hf'⟩ := receivePacket_decodes hr later
  rw [ConnectionManager.gets_socketOf, ConnectionManager.gets_inbox_self, fails_socketOf hf, hleft,
    ← List.drop_append_of_le_length hle, ← List.drop_append_of_le_length
      (by rw [List.length_append]; omega), hstream] at hdecode
  obtain ⟨p, hp, hpf⟩ := hn f rest hdecode
  exact ⟨p, hp, hpf.trans hf'⟩

theorem noStray_of_readsOn (hf : Fails sockfd m arrival n m')
    (hp : m.inbox (m.socketOf sockfd) ++ arrival <+: streamOf packets)
    (ho : ReadsOn packets sockfd (m.inbox (m.socketOf sockfd) ++ arrival) m') : NoStray packets n := by
  intro f rest hdecode
  obtain ⟨hle, hleft⟩ := fails_left hf
  obtain ⟨later, hstream⟩ := hp
  have hinbox : (m'.gets (m'.socketOf sockfd) later).inbox
      ((m'.gets (m'.socketOf sockfd) later).socketOf sockfd) = (streamOf packets).drop n := by
    rw [ConnectionManager.gets_socketOf, ConnectionManager.gets_inbox_self, fails_socketOf hf, hleft,
      ← List.drop_append_of_le_length hle, hstream]
  obtain ⟨q, m'', hr, hq, -, -⟩ := receivePacket_reliable pageHost.2.toReceives
    (m := m'.gets (m'.socketOf sockfd) later) (hinbox ▸ hdecode)
  obtain ⟨p, hp, hpq⟩ := ho pageHost.1 later q m'' (hstream ▸ List.prefix_rfl) hr
  exact ⟨p, hp, hpq.trans hq⟩

theorem noStray_between {before after : List Packet} (hexact : ∀ p ∈ after, p.Exact) :
    NoStray (before ++ after) (streamOf before).length := by
  intro f rest hdecode
  have hstream : streamOf (before ++ after) = streamOf before ++ streamOf after := List.flatMap_append
  rw [hstream, List.drop_left] at hdecode
  cases after with
  | nil => cases hdecode
  | cons p after =>
    have hp := hexact p List.mem_cons_self
    have hfirst := frameCodec.decode_encode (p.frame hp) (streamOf after)
    rw [Packet.encode_frame] at hfirst
    cases hfirst.symm.trans hdecode
    exact ⟨p, List.mem_append_right _ List.mem_cons_self, rfl⟩

end Failing

/-! ## A packet within a packet -/

/-- A packet of a file that holds the bytes of an `exit` packet. -/
def nestedPacket : Packet :=
  { Packet.ofCommand (txt "aupload|notes|0") with
    payloadSize := 1048
    payload := some (Packet.ofCommand (txt "exit")).wire }

theorem nestedPacket_exact : ∀ p ∈ [nestedPacket], p.Exact := by
  intro p hp
  rw [List.mem_singleton.mp hp]
  exact Packet.wire_length (p := Packet.ofCommand (txt "exit")) rfl

def stallingHost : Host :=
  { pageHost.1 with selectRead := fun call _ => if call = 2 then .timedOut else .ready }

def idleConnection : ConnectionManager := ⟨3, 0, fun _ => [], fun _ => [], fun _ => true⟩

def headerArrived : ConnectionManager := idleConnection.gets 4 (headerBytes nestedPacket.toHeader)

def headerTaken : ConnectionManager := headerArrived.tick.tick.take 4 headerSize

theorem headerArrived_inbox :
    headerArrived.inbox (headerArrived.socketOf 4) = headerBytes nestedPacket.toHeader :=
  ConnectionManager.gets_inbox_self ..

theorem receive_stalls : ∃ what, receivePacket stallingHost 4 headerArrived =
    .error (.raised what) headerTaken.tick := by
  have hheader : receiveData stallingHost headerSize 4 headerArrived =
      .ok (headerBytes nestedPacket.toHeader) headerTaken :=
    receiveHeader_atOnce headerArrived_inbox rfl rfl
  have hpayload : receiveData stallingHost nestedPacket.payloadSize.toNat 4 headerTaken =
      .error (.raised (timedOutOn 4)) headerTaken.tick :=
    receiveData_timedOut (by decide) rfl
  have hsize : nestedPacket.payloadSize.toNat ≠ 0 := by decide
  have halloc (n : ℕ) : stallingHost.alloc n = true := rfl
  refine ⟨timedOutOn 4, ?_⟩
  rw [receivePacket, run_bind_ok hheader, readHeader_headerBytes]
  simp only [hsize, if_false, halloc, if_true]
  exact run_bind_error hpayload _

theorem header_then_timeout :
    Fails 4 idleConnection (headerBytes nestedPacket.toHeader) headerSize headerTaken.tick := by
  obtain ⟨what, hraises⟩ := receive_stalls
  have hbound : headerSize ≤ ([] ++ headerBytes nestedPacket.toHeader).length := by
    rw [List.nil_append, headerBytes_length]
  exact .once hraises hbound rfl

theorem nestedPacket_stray : ¬ NoStray [nestedPacket] headerSize := by
  intro hn
  have hbytes : nestedPacket.bytes = (Packet.ofCommand (txt "exit")).wire := rfl
  have hexit : (Packet.ofCommand (txt "exit")).Exact := rfl
  have hdrop : (streamOf [nestedPacket]).drop headerSize =
      (Packet.ofCommand (txt "exit")).wire ++ [] := by
    rw [streamOf, List.flatMap_singleton, Packet.wire, hbytes, List.append_nil]
    exact List.drop_left' (headerBytes_length nestedPacket.toHeader)
  have hdecode := frameCodec.decode_encode ((Packet.ofCommand (txt "exit")).frame hexit) []
  rw [Packet.encode_frame, ← hdrop] at hdecode
  obtain ⟨p, hp, hcontent⟩ := hn _ _ hdecode
  rw [List.mem_singleton.mp hp] at hcontent
  have hsize : nestedPacket.payloadSize = 0 := congrArg (fun c => c.1.payloadSize) hcontent
  exact absurd hsize (by decide)

/-- After a failure the next receive returns a packet of the stream exactly if the bytes from the point of
failure on do not pass for another one. Between two packets they never do. -/
theorem aligned_iff {packets : List Packet} {sockfd : ℤ} {m m' : ConnectionManager} {arrival : Text}
    {n : ℕ} (hexact : ∀ p ∈ packets, p.Exact) (hf : Fails sockfd m arrival n m')
    (hp : m.inbox (m.socketOf sockfd) ++ arrival <+: streamOf packets) :
    (ReadsOn packets sockfd (m.inbox (m.socketOf sockfd) ++ arrival) m' ↔ NoStray packets n) ∧
      ((∃ before after, packets = before ++ after ∧ n = (streamOf before).length) →
        NoStray packets n) := by
  refine ⟨⟨noStray_of_readsOn hf hp, readsOn_of_noStray hf⟩, ?_⟩
  rintro ⟨before, after, rfl, rfl⟩
  exact noStray_between fun p hp => hexact p (List.mem_append_right _ hp)

theorem aligned_after_silence : ReadsOn [nestedPacket] 4 [] idleConnection.tick := by
  have hsilent : Fails 4 idleConnection [] 0 idleConnection.tick := by
    let h : Host := { pageHost.1 with selectRead := fun _ _ => .timedOut }
    have hnothing := ConnectionManager.gets_nil idleConnection 4
    have hraises : receivePacket h 4 (idleConnection.gets 4 []) =
        .error (.raised (timedOutOn 4)) idleConnection.tick := by
      rw [hnothing]
      exact run_bind_error (receiveData_timedOut (by decide) rfl) _
    have htook : (idleConnection.gets 4 []).Took 4 0 idleConnection.tick := by
      rw [hnothing]
      exact ConnectionManager.tick_took _ _
    exact .once hraises le_rfl htook
  obtain ⟨hiff, hbetween⟩ := aligned_iff nestedPacket_exact hsilent List.nil_prefix
  exact hiff.mpr (hbetween ⟨[], [nestedPacket], rfl, rfl⟩)

/-- The header of the packet is read and the wait for its payload times out: the next receive returns the
`exit` that the file holds. -/
theorem nestedPacket_misread :
    ¬ ∀ (packets : List Packet) (sockfd : ℤ) (m m' : ConnectionManager) (arrival : Text) (n : ℕ),
      (∀ p ∈ packets, p.Exact) → Fails sockfd m arrival n m' →
        m.inbox (m.socketOf sockfd) ++ arrival <+: streamOf packets →
          ReadsOn packets sockfd (m.inbox (m.socketOf sockfd) ++ arrival) m' := by
  intro hall
  have hprefix : headerBytes nestedPacket.toHeader <+: streamOf [nestedPacket] :=
    ⟨nestedPacket.bytes ++ [], (List.append_assoc ..).symm⟩
  exact nestedPacket_stray (noStray_of_readsOn header_then_timeout hprefix
    (hall _ _ _ _ _ _ nestedPacket_exact header_then_timeout hprefix))

end SyncWizard.Properties
