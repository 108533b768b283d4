import Mathlib.Algebra.Order.BigOperators.Group.List
import SyncWizard.Common.Transfer

/-! Packet framing against every segmentation of the traffic. The loops of both sides are
right for every way the kernel cuts the stream, with one exception: `send_data` keeps the
result of `send` in an `int`, so a single chunk of more than `2 ^ 31` bytes ends it early. -/

namespace SyncWizard.Properties
open Foundation Common

def sendPackets (h : Host) (fuel : ℕ) (ps : List Packet) (sockfd : ℤ) : Exec ConnectionManager Unit :=
  forEach (fun p => sendPacket h fuel p sockfd) ps

def receivePackets (h : Host) (sockfd : ℤ) : ℕ → Exec ConnectionManager (List Packet)
  | 0 => pure []
  | n + 1 => do
    let p ← receivePacket h sockfd
    let ps ← receivePackets h sockfd n
    pure (p :: ps)

abbrev ExactPacket := {p : Packet // p.Exact}

/-- The packets sent over one connection come out at the other end with the same content and
in the same order, and reading them uses up exactly the bytes sent. -/
def RoundTrip (sender receiver : ReliableHost) (ps : List ExactPacket) : Prop :=
  ∀ (m : ConnectionManager) (out : ℤ), ∃ bound, ∀ fuel, bound ≤ fuel →
    ∃ m' stream, sendPackets sender.1 fuel (ps.map (·.1)) out m = .ok () m' ∧
      m'.outbox (m.socketOf out) = m.outbox (m.socketOf out) ++ stream ∧
      ∀ (n : ConnectionManager) (inn : ℤ), n.inbox (n.socketOf inn) = stream →
        ∃ qs n', receivePackets receiver.1 inn ps.length n = .ok qs n' ∧
          qs.map Packet.content = ps.map (·.1.content) ∧ n'.inbox (n.socketOf inn) = []

/-! ## Short payloads -/

def frames (ps : List ExactPacket) : List {f : Header × Text // f.2.length = f.1.payloadSize.toNat} :=
  ps.map fun p => p.1.frame p.2

theorem sendPackets_reliable {h : Host} (hr : h.Reliable) {fuel : ℕ} (out : ℤ) :
    ∀ (ps : List ExactPacket) (m : ConnectionManager),
      (∀ p ∈ ps, p.1.bytes.length ≤ 2 ^ 31 ∧ p.1.wire.length < fuel) →
      ∃ m', sendPackets h fuel (ps.map (·.1)) out m = .ok () m' ∧
        m.Sent (m.socketOf out) (frameCodec.encodeAll (frames ps)) m' := by
  intro ps
  induction ps with
  | nil => exact fun m _ => ⟨m, rfl, .refl m _⟩
  | cons p ps ih =>
    intro m hps
    obtain ⟨hshort, hfuel⟩ := hps p List.mem_cons_self
    obtain ⟨m₁, hrun₁, hsent₁⟩ := sendPacket_takes (hr.takes (m.socketOf out)) p.2 hshort hfuel
    obtain ⟨m₂, hrun₂, hsent₂⟩ := ih m₁ fun q hq => hps q (List.mem_cons_of_mem p hq)
    rw [hsent₁.socketOf] at hsent₂
    exact ⟨m₂, (run_bind_ok hrun₁ _).trans hrun₂, hsent₁.trans hsent₂⟩

theorem receivePackets_reliable {h : Host} (hr : h.Reliable) (inn : ℤ) {rest : Text} (count : ℕ) :
    ∀ (fs : List {f : Header × Text // f.2.length = f.1.payloadSize.toNat}) (n : ConnectionManager),
      frameCodec.decodeAll count (n.inbox (n.socketOf inn)) = some (fs, rest) →
      ∃ qs n', receivePackets h inn count n = .ok qs n' ∧ qs.map Packet.content = fs.map (·.1) ∧
        n'.inbox (n.socketOf inn) = rest := by
  induction count with
  | zero =>
    intro fs n hd
    obtain ⟨rfl, rfl⟩ := Prod.mk.inj (Option.some.inj hd)
    exact ⟨[], n, rfl, rfl, rfl⟩
  | succ count ih =>
    intro fs n hd
    rw [Codec.decodeAll, Option.bind_eq_some_iff] at hd
    obtain ⟨⟨f, s₁⟩, hone, hmore⟩ := hd
    obtain ⟨⟨gs, s₂⟩, hall, heq⟩ := Option.map_eq_some_iff.mp hmore
    obtain ⟨rfl, rfl⟩ := Prod.mk.inj heq
    obtain ⟨q, n₁, hrun₁, hq, hfd, hin₁⟩ := receivePacket_reliable hr.toReceives hone
    have hsock := ConnectionManager.socketOf_congr hfd inn
    obtain ⟨qs, n₂, hrun₂, hqs, hin₂⟩ := ih gs n₁ (by rwa [hsock, hin₁])
    refine ⟨q :: qs, n₂, ?_, ?_, by rwa [hsock] at hin₂⟩
    · rw [receivePackets, run_bind_ok hrun₁, run_bind_ok hrun₂, run_pure]
    · rw [List.map_cons, hq, hqs, List.map_cons]

theorem roundTrip_of_short (sender receiver : ReliableHost) {ps : List ExactPacket}
    (hps : ∀ p ∈ ps, p.1.bytes.length ≤ 2 ^ 31) : RoundTrip sender receiver ps := by
  intro m out
  refine ⟨(ps.map fun p => p.1.wire.length).sum + 1, fun fuel hfuel => ?_⟩
  have hwire : ∀ p ∈ ps, p.1.wire.length < fuel := fun p hp =>
    (Nat.lt_succ_of_le (List.single_le_sum (fun _ _ => Nat.zero_le _) _
      (List.mem_map_of_mem hp))).trans_le
      hfuel
  obtain ⟨m', hrun, hsent⟩ := sendPackets_reliable sender.2 out ps m fun p hp => ⟨hps p hp, hwire p hp⟩
  refine ⟨m', _, hrun, hsent.outbox_self, fun n inn hin => ?_⟩
  have hdec := frameCodec.decodeAll_encodeAll (frames ps) []
  rw [List.append_nil, ← hin, frames, List.length_map] at hdec
  obtain ⟨qs, n', hrun', hqs, hrest⟩ := receivePackets_reliable receiver.2 inn ps.length _ n hdec
  refine ⟨qs, n', hrun', ?_, hrest⟩
  rw [hqs, List.map_map]
  rfl

/-! ## Long payloads -/

def hugeChunkHost : ReliableHost := chunkHost (2 ^ 31) (by decide)

/-- After a chunk of `2 ^ 31` bytes the count has wrapped past every buffer a machine can hold, so
the rest of a longer buffer is never sent; were there a buffer close to `2 ^ 64` bytes, it would
lose its middle. -/
theorem sendData_hugeChunk {bs : Text} (hb : 2 ^ 31 < bs.length) (hs : bs.length < 2 ^ 64) {fuel : ℕ}
    (hf : 3 ≤ fuel) (m : ConnectionManager) (sockfd : ℤ) :
    ∃ m' cut, sendData hugeChunkHost.1 fuel (some bs) bs.length sockfd m = .ok () m' ∧
      m.Sent (m.socketOf sockfd) cut m' ∧ cut.length < bs.length := by
  obtain ⟨f, rfl⟩ : ∃ f, fuel = f + 1 + 1 + 1 := ⟨fuel - 3, by omega⟩
  have hsend (m : ConnectionManager) (fd : ℤ) (offered : ℕ) (ho : 0 < offered) :
      hugeChunkHost.1.send m.calls fd offered = some (min offered (2 ^ 31)) :=
    if_neg (Nat.pos_iff_ne_zero.mp ho)
  let total : BitVec 64 := 0 + (BitVec.ofInt 32 ((2 ^ 31 : ℕ) : ℤ)).signExtend 64
  have htotal : total.toNat = 2 ^ 64 - 2 ^ 31 := by decide
  let m₁ := m.tick.tick.put (m.socketOf sockfd) (bs.take (2 ^ 31))
  have hsent₁ : m.Sent (m.socketOf sockfd) (bs.take (2 ^ 31)) m₁ := rfl
  have hstart : sendData hugeChunkHost.1 (f + 1 + 1 + 1) (some bs) bs.length sockfd m =
      sendLoop hugeChunkHost.1 (m.socketOf sockfd) bs (f + 1 + 1) total m₁ := by
    have hne : bs ≠ [] := List.length_pos_iff.mp (by omega)
    rw [sendData_start hne, run_bind_ok (awaitReady_ready (hugeChunkHost.2.selectWrite _ _) _)]
    have hoffer := hsend m.tick (m.socketOf sockfd) bs.length (by omega)
    rw [Nat.min_eq_right hb.le] at hoffer
    exact sendLoop_step (m.socketOf sockfd) 0 m.tick (show 0 < bs.length by omega)
      hoffer (by decide) (f + 1 + 1)
  rw [hstart]
  by_cases hstop : total.toNat < bs.length
  · -- the wrapped count points into the last 2 ^ 31 bytes, which go out in one more chunk
    let tail := bs.drop total.toNat
    have htail : tail.length = bs.length - (2 ^ 64 - 2 ^ 31) := by rw [List.length_drop, htotal]
    have hoffer := hsend m₁ (m.socketOf sockfd) tail.length (by omega)
    rw [Nat.min_eq_left (by omega)] at hoffer
    obtain ⟨hne, hext⟩ := narrow_small (n := tail.length) (by omega)
    let m₂ := m₁.tick.put (m.socketOf sockfd) (tail.take tail.length)
    have hsent₂ : m₁.Sent (m.socketOf sockfd) (tail.take tail.length) m₂ := rfl
    refine ⟨m₂, _, ?_, hsent₁.trans hsent₂, ?_⟩
    · rw [sendLoop_step (m.socketOf sockfd) total m₁ hstop hoffer hne, hext]
      refine sendLoop_done _ ?_ f m₂
      rw [BitVec.toNat_add, htotal, BitVec.toNat_ofNat, htail]
      omega
    · rw [List.length_append, List.length_take, List.take_length, htail]
      omega
  · exact ⟨m₁, _, sendLoop_done _ hstop (f + 1) m₁, hsent₁, by rw [List.length_take]; omega⟩

theorem sendPacket_hugeChunk (p : ExactPacket) {fuel : ℕ} (hf : p.1.wire.length < fuel)
    (m : ConnectionManager) (out : ℤ) :
    ∃ m' cut, sendPacket hugeChunkHost.1 fuel p.1 out m = .ok () m' ∧
      m.Sent (m.socketOf out) cut m' ∧ cut.length ≤ p.1.wire.length ∧
      (2 ^ 31 < p.1.bytes.length → cut.length < p.1.wire.length) := by
  by_cases hshort : p.1.bytes.length ≤ 2 ^ 31
  · obtain ⟨m', hrun, hsent⟩ :=
      sendPacket_takes (hugeChunkHost.2.takes (m.socketOf out)) p.2 hshort hf
    exact ⟨m', _, hrun, hsent, le_rfl, fun hlong => absurd hlong (by omega)⟩
  have hwl := Packet.wire_length p.2
  have hhl := headerBytes_length p.1.toHeader
  have hh : headerSize = 1048 := rfl
  have hlt : p.1.payloadSize.toNat < 2 ^ 64 := p.1.payloadSize.isLt
  obtain ⟨m₁, hrun₁, hsent₁⟩ := sendData_takes (hugeChunkHost.2.takes (m.socketOf out))
    (headerBytes p.1.toHeader) (by rw [hhl]; decide) (show _ < fuel by omega)
  rw [hhl] at hrun₁
  obtain ⟨bs, hpl⟩ : ∃ bs, p.1.payload = some bs := by
    cases hpl : p.1.payload with
    | none =>
      rw [Packet.bytes, hpl, Option.getD_none, List.length_nil] at hshort
      omega
    | some bs => exact ⟨bs, rfl⟩
  have hbytes : p.1.bytes = bs := by rw [Packet.bytes, hpl, Option.getD_some]
  have hsize : p.1.payloadSize.toNat = bs.length := by rw [← p.2, hbytes]
  obtain ⟨m₂, cut, hrun₂, hsent₂, hcut⟩ := sendData_hugeChunk
    (hbytes ▸ Nat.lt_of_not_le hshort) (hsize ▸ hlt) (show 3 ≤ fuel by omega) m₁ out
  rw [hsent₁.socketOf] at hsent₂
  have hlen : (headerBytes p.1.toHeader ++ cut).length < p.1.wire.length := by
    rw [List.length_append, hhl]
    omega
  refine ⟨m₂, _, ?_, hsent₁.trans hsent₂, hlen.le, fun _ => hlen⟩
  rw [sendPacket, run_bind_ok hrun₁, hpl, hsize, hrun₂]

def wireLength (p : ExactPacket) : ℕ := p.1.wire.length

theorem sendPackets_hugeChunk {fuel : ℕ} (out : ℤ) :
    ∀ (ps : List ExactPacket) (m : ConnectionManager), (∀ p ∈ ps, p.1.wire.length < fuel) →
      ∃ m' cut, sendPackets hugeChunkHost.1 fuel (ps.map (·.1)) out m = .ok () m' ∧
        m.Sent (m.socketOf out) cut m' ∧ cut.length ≤ (ps.map wireLength).sum ∧
        ((∃ p ∈ ps, 2 ^ 31 < p.1.bytes.length) → cut.length < (ps.map wireLength).sum) := by
  intro ps
  induction ps with
  | nil =>
    exact fun m _ => ⟨m, [], rfl, .refl m _, Nat.zero_le _, fun ⟨_, hp, _⟩ =>
      absurd hp List.not_mem_nil⟩
  | cons p ps ih =>
    intro m hps
    obtain ⟨m₁, cut₁, hrun₁, hsent₁, hle₁, hlt₁⟩ :=
      sendPacket_hugeChunk p (hps p List.mem_cons_self) m out
    obtain ⟨m₂, cut₂, hrun₂, hsent₂, hle₂, hlt₂⟩ := ih m₁ fun q hq => hps q (List.mem_cons_of_mem p hq)
    rw [hsent₁.socketOf] at hsent₂
    have hsum : ((p :: ps).map wireLength).sum = p.1.wire.length + (ps.map wireLength).sum := by
      rw [List.map_cons, List.sum_cons, wireLength]
    refine ⟨m₂, cut₁ ++ cut₂, (run_bind_ok hrun₁ _).trans hrun₂, hsent₁.trans hsent₂, ?_, ?_⟩
    · rw [List.length_append, hsum]
      omega
    · rintro ⟨q, hq, hlong⟩
      rw [List.length_append, hsum]
      rcases List.mem_cons.mp hq with rfl | hq
      · have := hlt₁ hlong
        omega
      · have := hlt₂ ⟨q, hq, hlong⟩
        omega

theorem receivePackets_took {h : Host} (inn : ℤ) (count : ℕ) :
    ∀ (n : ConnectionManager) (qs : List Packet) (n' : ConnectionManager),
      receivePackets h inn count n = .ok qs n' →
      (qs.map fun q => headerSize + q.payloadSize.toNat).sum ≤ (n.inbox (n.socketOf inn)).length := by
  induction count with
  | zero =>
    intro n qs n' hrun
    cases hrun
    exact Nat.zero_le _
  | succ count ih =>
    intro n qs n' hrun
    obtain ⟨q, n₁, hrun₁, hrun⟩ := run_bind_inv hrun
    obtain ⟨qs', n₂, hrun₂, hrun⟩ := run_bind_inv hrun
    cases hrun
    obtain ⟨k, hk, htook, hsize⟩ := receivePacket_took (h := h) inn n
    rw [hrun₁, final_ok] at htook
    have hlater := ih n₁ qs' n' hrun₂
    rw [htook.socketOf, htook.inbox_self, List.length_drop] at hlater
    have := hsize q n₁ hrun₁
    rw [List.map_cons, List.sum_cons]
    omega

theorem not_roundTrip_of_long (receiver : ReliableHost) (ps : List ExactPacket) {p : ExactPacket}
    (hp : p ∈ ps) (hlong : 2 ^ 31 < p.1.bytes.length) : ¬ RoundTrip hugeChunkHost receiver ps := by
  intro hround
  let m : ConnectionManager := ⟨0, 0, fun _ => [], fun _ => [], fun _ => true⟩
  obtain ⟨bound, hbound⟩ := hround m 0
  let fuel := bound + (ps.map wireLength).sum + 1
  have hwire : ∀ q ∈ ps, q.1.wire.length < fuel := by
    intro q hq
    have : wireLength q ≤ (ps.map wireLength).sum :=
      List.single_le_sum (fun _ _ => Nat.zero_le _) _ (List.mem_map_of_mem hq)
    rw [wireLength] at this
    omega
  obtain ⟨m', cut, hrun, hsent, -, hshort⟩ := sendPackets_hugeChunk 0 ps m hwire
  have hlost := hshort ⟨p, hp, hlong⟩
  obtain ⟨m'', stream, hrun', hout, hreceive⟩ := hbound fuel (by omega)
  rw [hrun] at hrun'
  cases hrun'
  rw [hsent.outbox_self] at hout
  obtain rfl : cut = stream := List.append_cancel_left hout
  obtain ⟨qs, n', hrun', hqs, -⟩ := hreceive { m with inbox := fun _ => cut } 0 rfl
  have htook : (qs.map fun q => headerSize + q.payloadSize.toNat).sum ≤ cut.length :=
    receivePackets_took 0 ps.length _ qs n' hrun'
  have hsame : (qs.map fun q => headerSize + q.payloadSize.toNat) = ps.map wireLength := by
    have hsizes := congrArg (List.map fun c : Header × Text => headerSize + c.1.payloadSize.toNat) hqs
    rw [List.map_map, List.map_map] at hsizes
    refine hsizes.trans (List.map_congr_left fun q _ => ?_)
    exact (Packet.wire_length q.2).symm
  rw [hsame] at htook
  omega

/-- The round trip holds on every pair of working hosts exactly when no payload is longer than
`2 ^ 31` bytes. -/
theorem roundTrip_iff_short (ps : List ExactPacket) :
    (∀ sender receiver : ReliableHost, RoundTrip sender receiver ps) ↔
      ∀ p ∈ ps, p.1.bytes.length ≤ 2 ^ 31 := by
  constructor
  · intro hround p hp
    by_contra hlong
    exact not_roundTrip_of_long hugeChunkHost ps hp (Nat.lt_of_not_le hlong) (hround _ _)
  · exact fun hps sender receiver => roundTrip_of_short sender receiver hps

def zerosPacket (n : ℕ) (hn : n < 2 ^ 64) : ExactPacket where
  val := { Packet.init with payloadSize := BitVec.ofNat 64 n, payload := some (List.replicate n 0) }
  property := by
    rw [Packet.Exact, Packet.bytes, Option.getD_some, List.length_replicate, BitVec.toNat_ofNat,
      Nat.mod_eq_of_lt hn]

theorem roundTrip_loses_long_payload :
    ¬ ∀ (sender receiver : ReliableHost) (ps : List ExactPacket), RoundTrip sender receiver ps := by
  intro hround
  refine not_roundTrip_of_long hugeChunkHost [zerosPacket (2 ^ 31 + 1) (by decide)]
    (List.mem_singleton_self _) ?_ (hround _ _ _)
  rw [zerosPacket, Packet.bytes, Option.getD_some, List.length_replicate]
  exact Nat.lt_succ_self _

end SyncWizard.Properties
