import SyncWizard.Common.Connection

/-! What the transfer loops do to the connection: on a working host they move the whole buffer
however the kernel cuts it up, and on any host they touch only the stream they are for. -/

namespace SyncWizard.Common
open Foundation

namespace ConnectionManager

def Sent (m : ConnectionManager) (fd : ℤ) (bs : Text) (m' : ConnectionManager) : Prop :=
  m' = { m.put fd bs with calls := m'.calls }

def Took (m : ConnectionManager) (fd : ℤ) (n : ℕ) (m' : ConnectionManager) : Prop :=
  m' = { m.take fd n with calls := m'.calls }

variable {m m₁ m₂ : ConnectionManager} {fd : ℤ}

@[simp] theorem put_nil (m : ConnectionManager) (fd : ℤ) : m.put fd [] = m := by
  simp only [put, List.append_nil, Function.update_eq_self]

@[simp] theorem take_zero (m : ConnectionManager) (fd : ℤ) : m.take fd 0 = m := by
  simp only [take, List.drop_zero, Function.update_eq_self]

@[simp] theorem put_outbox_self (m : ConnectionManager) (fd : ℤ) (bs : Text) :
    (m.put fd bs).outbox fd = m.outbox fd ++ bs := Function.update_self ..

theorem put_outbox_ne (m : ConnectionManager) {fd fd' : ℤ} (bs : Text) (h : fd' ≠ fd) :
    (m.put fd bs).outbox fd' = m.outbox fd' := Function.update_of_ne h ..

@[simp] theorem take_inbox_self (m : ConnectionManager) (fd : ℤ) (n : ℕ) :
    (m.take fd n).inbox fd = (m.inbox fd).drop n := Function.update_self ..

theorem take_inbox_ne (m : ConnectionManager) {fd fd' : ℤ} (n : ℕ) (h : fd' ≠ fd) :
    (m.take fd n).inbox fd' = m.inbox fd' := Function.update_of_ne h ..

theorem put_put (m : ConnectionManager) (fd : ℤ) (as bs : Text) :
    (m.put fd as).put fd bs = m.put fd (as ++ bs) := by
  simp only [put, Function.update_self, Function.update_idem, List.append_assoc]

theorem take_take (m : ConnectionManager) (fd : ℤ) (i j : ℕ) :
    (m.take fd i).take fd j = m.take fd (i + j) := by
  simp only [take, Function.update_self, Function.update_idem, List.drop_drop]

theorem Sent.refl (m : ConnectionManager) (fd : ℤ) : m.Sent fd [] m := by
  rw [Sent, put_nil]

theorem Sent.trans {as bs : Text} (h₁ : m.Sent fd as m₁) (h₂ : m₁.Sent fd bs m₂) :
    m.Sent fd (as ++ bs) m₂ := by
  have h : m₂ = { (m.put fd as).put fd bs with calls := m₂.calls } := by
    rw [h₂, h₁]
    rfl
  rwa [put_put] at h

theorem Took.refl (m : ConnectionManager) (fd : ℤ) : m.Took fd 0 m := by
  rw [Took, take_zero]

theorem Took.trans {i j : ℕ} (h₁ : m.Took fd i m₁) (h₂ : m₁.Took fd j m₂) :
    m.Took fd (i + j) m₂ := by
  have h : m₂ = { (m.take fd i).take fd j with calls := m₂.calls } := by
    rw [h₂, h₁]
    rfl
  rwa [take_take] at h

theorem Sent.outbox_self {bs : Text} (h : m.Sent fd bs m₁) : m₁.outbox fd = m.outbox fd ++ bs := by
  rw [h]
  exact put_outbox_self m fd bs

theorem Sent.outbox_ne {bs : Text} {fd' : ℤ} (h : m.Sent fd bs m₁) (hne : fd' ≠ fd) :
    m₁.outbox fd' = m.outbox fd' := by
  rw [h]
  exact put_outbox_ne m bs hne

theorem Sent.sockfd {bs : Text} (h : m.Sent fd bs m₁) : m₁.sockfd = m.sockfd := by
  rw [h]
  rfl

theorem Sent.inbox {bs : Text} (h : m.Sent fd bs m₁) : m₁.inbox = m.inbox := by
  rw [h]
  rfl

theorem Took.inbox_self {n : ℕ} (h : m.Took fd n m₁) : m₁.inbox fd = (m.inbox fd).drop n := by
  rw [h]
  exact take_inbox_self m fd n

theorem Took.sockfd {n : ℕ} (h : m.Took fd n m₁) : m₁.sockfd = m.sockfd := by
  rw [h]
  rfl

theorem Sent.isOpen {bs : Text} (h : m.Sent fd bs m₁) : m₁.isOpen = m.isOpen := by
  rw [h]
  rfl

theorem Took.isOpen {n : ℕ} (h : m.Took fd n m₁) : m₁.isOpen = m.isOpen := by
  rw [h]
  rfl

theorem socketOf_congr (h : m₁.sockfd = m.sockfd) (sockfd : ℤ) :
    m₁.socketOf sockfd = m.socketOf sockfd := by
  rw [socketOf, h, socketOf]

theorem Sent.socketOf {bs : Text} (h : m.Sent fd bs m₁) (sockfd : ℤ) :
    m₁.socketOf sockfd = m.socketOf sockfd :=
  socketOf_congr h.sockfd sockfd

theorem Took.socketOf {n : ℕ} (h : m.Took fd n m₁) (sockfd : ℤ) :
    m₁.socketOf sockfd = m.socketOf sockfd :=
  socketOf_congr h.sockfd sockfd

theorem tick_sent (m : ConnectionManager) (fd : ℤ) : m.Sent fd [] m.tick := by
  rw [Sent, put_nil]
  rfl

theorem tick_took (m : ConnectionManager) (fd : ℤ) : m.Took fd 0 m.tick := by
  rw [Took, take_zero]
  rfl

end ConnectionManager

/-! ## Single steps -/

section Steps
variable {h : Host}

theorem awaitReady_ready {select : ℕ → ℤ → Readiness} {socket : ℤ} {m : ConnectionManager}
    (hs : select m.calls socket = .ready) (failure : Text) :
    awaitReady select socket failure m = .ok () m.tick := by
  simp only [awaitReady, hs]

theorem awaitReady_cases (select : ℕ → ℤ → Readiness) (socket : ℤ) (failure : Text)
    (m : ConnectionManager) :
    awaitReady select socket failure m = .ok () m.tick ∨
      ∃ what, awaitReady select socket failure m = .error (.raised what) m.tick := by
  unfold awaitReady
  split
  exacts [.inl rfl, .inr ⟨_, rfl⟩, .inr ⟨_, rfl⟩]

theorem receiveData_timedOut {size : ℕ} {sockfd : ℤ} {m : ConnectionManager} (hs : size ≠ 0)
    (hselect : h.selectRead m.calls (m.socketOf sockfd) = .timedOut) :
    receiveData h size sockfd m = .error (.raised (timedOutOn (m.socketOf sockfd))) m.tick := by
  rw [receiveData, if_neg hs, run_bind_ok (run_get m)]
  refine run_bind_error ?_ _
  simp only [awaitReady, hselect]

theorem sendData_start {bs : Text} (hb : bs ≠ []) (fuel : ℕ) (sockfd : ℤ) (m : ConnectionManager) :
    sendData h fuel (some bs) bs.length sockfd m =
      (do awaitReady h.selectWrite (m.socketOf sockfd) (sendingFailed (m.socketOf sockfd))
          sendLoop h (m.socketOf sockfd) bs fuel 0 : Exec ConnectionManager Unit) m := by
  rw [sendData, if_neg (List.length_pos_iff.mpr hb).ne', run_bind_ok (run_get m)]
  simp only [lt_irrefl, if_false, List.take_length]

theorem narrow_small {n : ℕ} (hn : n < 2 ^ 31) :
    BitVec.ofInt 32 n ≠ -1 ∧ (BitVec.ofInt 32 n).signExtend 64 = BitVec.ofNat 64 n := by
  have hmsb : (BitVec.ofNat 32 n).msb = false := by
    rw [BitVec.msb_eq_decide, decide_eq_false_iff_not, BitVec.toNat_ofNat]
    omega
  rw [BitVec.ofInt_natCast]
  constructor
  · intro h
    have := congrArg BitVec.toNat h
    rw [BitVec.toNat_ofNat, show (-1 : BitVec 32).toNat = 2 ^ 32 - 1 from rfl] at this
    omega
  · rw [BitVec.signExtend_eq_setWidth_of_msb_false hmsb]
    apply BitVec.eq_of_toNat_eq
    simp only [BitVec.toNat_setWidth, BitVec.toNat_ofNat]
    omega

theorem Packet.isLast_iff {packets before after : List Packet} {p : Packet}
    (hsize : packets.length ≤ 2 ^ 31)
    (hnumber : p.sequenceNumber = BitVec.ofNat 32 before.length)
    (hexpect : p.expectedPackets = BitVec.ofNat 64 packets.length)
    (hp : packets = before ++ p :: after) :
    p.isLast = true ↔ after = [] := by
  have hlen : packets.length = before.length + (after.length + 1) := by
    rw [hp, List.length_append, List.length_cons]
  have hext := (narrow_small (n := before.length) (by omega)).2
  rw [BitVec.ofInt_natCast] at hext
  have hexpected : BitVec.ofNat 64 packets.length - 1 =
      BitVec.ofNat 64 (before.length + after.length) := by
    rw [hlen, ← Nat.add_assoc, BitVec.ofNat_add _ 1]
    exact BitVec.add_sub_cancel _ 1#64
  rw [Packet.isLast, hnumber, hexpect, hext, hexpected, beq_iff_eq]
  constructor
  · intro he
    have hnat := congrArg BitVec.toNat he
    rw [BitVec.toNat_ofNat, BitVec.toNat_ofNat,
      Nat.mod_eq_of_lt (by omega), Nat.mod_eq_of_lt (by omega)] at hnat
    exact List.length_eq_zero_iff.mp (by omega)
  · rintro rfl
    rfl

theorem Packet.numbered_single {p q : Packet} {before after : List Packet} (hq : q.sequenceNumber = 0)
    (he : [q] = before ++ p :: after) : p.sequenceNumber = BitVec.ofNat 32 before.length := by
  obtain ⟨rfl, hend⟩ | ⟨-, hend⟩ := List.singleton_eq_append_iff.mp he
  · rw [(List.cons.inj hend).1, hq]
    rfl
  · cases hend

theorem toNat_count {sent : ℕ} (hs : sent ≤ 2 ^ 31) : (BitVec.ofNat 64 sent).toNat = sent := by
  rw [BitVec.toNat_ofNat]
  omega

theorem sendLoop_done (socket : ℤ) {buffer : Text} {total : BitVec 64}
    (hd : ¬ total.toNat < buffer.length) (fuel : ℕ) (m : ConnectionManager) :
    sendLoop h socket buffer (fuel + 1) total m = .ok () m := by
  simp only [sendLoop, if_neg hd, run_pure]

theorem sendLoop_step (socket : ℤ) {buffer : Text} (total : BitVec 64) {n : ℕ} (m : ConnectionManager)
    (hl : total.toNat < buffer.length)
    (hn : h.send m.calls socket (buffer.drop total.toNat).length = some n)
    (hne : BitVec.ofInt 32 n ≠ -1) (fuel : ℕ) :
    sendLoop h socket buffer (fuel + 1) total m =
      sendLoop h socket buffer fuel (total + (BitVec.ofInt 32 n).signExtend 64)
        (m.tick.put socket ((buffer.drop total.toNat).take n)) := by
  rw [sendLoop, if_pos hl]
  have hc : sendCall h socket (buffer.drop total.toNat) m =
      .ok (n : ℤ) (m.tick.put socket ((buffer.drop total.toNat).take n)) := by
    simp only [sendCall, hn]
  rw [run_bind_ok hc]
  simp only [if_neg hne]

theorem sendLoop_next (socket : ℤ) {buffer : Text} {sent n : ℕ} (m : ConnectionManager)
    (hlt : sent < buffer.length) (hb : buffer.length ≤ 2 ^ 31)
    (hn : h.send m.calls socket (buffer.drop sent).length = some n) (hsmall : n < 2 ^ 31) (fuel : ℕ) :
    sendLoop h socket buffer (fuel + 1) (BitVec.ofNat 64 sent) m =
      sendLoop h socket buffer fuel (BitVec.ofNat 64 (sent + n))
        (m.tick.put socket ((buffer.drop sent).take n)) := by
  obtain ⟨hne, hext⟩ := narrow_small hsmall
  have htotal := toNat_count (hlt.le.trans hb)
  have hstep := sendLoop_step (h := h) socket (BitVec.ofNat 64 sent) m
      (by rwa [htotal]) (by rwa [htotal]) hne fuel
  rwa [htotal, hext, ← BitVec.ofNat_add] at hstep

end Steps

/-! ## Working hosts -/

section Reliable
variable {h : Host}

/-- The one chunk that does not fit an `int` is the whole buffer, and then the wrapped count ends
the loop as well. -/
theorem sendLoop_wraps (socket : ℤ) {buffer : Text} (m : ConnectionManager)
    (hb : buffer.length = 2 ^ 31)
    (hn : h.send m.calls socket buffer.length = some (2 ^ 31)) (fuel : ℕ) :
    sendLoop h socket buffer (fuel + 2) 0 m = .ok () (m.tick.put socket buffer) := by
  have hstop : ¬ ((0 : BitVec 64) + (BitVec.ofInt 32 ((2 ^ 31 : ℕ) : ℤ)).signExtend 64).toNat <
      buffer.length := by
    rw [show ((0 : BitVec 64) + (BitVec.ofInt 32 ((2 ^ 31 : ℕ) : ℤ)).signExtend 64).toNat =
      2 ^ 64 - 2 ^ 31 by decide]
    omega
  have hstep := sendLoop_step (h := h) socket (0 : BitVec 64) m
      (by rw [hb]; decide) hn (by decide) (fuel + 1)
  rw [hstep, sendLoop_done socket hstop]
  exact congrArg (fun bs => EStateM.Result.ok () (m.tick.put socket bs)) (List.take_of_length_le hb.le)

theorem sendLoop_takes {socket : ℤ} (ht : h.Takes socket) {buffer : Text}
    (hb : buffer.length ≤ 2 ^ 31) (fuel : ℕ) :
    ∀ (sent : ℕ) (m : ConnectionManager), sent ≤ buffer.length → buffer.length - sent < fuel →
      ∃ m', sendLoop h socket buffer fuel (BitVec.ofNat 64 sent) m = .ok () m' ∧
        m.Sent socket (buffer.drop sent) m' := by
  induction fuel with
  | zero => intro sent m _ hf; omega
  | succ fuel ih =>
    intro sent m hs hf
    by_cases hlt : sent < buffer.length
    · have hoff : 0 < (buffer.drop sent).length := by
        rw [List.length_drop]
        omega
      obtain ⟨n, hn⟩ := ht.send m.calls _ hoff
      obtain ⟨hn1, hnle⟩ := h.send_some hn
      rw [List.length_drop] at hnle
      by_cases hsmall : n < 2 ^ 31
      · have hput : m.Sent socket ((buffer.drop sent).take n)
            (m.tick.put socket ((buffer.drop sent).take n)) := rfl
        obtain ⟨m', hrun, hsent⟩ := ih (sent + n) _ (by omega) (by omega)
        refine ⟨m', (sendLoop_next socket m hlt hb hn hsmall fuel).trans hrun, ?_⟩
        have hall := hput.trans hsent
        rwa [← List.drop_drop, List.take_append_drop] at hall
      · obtain rfl : sent = 0 := by omega
        obtain rfl : n = 2 ^ 31 := by omega
        obtain ⟨f, rfl⟩ : ∃ f, fuel = f + 1 := ⟨fuel - 1, by omega⟩
        have hlen : buffer.length = 2 ^ 31 := by omega
        exact ⟨_, sendLoop_wraps socket m hlen hn f, rfl⟩
    · have heq : sent = buffer.length := by omega
      refine ⟨m, sendLoop_done socket (by rw [toNat_count (hs.trans hb)]; omega) fuel m, ?_⟩
      rw [heq, List.drop_length]
      exact .refl m socket

theorem sendData_takes {m : ConnectionManager} {sockfd : ℤ} (ht : h.Takes (m.socketOf sockfd))
    (bs : Text) (hb : bs.length ≤ 2 ^ 31) {fuel : ℕ} (hf : bs.length < fuel) :
    ∃ m', sendData h fuel (some bs) bs.length sockfd m = .ok () m' ∧
      m.Sent (m.socketOf sockfd) bs m' := by
  rcases eq_or_ne bs [] with rfl | hne
  · exact ⟨m, rfl, .refl m _⟩
  · obtain ⟨m', hrun, hsent⟩ :=
      sendLoop_takes ht hb fuel 0 m.tick (Nat.zero_le _) (by omega)
    refine ⟨m', ?_, (ConnectionManager.tick_sent m _).trans hsent⟩
    rw [sendData_start hne, run_bind_ok (awaitReady_ready (ht.selectWrite _) _)]
    exact hrun

theorem sendPacket_takes {m : ConnectionManager} {sockfd : ℤ} (ht : h.Takes (m.socketOf sockfd))
    {p : Packet} (hp : p.Exact) (hs : p.bytes.length ≤ 2 ^ 31) {fuel : ℕ} (hf : p.wire.length < fuel) :
    ∃ m', sendPacket h fuel p sockfd m = .ok () m' ∧ m.Sent (m.socketOf sockfd) p.wire m' := by
  have hwl := Packet.wire_length hp
  have hhl := headerBytes_length p.toHeader
  obtain ⟨m₁, hrun₁, hsent₁⟩ := sendData_takes ht (headerBytes p.toHeader)
    (by rw [hhl]; decide) (show _ < fuel by omega)
  rw [hhl] at hrun₁
  have hsock := hsent₁.socketOf sockfd
  rcases hpl : p.payload with _ | bs
  · have h0 : p.bytes = [] := by rw [Packet.bytes, hpl, Option.getD_none]
    have hz : p.payloadSize.toNat = 0 := by rw [← hp, h0, List.length_nil]
    refine ⟨m₁, ?_, ?_⟩
    · rw [sendPacket, run_bind_ok hrun₁]
      simp only [sendData, hz, if_true, run_pure]
    · rwa [Packet.wire, h0, List.append_nil]
  · have hbytes : p.bytes = bs := by rw [Packet.bytes, hpl, Option.getD_some]
    have hsize : p.payloadSize.toNat = bs.length := by rw [← hp, hbytes]
    obtain ⟨m₂, hrun₂, hsent₂⟩ := sendData_takes (m := m₁) (hsock.symm ▸ ht) bs (hbytes ▸ hs)
      (show _ < fuel by omega)
    refine ⟨m₂, ?_, ?_⟩
    · rw [sendPacket, run_bind_ok hrun₁, hpl, hsize, hrun₂]
    · rw [hsock] at hsent₂
      rw [Packet.wire, hbytes]
      exact hsent₁.trans hsent₂

theorem receiveLoop_reliable (hr : h.Receives) (socket : ℤ) (fuel : ℕ) :
    ∀ (left : ℕ) (got : Text) (m : ConnectionManager), left ≤ fuel → left ≤ (m.inbox socket).length →
      ∃ m', receiveLoop h socket fuel left got m = .ok (got ++ (m.inbox socket).take left) m' ∧
        m.Took socket left m' := by
  induction fuel with
  | zero =>
    intro left got m hf _
    obtain rfl : left = 0 := by omega
    exact ⟨m, by simp only [receiveLoop, run_pure, List.take_zero, List.append_nil], .refl m socket⟩
  | succ fuel ih =>
    intro left got m hf hl
    by_cases h0 : left = 0
    · subst h0
      exact ⟨m, by simp only [receiveLoop, if_true, run_pure, List.take_zero, List.append_nil],
        .refl m socket⟩
    have hmin : min left (m.inbox socket).length = left := Nat.min_eq_left hl
    obtain ⟨n, hn⟩ := hr.recv m.calls socket left (by omega)
    obtain ⟨hn1, hnle⟩ := h.recv_some hn
    have hne : m.inbox socket ≠ [] := by
      intro he
      rw [he, List.length_nil] at hl
      omega
    have hc : recvCall h socket left m =
        .ok (.chunk ((m.inbox socket).take n)) (m.tick.take socket n) := by
      simp only [recvCall, if_neg hne, hmin, hn]
    have htook : m.Took socket n (m.tick.take socket n) := rfl
    have hlen : ((m.inbox socket).take n).length = n := by
      rw [List.length_take]
      omega
    obtain ⟨m', hrun, ht⟩ := ih (left - n) (got ++ (m.inbox socket).take n) (m.tick.take socket n)
      (by omega) (by rw [htook.inbox_self, List.length_drop]; omega)
    refine ⟨m', ?_, ?_⟩
    · rw [receiveLoop, if_neg h0, run_bind_ok hc]
      simp only [hlen]
      rw [hrun, htook.inbox_self, List.append_assoc]
      congr 2
      rw [← List.take_add, Nat.add_sub_cancel' hnle]
    · have := htook.trans ht
      rwa [Nat.add_sub_cancel' hnle] at this

theorem receiveData_reliable (hr : h.Receives) {size : ℕ} (m : ConnectionManager) (sockfd : ℤ)
    (hs : size ≤ (m.inbox (m.socketOf sockfd)).length) :
    ∃ m', receiveData h size sockfd m = .ok ((m.inbox (m.socketOf sockfd)).take size) m' ∧
      m.Took (m.socketOf sockfd) size m' := by
  by_cases h0 : size = 0
  · subst h0
    exact ⟨m, by simp only [receiveData, if_true, run_pure, List.take_zero], .refl m _⟩
  · obtain ⟨m', hrun, ht⟩ := receiveLoop_reliable hr (m.socketOf sockfd) size size [] m.tick le_rfl hs
    refine ⟨m', ?_, ?_⟩
    · rw [receiveData, if_neg h0, run_bind_ok (run_get m),
        run_bind_ok (awaitReady_ready (hr.selectRead _ _) _)]
      rw [List.nil_append] at hrun
      exact hrun
    · simpa only [Nat.zero_add] using (ConnectionManager.tick_took m _).trans ht

theorem frameCodec_decode {s : Text} {f : {f : Header × Text // f.2.length = f.1.payloadSize.toNat}}
    {rest : Text} (hd : frameCodec.decode s = some (f, rest)) :
    headerSize ≤ s.length ∧ f.1.1 = readHeader (s.take headerSize) ∧
      f.1.2 = (s.drop headerSize).take f.1.1.payloadSize.toNat ∧
      f.1.1.payloadSize.toNat ≤ (s.drop headerSize).length ∧
      rest = (s.drop headerSize).drop f.1.1.payloadSize.toNat := by
  simp only [frameCodec, Codec.withBody, Codec.fixed, Option.bind_eq_some_iff] at hd
  obtain ⟨⟨header, s'⟩, hfix, hbody⟩ := hd
  split_ifs at hfix with hlen
  obtain ⟨rfl, rfl⟩ := Prod.mk.inj (Option.some.inj hfix)
  split_ifs at hbody with hsize
  obtain ⟨rfl, rfl⟩ := Prod.mk.inj (Option.some.inj hbody)
  exact ⟨by omega, rfl, rfl, hsize, rfl⟩

theorem frameCodec_decodes {s : Text} (hheader : headerSize ≤ s.length)
    (hbody : (readHeader (s.take headerSize)).payloadSize.toNat ≤ (s.drop headerSize).length) :
    ∃ f rest, frameCodec.decode s = some (f, rest) ∧ f.1 = (readHeader (s.take headerSize),
      (s.drop headerSize).take (readHeader (s.take headerSize)).payloadSize.toNat) := by
  simp only [frameCodec, Codec.withBody, Codec.fixed, if_neg (Nat.not_lt.mpr hheader), Option.bind_some,
    dif_pos hbody]
  exact ⟨_, _, rfl, rfl⟩

theorem receivePacket_reliable (hr : h.Receives) {m : ConnectionManager} {sockfd : ℤ}
    {f : {f : Header × Text // f.2.length = f.1.payloadSize.toNat}} {rest : Text}
    (hd : frameCodec.decode (m.inbox (m.socketOf sockfd)) = some (f, rest)) :
    ∃ q m', receivePacket h sockfd m = .ok q m' ∧ q.content = f.1 ∧ m'.sockfd = m.sockfd ∧
      m'.inbox (m.socketOf sockfd) = rest := by
  obtain ⟨hlen, hheader, hbody, hsize, rfl⟩ := frameCodec_decode hd
  obtain ⟨m₁, hrun₁, ht₁⟩ := receiveData_reliable hr m sockfd hlen
  have hsock := ht₁.socketOf sockfd
  by_cases h0 : f.1.1.payloadSize.toNat = 0
  · refine ⟨⟨f.1.1, none⟩, m₁, ?_, Prod.ext rfl ?_, ht₁.sockfd, ?_⟩
    · rw [receivePacket, run_bind_ok hrun₁, ← hheader]
      simp only [h0, if_true, run_pure]
    · rw [hbody, h0, List.take_zero]
      rfl
    · rw [ht₁.inbox_self, h0, List.drop_zero]
  · obtain ⟨m₂, hrun₂, ht₂⟩ := receiveData_reliable hr m₁ sockfd
      (show f.1.1.payloadSize.toNat ≤ _ by rwa [hsock, ht₁.inbox_self])
    rw [hsock, ht₁.inbox_self] at hrun₂
    refine ⟨⟨f.1.1, some f.1.2⟩, m₂, ?_, rfl, ht₂.sockfd.trans ht₁.sockfd, ?_⟩
    · rw [receivePacket, run_bind_ok hrun₁, ← hheader]
      simp only [h0, if_false, hr.alloc, if_true]
      rw [run_bind_ok hrun₂, run_pure, ← hbody]
    · rw [hsock] at ht₂
      rw [ht₂.inbox_self, ht₁.inbox_self]

end Reliable

/-! ## Any host -/

section Any
variable {h : Host}

theorem recvCall_cases (h : Host) (socket : ℤ) (want : ℕ) (m : ConnectionManager) :
    recvCall h socket want m = .ok .closed m.tick ∨ recvCall h socket want m = .ok .failed m.tick ∨
      ∃ n, 1 ≤ n ∧ n ≤ want ∧ n ≤ (m.inbox socket).length ∧
        recvCall h socket want m = .ok (.chunk ((m.inbox socket).take n)) (m.tick.take socket n) := by
  unfold recvCall
  by_cases hne : m.inbox socket = []
  · rw [if_pos hne]
    split_ifs
    exacts [.inl rfl, .inr (.inl rfl)]
  · rw [if_neg hne]
    cases hn : h.recv m.calls socket (min want (m.inbox socket).length) with
    | none => exact .inr (.inl rfl)
    | some n =>
      obtain ⟨hn1, hnle⟩ := h.recv_some hn
      exact .inr (.inr ⟨n, hn1, by omega, by omega, rfl⟩)

theorem receiveLoop_took (socket : ℤ) (fuel : ℕ) :
    ∀ (left : ℕ) (got : Text) (m : ConnectionManager), left ≤ fuel →
    ∃ n ≤ (m.inbox socket).length, m.Took socket n (final (receiveLoop h socket fuel left got m)) ∧
      (Returns (receiveLoop h socket fuel left got m) → n = left) := by
  induction fuel with
  | zero =>
    intro left got m hf
    exact ⟨0, Nat.zero_le _, .refl m socket, fun _ => by omega⟩
  | succ fuel ih =>
    intro left got m hf
    by_cases h0 : left = 0
    · rw [receiveLoop, if_pos h0]
      exact ⟨0, Nat.zero_le _, .refl m socket, fun _ => h0.symm⟩
    rw [receiveLoop, if_neg h0]
    have htick := ConnectionManager.tick_took m socket
    rcases recvCall_cases h socket left m with hc | hc | ⟨k, hk1, hkleft, hkle, hc⟩
    · rw [run_bind_ok hc]
      exact ⟨0, Nat.zero_le _, htick, fun hr => absurd hr (not_returns_error _ _)⟩
    · rw [run_bind_ok hc]
      exact ⟨0, Nat.zero_le _, htick, fun hr => absurd hr (not_returns_error _ _)⟩
    · have htook : m.Took socket k (m.tick.take socket k) := rfl
      rw [run_bind_ok hc]
      simp only [List.length_take_of_le hkle]
      obtain ⟨n, hle, ht, hret⟩ := ih (left - k) (got ++ (m.inbox socket).take k)
        (m.tick.take socket k) (by omega)
      rw [htook.inbox_self, List.length_drop] at hle
      refine ⟨k + n, by omega, htook.trans ht, fun hr => ?_⟩
      have hrest := hret hr
      omega

theorem receiveData_took (size : ℕ) (sockfd : ℤ) (m : ConnectionManager) :
    ∃ n ≤ (m.inbox (m.socketOf sockfd)).length,
      m.Took (m.socketOf sockfd) n (final (receiveData h size sockfd m)) ∧
      (Returns (receiveData h size sockfd m) → n = size) := by
  by_cases h0 : size = 0
  · rw [receiveData, if_pos h0]
    exact ⟨0, Nat.zero_le _, .refl m _, fun _ => h0.symm⟩
  rw [receiveData, if_neg h0, run_bind_ok (run_get m)]
  have htick := ConnectionManager.tick_took m (m.socketOf sockfd)
  rcases awaitReady_cases h.selectRead (m.socketOf sockfd) (recievingFailed (m.socketOf sockfd)) m with
    hready | ⟨what, hready⟩
  · rw [run_bind_ok hready]
    obtain ⟨n, hle, ht, hret⟩ :=
      receiveLoop_took (h := h) (m.socketOf sockfd) size size [] m.tick le_rfl
    refine ⟨n, hle, ?_, hret⟩
    simpa only [Nat.zero_add] using htick.trans ht
  · rw [run_bind_error hready]
    exact ⟨0, Nat.zero_le _, htick, fun hr => absurd hr (not_returns_error _ _)⟩

/-- Whatever happens, `receive_packet` leaves a suffix of the stream; a packet it returns took
its header and its payload, nothing more. -/
theorem receivePacket_took (sockfd : ℤ) (m : ConnectionManager) :
    ∃ n ≤ (m.inbox (m.socketOf sockfd)).length,
      m.Took (m.socketOf sockfd) n (final (receivePacket h sockfd m)) ∧
      ∀ q m', receivePacket h sockfd m = .ok q m' → n = headerSize + q.payloadSize.toNat := by
  obtain ⟨n₁, hle₁, ht₁, hret₁⟩ := receiveData_took (h := h) headerSize sockfd m
  cases hrun₁ : receiveData h headerSize sockfd m with
  | error e m₁ =>
    rw [receivePacket, run_bind_error hrun₁]
    rw [hrun₁] at ht₁
    exact ⟨n₁, hle₁, ht₁, fun q m' hq => by cases hq⟩
  | ok bs m₁ =>
    rw [hrun₁] at ht₁ hret₁
    rw [final_ok] at ht₁
    have hn₁ : n₁ = headerSize := hret₁ (returns_ok _ _)
    have hsock := ht₁.socketOf sockfd
    rw [receivePacket, run_bind_ok hrun₁]
    by_cases h0 : (readHeader bs).payloadSize.toNat = 0
    · simp only [h0, if_true, run_pure, final_ok]
      refine ⟨n₁, hle₁, ht₁, fun q m' hq => ?_⟩
      cases hq
      simp only [h0, hn₁, Nat.add_zero]
    simp only [h0, if_false]
    by_cases ha : h.alloc (readHeader bs).payloadSize.toNat
    · obtain ⟨n₂, hle₂, ht₂, hret₂⟩ :=
        receiveData_took (h := h) (readHeader bs).payloadSize.toNat sockfd m₁
      rw [hsock] at hle₂ ht₂
      rw [ht₁.inbox_self, List.length_drop] at hle₂
      refine ⟨n₁ + n₂, by omega, ?_, ?_⟩
      · simp only [ha, if_true]
        cases hrun₂ : receiveData h (readHeader bs).payloadSize.toNat sockfd m₁ with
        | error e m₂ =>
          rw [run_bind_error hrun₂]
          rw [hrun₂] at ht₂
          exact ht₁.trans ht₂
        | ok bs' m₂ =>
          rw [run_bind_ok hrun₂]
          rw [hrun₂] at ht₂
          exact ht₁.trans ht₂
      · simp only [ha, if_true]
        intro q m' hq
        obtain ⟨bs', m₂, hrun₂, hq⟩ := run_bind_inv hq
        rw [hrun₂] at hret₂
        cases hq
        rw [hn₁, hret₂ (returns_ok _ _)]
    · simp only [ha]
      exact ⟨n₁, hle₁, ht₁, fun q m' hq => by cases hq⟩

theorem receiveLoop_bytes (socket : ℤ) (fuel : ℕ) :
    ∀ {left : ℕ} {got bs : Text} {m m' : ConnectionManager}, left ≤ fuel →
      receiveLoop h socket fuel left got m = .ok bs m' → bs = got ++ (m.inbox socket).take left := by
  induction fuel with
  | zero =>
    intro left got bs m m' hf hr
    cases hr
    rw [Nat.le_zero.mp hf, List.take_zero, List.append_nil]
  | succ fuel ih =>
    intro left got bs m m' hf hr
    rw [receiveLoop] at hr
    split_ifs at hr with h0
    · cases hr
      rw [h0, List.take_zero, List.append_nil]
    · rcases recvCall_cases h socket left m with hc | hc | ⟨n, hn1, hwant, hle, hc⟩
      · rw [run_bind_ok hc] at hr
        cases hr
      · rw [run_bind_ok hc] at hr
        cases hr
      · rw [run_bind_ok hc] at hr
        dsimp only at hr
        rw [List.length_take_of_le hle] at hr
        have hbs := ih (by omega) hr
        have htook : m.Took socket n (m.tick.take socket n) := rfl
        rw [htook.inbox_self, List.append_assoc, ← List.take_add, Nat.add_sub_of_le hwant] at hbs
        exact hbs

theorem receiveData_bytes {size : ℕ} {sockfd : ℤ} {bs : Text} {m m' : ConnectionManager}
    (hr : receiveData h size sockfd m = .ok bs m') : bs = (m.inbox (m.socketOf sockfd)).take size := by
  rw [receiveData] at hr
  split_ifs at hr with h0
  · cases hr
    rw [h0, List.take_zero]
  · rw [run_bind_ok (run_get m)] at hr
    rcases awaitReady_cases h.selectRead (m.socketOf sockfd)
        (recievingFailed (m.socketOf sockfd)) m with
      hready | ⟨what, hready⟩
    · rw [run_bind_ok hready] at hr
      exact receiveLoop_bytes (m.socketOf sockfd) size le_rfl hr
    · rw [run_bind_error hready] at hr
      cases hr

theorem receiveData_length {size : ℕ} {sockfd : ℤ} {bs : Text} {m m' : ConnectionManager}
    (hr : receiveData h size sockfd m = .ok bs m') : bs.length = size := by
  obtain ⟨n, hle, -, hn⟩ := receiveData_took (h := h) size sockfd m
  rw [hn (hr ▸ returns_ok _ _)] at hle
  rw [receiveData_bytes hr, List.length_take_of_le hle]

theorem receivePacket_reads {sockfd : ℤ} {p : Packet} {m m' : ConnectionManager}
    (hr : receivePacket h sockfd m = .ok p m') :
    p.toHeader = readHeader ((m.inbox (m.socketOf sockfd)).take headerSize) ∧
      p.payload = if p.payloadSize.toNat = 0 then none
        else some (((m.inbox (m.socketOf sockfd)).drop headerSize).take p.payloadSize.toNat) := by
  obtain ⟨bs, m₁, hheader, hr⟩ := run_bind_inv hr
  have hbs := receiveData_bytes hheader
  obtain ⟨n, -, htook, hn⟩ := receiveData_took (h := h) headerSize sockfd m
  rw [hheader, final_ok, hn (hheader ▸ returns_ok _ _)] at htook
  dsimp only at hr
  split_ifs at hr with h0
  · cases hr
    exact ⟨congrArg readHeader hbs, (if_pos h0).symm⟩
  · obtain ⟨payload, m₂, hpayload, hr⟩ := run_bind_inv hr
    have hbytes := receiveData_bytes hpayload
    rw [htook.socketOf, htook.inbox_self] at hbytes
    cases hr
    exact ⟨congrArg readHeader hbs, (congrArg some hbytes).trans (if_neg h0).symm⟩
  · cases hr

theorem receivePacket_decodes {sockfd : ℤ} {p : Packet} {m m' : ConnectionManager}
    (hr : receivePacket h sockfd m = .ok p m') (later : Text) :
    ∃ f rest, frameCodec.decode (m.inbox (m.socketOf sockfd) ++ later) = some (f, rest) ∧
      f.1 = p.content := by
  obtain ⟨hheader, hpayload⟩ := receivePacket_reads hr
  obtain ⟨n, hle, -, hn⟩ := receivePacket_took (h := h) sockfd m
  rw [hn p m' hr] at hle
  have htake : (m.inbox (m.socketOf sockfd) ++ later).take headerSize =
      (m.inbox (m.socketOf sockfd)).take headerSize := List.take_append_of_le_length (by omega)
  have hdrop : (m.inbox (m.socketOf sockfd) ++ later).drop headerSize =
      (m.inbox (m.socketOf sockfd)).drop headerSize ++ later := List.drop_append_of_le_length (by omega)
  have hrest : p.payloadSize.toNat ≤ ((m.inbox (m.socketOf sockfd)).drop headerSize).length := by
    rw [List.length_drop]
    omega
  have hbytes : p.bytes = ((m.inbox (m.socketOf sockfd)).drop headerSize).take p.payloadSize.toNat := by
    rw [Packet.bytes, hpayload]
    split_ifs with h0
    · rw [h0, List.take_zero]
      rfl
    · rfl
  obtain ⟨f, rest, hdecode, hf⟩ := frameCodec_decodes (s := m.inbox (m.socketOf sockfd) ++ later)
    (by rw [List.length_append]; omega)
    (by rw [htake, ← hheader, hdrop, List.length_append]; omega)
  refine ⟨f, rest, hdecode, hf.trans ?_⟩
  rw [htake, ← hheader, hdrop, List.take_append_of_le_length hrest, ← hbytes]
  rfl

theorem receivePacket_exact {sockfd : ℤ} {p : Packet} {m m' : ConnectionManager}
    (hr : receivePacket h sockfd m = .ok p m') : p.Exact := by
  obtain ⟨bs, m₁, -, hr⟩ := run_bind_inv hr
  dsimp only at hr
  split_ifs at hr with h0
  · cases hr
    exact h0.symm
  · obtain ⟨payload, m₂, hpayload, hr⟩ := run_bind_inv hr
    cases hr
    exact receiveData_length hpayload
  · cases hr

theorem sendLoop_sent (socket : ℤ) {buffer : Text} (hb : buffer.length < 2 ^ 31) (fuel : ℕ) :
    ∀ (sent : ℕ) (m : ConnectionManager), sent ≤ buffer.length →
      ∃ out, out <+: buffer.drop sent ∧
        m.Sent socket out (final (sendLoop h socket buffer fuel (BitVec.ofNat 64 sent) m)) ∧
        (Returns (sendLoop h socket buffer fuel (BitVec.ofNat 64 sent) m) →
          out = buffer.drop sent) := by
  induction fuel with
  | zero => exact fun sent m _ =>
      ⟨[], List.nil_prefix, .refl m socket, fun hr => absurd hr (not_returns_error _ _)⟩
  | succ fuel ih =>
    intro sent m hs
    have htotal := toNat_count (hs.trans hb.le)
    by_cases hlt : sent < buffer.length
    · cases hn : h.send m.calls socket (buffer.drop sent).length with
      | none =>
        have hc : sendCall h socket (buffer.drop sent) m = .ok (-1) m.tick := by
          simp only [sendCall, hn]
        rw [sendLoop, if_pos (by rwa [htotal]), htotal, run_bind_ok hc]
        exact ⟨[], List.nil_prefix, ConnectionManager.tick_sent m socket,
          fun hr => absurd hr (not_returns_error _ _)⟩
      | some n =>
        obtain ⟨hn1, hnle⟩ := h.send_some hn
        rw [List.length_drop] at hnle
        rw [sendLoop_next socket m hlt hb.le hn (by omega)]
        have hput : m.Sent socket ((buffer.drop sent).take n)
            (m.tick.put socket ((buffer.drop sent).take n)) := rfl
        obtain ⟨out, hout, hsent, hret⟩ := ih (sent + n) (m.tick.put socket ((buffer.drop sent).take n))
          (by omega)
        have hwhole : (buffer.drop sent).take n ++ buffer.drop (sent + n) = buffer.drop sent := by
          rw [← List.drop_drop, List.take_append_drop]
        refine ⟨_, ?_, hput.trans hsent, fun hr => by rw [hret hr, hwhole]⟩
        obtain ⟨unsent, hunsent⟩ := hout
        exact ⟨unsent, by rw [List.append_assoc, hunsent, hwhole]⟩
    · have heq : sent = buffer.length := by omega
      rw [sendLoop_done socket (by rw [htotal]; omega) fuel m]
      exact ⟨[], List.nil_prefix, .refl m socket, fun _ => by rw [heq, List.drop_length]⟩

theorem sendData_sent {bs : Text} (hb : bs.length < 2 ^ 31) (fuel : ℕ) (sockfd : ℤ)
    (m : ConnectionManager) :
    ∃ out, out <+: bs ∧ m.Sent (m.socketOf sockfd) out
      (final (sendData h fuel (some bs) bs.length sockfd m)) ∧
      (Returns (sendData h fuel (some bs) bs.length sockfd m) → out = bs) := by
  have htick := ConnectionManager.tick_sent m (m.socketOf sockfd)
  rcases eq_or_ne bs [] with rfl | hne
  · exact ⟨[], List.nil_prefix, .refl m _, fun _ => rfl⟩
  rw [sendData_start hne]
  rcases awaitReady_cases h.selectWrite (m.socketOf sockfd) (sendingFailed (m.socketOf sockfd)) m with
    hready | ⟨what, hready⟩
  · rw [run_bind_ok hready]
    obtain ⟨out, hout, hsent, hret⟩ := sendLoop_sent (h := h) (m.socketOf sockfd) hb fuel 0 m.tick
      (Nat.zero_le _)
    exact ⟨out, hout, htick.trans hsent, hret⟩
  · rw [run_bind_error hready]
    exact ⟨[], List.nil_prefix, htick, fun hr => absurd hr (not_returns_error _ _)⟩

theorem sendData_bare {payload : Option Text} (hp : payload.getD [] = []) (fuel size : ℕ) (sockfd : ℤ)
    (m : ConnectionManager) :
      m.Sent (m.socketOf sockfd) [] (final (sendData h fuel payload size sockfd m)) := by
  have htick := ConnectionManager.tick_sent m (m.socketOf sockfd)
  by_cases h0 : size = 0
  · rw [sendData, if_pos h0]
    exact .refl m _
  rw [sendData, if_neg h0, run_bind_ok (run_get m)]
  rcases awaitReady_cases h.selectWrite (m.socketOf sockfd) (sendingFailed (m.socketOf sockfd)) m with
    hready | ⟨what, hready⟩
  · rw [run_bind_ok hready]
    cases payload with
    | none => exact htick
    | some bs =>
      rw [Option.getD_some] at hp
      subst hp
      simp only [List.length_nil, Nat.pos_of_ne_zero h0, if_true]
      exact htick
  · rw [run_bind_error hready]
    exact htick

theorem sendData_null {size : ℕ} (hs : size ≠ 0) (fuel : ℕ) (sockfd : ℤ) (m : ConnectionManager) :
    ∃ what m', sendData h fuel none size sockfd m = .error (.raised what) m' := by
  rw [sendData, if_neg hs, run_bind_ok (run_get m)]
  rcases awaitReady_cases h.selectWrite (m.socketOf sockfd) (sendingFailed (m.socketOf sockfd)) m with
    hready | ⟨what, hready⟩
  · exact ⟨_, _, run_bind_ok hready _⟩
  · exact ⟨what, _, run_bind_error hready _⟩

theorem sendPacket_bare {p : Packet} (hp : p.bytes = []) (fuel : ℕ) (sockfd : ℤ)
    (m : ConnectionManager) :
    ∃ out, out <+: p.wire ∧ m.Sent (m.socketOf sockfd) out (final (sendPacket h fuel p sockfd m)) ∧
      (Returns (sendPacket h fuel p sockfd m) → out = p.wire) := by
  have hhl := headerBytes_length p.toHeader
  have hwire : p.wire = headerBytes p.toHeader := by rw [Packet.wire, hp, List.append_nil]
  have hsmall : (headerBytes p.toHeader).length < 2 ^ 31 := by
    rw [hhl]
    decide
  obtain ⟨out, hout, hsent, hret⟩ := sendData_sent (h := h) hsmall fuel sockfd m
  rw [hhl] at hsent hret
  rw [hwire, sendPacket]
  cases hr : sendData h fuel (some (headerBytes p.toHeader)) headerSize sockfd m with
  | error e m₁ =>
    rw [run_bind_error hr]
    rw [hr] at hsent
    exact ⟨out, hout, hsent, fun hf => absurd hf (not_returns_error _ _)⟩
  | ok u m₁ =>
    rw [run_bind_ok hr]
    rw [hr] at hsent hret
    rw [final_ok] at hsent
    have hsock := hsent.socketOf sockfd
    have hbody := sendData_bare (h := h) hp fuel p.payloadSize.toNat sockfd m₁
    rw [hsock] at hbody
    refine ⟨out, hout, ?_, fun _ => hret (returns_ok _ _)⟩
    simpa only [List.append_nil] using hsent.trans hbody

/-! ## Whether a buffer gets started -/

def Host.Refuses (h : Host) (m : ConnectionManager) (socket : ℤ) (size : ℕ) : Prop :=
  h.selectWrite m.calls socket ≠ .ready ∨ h.send (m.calls + 1) socket size = none

section Starting
variable {bs : Text} {sockfd : ℤ} {m : ConnectionManager}

theorem sendData_refused (hb : bs ≠ []) (hr : h.Refuses m (m.socketOf sockfd) bs.length) (fuel : ℕ) :
    ∃ what m', sendData h (fuel + 1) (some bs) bs.length sockfd m = .error (.raised what) m' ∧
      m.Sent (m.socketOf sockfd) [] m' := by
  have htick := ConnectionManager.tick_sent m (m.socketOf sockfd)
  rw [sendData_start hb]
  rcases awaitReady_cases h.selectWrite (m.socketOf sockfd) (sendingFailed (m.socketOf sockfd)) m with
    hready | ⟨what, hwhat⟩
  · have hnone : h.send m.tick.calls (m.socketOf sockfd) bs.length = none := by
      refine hr.resolve_left fun hselect => hselect ?_
      unfold awaitReady at hready
      split at hready
      · assumption
      · cases hready
      · cases hready
    have hcall : sendCall h (m.socketOf sockfd) (bs.drop 0) m.tick = .ok (-1) m.tick.tick := by
      simp only [sendCall, List.drop_zero, hnone]
    refine ⟨sendingFailed (m.socketOf sockfd), m.tick.tick, ?_,
      htick.trans (ConnectionManager.tick_sent _ _)⟩
    have hlt : (0 : BitVec 64).toNat < bs.length := List.length_pos_iff.mpr hb
    rw [run_bind_ok hready, sendLoop, if_pos hlt]
    exact run_bind_ok hcall _
  · exact ⟨what, m.tick, run_bind_error hwhat _, htick⟩

theorem sendData_started (hb : bs ≠ []) (hlen : bs.length < 2 ^ 31)
    (hr : ¬ h.Refuses m (m.socketOf sockfd) bs.length) (fuel : ℕ) :
    ∃ out, out ≠ [] ∧
      m.Sent (m.socketOf sockfd) out (final (sendData h (fuel + 1) (some bs) bs.length sockfd m)) := by
  have htick := ConnectionManager.tick_sent m (m.socketOf sockfd)
  obtain ⟨hselect, hsend⟩ := not_or.mp hr
  rw [not_not] at hselect
  obtain ⟨n, hn⟩ := Option.ne_none_iff_exists'.mp hsend
  obtain ⟨hn1, hnle⟩ := h.send_some hn
  let m₁ := m.tick.tick.put (m.socketOf sockfd) (bs.take n)
  have hstep : sendLoop h (m.socketOf sockfd) bs (fuel + 1) 0 m.tick =
      sendLoop h (m.socketOf sockfd) bs fuel (BitVec.ofNat 64 (0 + n)) m₁ :=
    sendLoop_next (m.socketOf sockfd) m.tick (List.length_pos_iff.mpr hb) hlen.le hn (by omega) fuel
  obtain ⟨out, -, hsent, -⟩ :=
    sendLoop_sent (h := h) (m.socketOf sockfd) hlen fuel (0 + n) m₁ (by omega)
  have hput : m.tick.Sent (m.socketOf sockfd) (bs.take n) m₁ := rfl
  refine ⟨bs.take n ++ out, ?_, ?_⟩
  · rw [Ne, List.append_eq_nil_iff, List.take_eq_nil_iff]
    rintro ⟨hzero | hnil, -⟩
    exacts [absurd hzero (by omega), hb hnil]
  · rw [sendData_start hb, run_bind_ok (awaitReady_ready hselect _), hstep]
    exact htick.trans (hput.trans hsent)

end Starting

theorem headerBytes_ne_nil (header : Header) : headerBytes header ≠ [] := by
  rw [← List.length_pos_iff, headerBytes_length]
  decide

theorem Packet.wire_ne_nil (p : Packet) : p.wire ≠ [] := by
  intro h
  exact headerBytes_ne_nil p.toHeader (List.append_eq_nil_iff.mp h).1

theorem sendPacket_atOnce {p : Packet} (hp : p.payloadSize.toNat = 0)
    {sockfd : ℤ} {m : ConnectionManager}
    (hselect : h.selectWrite m.calls (m.socketOf sockfd) = .ready)
    (hsend : h.send (m.calls + 1) (m.socketOf sockfd) headerSize = some headerSize) (fuel : ℕ) :
    sendPacket h (fuel + 2) p sockfd m =
      .ok () (m.tick.tick.put (m.socketOf sockfd) (headerBytes p.toHeader)) := by
  have hlen := headerBytes_length p.toHeader
  have hne := headerBytes_ne_nil p.toHeader
  have hsmall : (headerBytes p.toHeader).length < 2 ^ 31 := by
    rw [hlen]
    decide
  have hall : h.send m.tick.calls (m.socketOf sockfd) ((headerBytes p.toHeader).drop 0).length =
      some (headerBytes p.toHeader).length := by
    rwa [List.drop_zero, hlen]
  have hnext := sendLoop_next (h := h) (m.socketOf sockfd) m.tick
      (List.length_pos_iff.mpr hne) hsmall.le
    hall hsmall (fuel + 1)
  rw [Nat.zero_add, List.drop_zero, List.take_length] at hnext
  have hdone : ¬ (BitVec.ofNat 64 (headerBytes p.toHeader).length).toNat <
      (headerBytes p.toHeader).length := by
    rw [toNat_count hsmall.le]
    exact lt_irrefl _
  have hdata : sendData h (fuel + 2) (some (headerBytes p.toHeader)) headerSize sockfd m =
      .ok () (m.tick.tick.put (m.socketOf sockfd) (headerBytes p.toHeader)) := by
    rw [← hlen, sendData_start hne, run_bind_ok (awaitReady_ready hselect _)]
    exact hnext.trans (sendLoop_done _ hdone fuel _)
  rw [sendPacket, run_bind_ok hdata, hp]
  rfl

theorem receiveHeader_atOnce {header : Header} {sockfd : ℤ}
    {m : ConnectionManager} (hinbox : m.inbox (m.socketOf sockfd) = headerBytes header)
    (hselect : h.selectRead m.calls (m.socketOf sockfd) = .ready)
    (hrecv : h.recv (m.calls + 1) (m.socketOf sockfd) headerSize = some headerSize) :
    receiveData h headerSize sockfd m = .ok (headerBytes header)
      (m.tick.tick.take (m.socketOf sockfd) headerSize) := by
  have hlen := headerBytes_length header
  have hcall : recvCall h (m.socketOf sockfd) headerSize m.tick =
      .ok (.chunk (headerBytes header)) (m.tick.tick.take (m.socketOf sockfd) headerSize) := by
    have hne : m.tick.inbox (m.socketOf sockfd) ≠ [] := by
      rw [show m.tick.inbox = m.inbox from rfl, hinbox]
      exact headerBytes_ne_nil header
    have hrecv' : h.recv m.tick.calls (m.socketOf sockfd)
        (min headerSize (m.tick.inbox (m.socketOf sockfd)).length) = some headerSize := by
      rwa [show m.tick.inbox = m.inbox from rfl, hinbox, hlen, Nat.min_self]
    rw [recvCall, if_neg hne, hrecv']
    simp only [show m.tick.inbox = m.inbox from rfl, hinbox, List.take_of_length_le hlen.le]
  have hloop : receiveLoop h (m.socketOf sockfd) headerSize headerSize [] m.tick =
      .ok (headerBytes header) (m.tick.tick.take (m.socketOf sockfd) headerSize) := by
    obtain ⟨k, hk⟩ := Nat.exists_eq_add_one_of_ne_zero (show headerSize ≠ 0 by decide)
    rw [hk] at hcall hlen ⊢
    rw [receiveLoop, if_neg (Nat.succ_ne_zero k), run_bind_ok hcall]
    simp only [hlen, Nat.sub_self, List.nil_append]
    cases k <;> rfl
  rw [receiveData, if_neg (show headerSize ≠ 0 by decide), run_bind_ok (run_get m),
    run_bind_ok (awaitReady_ready hselect _)]
  exact hloop

theorem receivePacket_atOnce {header : Header} (hp : header.payloadSize.toNat = 0) {sockfd : ℤ}
    {m : ConnectionManager} (hinbox : m.inbox (m.socketOf sockfd) = headerBytes header)
    (hselect : h.selectRead m.calls (m.socketOf sockfd) = .ready)
    (hrecv : h.recv (m.calls + 1) (m.socketOf sockfd) headerSize = some headerSize) :
    receivePacket h sockfd m = .ok ⟨header, none⟩
      (m.tick.tick.take (m.socketOf sockfd) headerSize) := by
  rw [receivePacket, run_bind_ok (receiveHeader_atOnce hinbox hselect hrecv), readHeader_headerBytes]
  simp only [hp, if_true, run_pure]

theorem sendPacket_refused (p : Packet) {sockfd : ℤ} {m : ConnectionManager}
    (hr : h.Refuses m (m.socketOf sockfd) headerSize) (fuel : ℕ) :
    ∃ what m', sendPacket h (fuel + 1) p sockfd m = .error (.raised what) m' ∧
      m.Sent (m.socketOf sockfd) [] m' := by
  have hlen := headerBytes_length p.toHeader
  obtain ⟨what, m', hrun, hsent⟩ := sendData_refused (h := h) (headerBytes_ne_nil p.toHeader)
    (by rwa [hlen]) fuel
  rw [hlen] at hrun
  exact ⟨what, m', run_bind_error hrun _, hsent⟩

theorem sendPacket_started {p : Packet} (hp : p.bytes = []) {sockfd : ℤ} {m : ConnectionManager}
    (hr : ¬ h.Refuses m (m.socketOf sockfd) headerSize) (fuel : ℕ) :
    ∃ out, out ≠ [] ∧ m.Sent (m.socketOf sockfd) out (final (sendPacket h (fuel + 1) p sockfd m)) := by
  have hlen := headerBytes_length p.toHeader
  obtain ⟨out, hne, hsent⟩ := sendData_started (h := h) (headerBytes_ne_nil p.toHeader)
    (by rw [hlen]; decide) (by rwa [hlen]) fuel
  rw [hlen] at hsent
  refine ⟨out, hne, ?_⟩
  rw [sendPacket]
  cases hrun : sendData h (fuel + 1) (some (headerBytes p.toHeader)) headerSize sockfd m with
  | error e m₁ =>
    rw [run_bind_error hrun]
    rwa [hrun] at hsent
  | ok u m₁ =>
    rw [run_bind_ok hrun]
    rw [hrun, final_ok] at hsent
    have hsock := hsent.socketOf sockfd
    have hbody := sendData_bare (h := h) hp (fuel + 1) p.payloadSize.toNat sockfd m₁
    rw [hsock] at hbody
    simpa only [List.append_nil] using hsent.trans hbody

end Any

/-! ## What a send leaves alone -/

section Writing
variable {h : Host}

structure WritesTo (socket : ℤ) (m m' : ConnectionManager) : Prop where
  inbox : m'.inbox = m.inbox
  sockfd : m'.sockfd = m.sockfd
  grows : m.outbox socket <+: m'.outbox socket
  outbox : ∀ fd, fd ≠ socket → m'.outbox fd = m.outbox fd

instance (socket : ℤ) : Std.Refl (WritesTo socket) :=
  ⟨fun _ => ⟨rfl, rfl, List.prefix_refl _, fun _ _ => rfl⟩⟩

instance (socket : ℤ) : IsTrans ConnectionManager (WritesTo socket) :=
  ⟨fun _ _ _ h₁ h₂ => ⟨h₂.inbox.trans h₁.inbox, h₂.sockfd.trans h₁.sockfd, h₁.grows.trans h₂.grows,
    fun fd hfd => (h₂.outbox fd hfd).trans (h₁.outbox fd hfd)⟩⟩

theorem sendLoop_writesTo (socket : ℤ) (buffer : Text) (fuel : ℕ) (totalSent : BitVec 64) :
    Kept (WritesTo socket) (sendLoop h socket buffer fuel totalSent) := by
  have hcall (rest : Text) : Kept (WritesTo socket) (sendCall h socket rest) := by
    intro m
    unfold sendCall
    split
    · exact ⟨rfl, rfl, List.prefix_refl _, fun _ _ => rfl⟩
    · refine ⟨rfl, rfl, ?_, fun fd hfd => ConnectionManager.put_outbox_ne _ _ hfd⟩
      rw [final_ok, ConnectionManager.put_outbox_self]
      exact List.prefix_append _ _
  induction fuel generalizing totalSent with
  | zero => exact Kept.crash _
  | succ fuel ih =>
    unfold sendLoop
    split_ifs
    · refine Kept.bind (hcall _) fun accepted => ?_
      dsimp only
      split_ifs
      exacts [Kept.raise _, ih _]
    · exact Kept.pure _

def WritesOn (sockfd : ℤ) (m m' : ConnectionManager) : Prop := WritesTo (m.socketOf sockfd) m m'

instance (sockfd : ℤ) : Std.Refl (WritesOn sockfd) := ⟨fun m => refl_of (WritesTo _) m⟩

instance (sockfd : ℤ) : IsTrans ConnectionManager (WritesOn sockfd) := ⟨fun m m' m'' h₁ h₂ => by
  have hsame : m'.socketOf sockfd = m.socketOf sockfd := by
    rw [ConnectionManager.socketOf, ConnectionManager.socketOf, h₁.sockfd]
  unfold WritesOn at h₁ h₂ ⊢
  rw [hsame] at h₂
  exact trans_of _ h₁ h₂⟩

theorem sendData_writesOn (fuel : ℕ) (buffer : Option Text) (size : ℕ) (sockfd : ℤ) :
    Kept (WritesOn sockfd) (sendData h fuel buffer size sockfd) := by
  intro m
  have hawait (socket : ℤ) (failure : Text) :
      Kept (WritesTo socket) (awaitReady h.selectWrite socket failure) := by
    intro m
    unfold awaitReady
    split <;> exact ⟨rfl, rfl, List.prefix_refl _, fun _ _ => rfl⟩
  unfold sendData
  split_ifs
  · exact refl_of _ m
  · refine Kept.bind (R := WritesTo (m.socketOf sockfd)) (hawait _ _) (fun _ => ?_) m
    split
    · exact Kept.raise _
    · split_ifs
      exacts [Kept.crash _, sendLoop_writesTo _ _ _ _]

theorem sendPacket_writesOn (fuel : ℕ) (p : Packet) (sockfd : ℤ) :
    Kept (WritesOn sockfd) (sendPacket h fuel p sockfd) :=
  Kept.bind (sendData_writesOn _ _ _ _) fun _ => sendData_writesOn _ _ _ _

theorem sendPacket_default (fuel : ℕ) (p : Packet) (m : ConnectionManager) :
    sendPacket h fuel p (-1) m = sendPacket h fuel p m.sockfd m := by
  have hdata (buffer : Option Text) (size : ℕ) {m₁ : ConnectionManager} (hm : m₁.sockfd = m.sockfd) :
      sendData h fuel buffer size (-1) m₁ = sendData h fuel buffer size m.sockfd m₁ := by
    have hsame : m₁.socketOf (-1) = m₁.socketOf m.sockfd := by
      rw [ConnectionManager.socketOf, ConnectionManager.socketOf, if_pos rfl, hm, ite_self]
    unfold sendData
    split_ifs
    · rfl
    · rw [run_bind_ok (run_get m₁), run_bind_ok (run_get m₁), hsame]
  have hwrites := sendData_writesOn (h := h) fuel (some (headerBytes p.toHeader)) headerSize m.sockfd m
  rw [sendPacket, sendPacket]
  cases hrun : sendData h fuel (some (headerBytes p.toHeader)) headerSize m.sockfd m with
  | error e m₁ => rw [run_bind_error ((hdata _ _ rfl).trans hrun), run_bind_error hrun]
  | ok u m₁ =>
    rw [hrun] at hwrites
    rw [run_bind_ok ((hdata _ _ rfl).trans hrun), run_bind_ok hrun]
    exact hdata _ _ hwrites.sockfd

theorem WritesOn.longer {sockfd : ℤ} {m m' : ConnectionManager} (hm : WritesOn sockfd m m') (fd : ℤ) :
    m.outbox fd <+: m'.outbox fd := by
  rcases eq_or_ne fd (m.socketOf sockfd) with rfl | hne
  · exact hm.grows
  · exact (hm.outbox fd hne).symm ▸ List.prefix_refl _

end Writing

end SyncWizard.Common
