import SyncWizard.Server.Readers

/-! Whether the packets of a client reach the dispatchers as they were sent. Every reader takes the next
bytes of the one stream, so that a packet is whole only where no two threads read at a time. -/

namespace SyncWizard.Properties
open Foundation Common Server

/-- The dispatched packets are among those that were sent, each once and in their order. -/
def InOrder {ι : Type} (packets : List Packet) (es : List (ReadAction ι)) : Prop :=
  ((es.filterMap ReadAction.dispatched).map Packet.content).Sublist (packets.map Packet.content)

/-- A thread begins to receive only when no other is at it, and a broadcast does not give up on a packet
it has begun to read. -/
def Alone {ι : Type} : ReadAction ι → SharedSocket ι → Prop
  | .begins _, s => ∀ j, s.reader j = .idle
  | .abandons (some k), s => s.reader (some k) = .header []
  | _, _ => True

/-! ## What a reader has in hand -/

def inHand : Reader → Text
  | .idle => []
  | .header got => got
  | .payload announced got => headerBytes announced ++ got
  | .ready p => p.wire

def Sound : Reader → Prop
  | .idle => True
  | .header got => got.length < headerSize
  | .payload announced got => got.length < announced.payloadSize.toNat
  | .ready p => p.Exact

section Reading
variable {r : Reader} {bs tail : Text} {rest : List Packet}

theorem receivedHeader_inHand (announced : Header) :
    inHand (Reader.receivedHeader announced) = headerBytes announced ∧
      Sound (Reader.receivedHeader announced) := by
  rw [Reader.receivedHeader]
  by_cases h0 : announced.payloadSize.toNat = 0
  · rw [if_pos h0]
    exact ⟨List.append_nil _, h0.symm⟩
  · rw [if_neg h0]
    exact ⟨List.append_nil _, Nat.pos_of_ne_zero h0⟩

theorem header_of_stream (hlen : bs.length = headerSize)
    (hstream : bs ++ tail = rest.flatMap Packet.wire) :
    headerBytes (readHeader bs) = bs := by
  cases rest with
  | nil =>
    have hnil := (List.append_eq_nil_iff.mp hstream).1
    rw [hnil] at hlen
    cases hlen
  | cons q rest =>
    rw [List.flatMap_cons, Packet.wire, List.append_assoc] at hstream
    obtain ⟨rfl, -⟩ := List.append_inj hstream (hlen.trans (headerBytes_length q.toHeader).symm)
    rw [readHeader_headerBytes]

theorem receive_inHand (hsound : Sound r) (hlen : bs.length ≤ r.wants)
    (hstream : inHand r ++ (bs ++ tail) = rest.flatMap Packet.wire) :
    inHand (r.receive bs) = inHand r ++ bs ∧ Sound (r.receive bs) := by
  cases r with
  | idle | ready p =>
    -- a thread that asks for nothing gets nothing
    obtain rfl := List.length_eq_zero_iff.mp (Nat.le_zero.mp hlen)
    exact ⟨(List.append_nil _).symm, hsound⟩
  | header got =>
    rw [Reader.wants] at hlen
    rw [inHand, ← List.append_assoc] at hstream
    rw [Reader.receive]
    by_cases hshort : (got ++ bs).length < headerSize
    · rw [if_pos hshort]
      exact ⟨rfl, hshort⟩
    · have hwhole : (got ++ bs).length = headerSize := by
        rw [Sound] at hsound
        rw [List.length_append] at hshort ⊢
        omega
      rw [if_neg hshort]
      obtain ⟨hhand, hsound'⟩ := receivedHeader_inHand (readHeader (got ++ bs))
      exact ⟨hhand.trans (header_of_stream hwhole hstream), hsound'⟩
  | payload announced got =>
    rw [Reader.wants] at hlen
    rw [Reader.receive]
    by_cases hshort : (got ++ bs).length < announced.payloadSize.toNat
    · rw [if_pos hshort]
      exact ⟨(List.append_assoc ..).symm, hshort⟩
    · rw [if_neg hshort]
      refine ⟨(List.append_assoc ..).symm, ?_⟩
      have hwhole : (got ++ bs).length = announced.payloadSize.toNat := by
        rw [Sound] at hsound
        rw [List.length_append] at hshort ⊢
        omega
      exact hwhole

end Reading

/-! ## Readers that keep out of each other's way -/

section Keeping
variable {ι : Type} [DecidableEq ι] {packets : List Packet}
  {es : List (ReadAction ι)} {s s' : SharedSocket ι}

/-- At most one thread is reading, and what it has in hand and the unread bytes make up the packets
that have not been dispatched; or the process has ended. -/
structure Framed (packets : List Packet) (es : List (ReadAction ι)) (s : SharedSocket ι)
    (front back : List Packet) (i : Option ι) : Prop where
  packets : packets = front ++ back
  dispatched : front.map Packet.content = (es.filterMap ReadAction.dispatched).map Packet.content
  stream : s.ended = false → (∀ j ≠ i, s.reader j = .idle) ∧ Sound (s.reader i) ∧
    inHand (s.reader i) ++ s.inbox = back.flatMap Packet.wire

theorem framed_set {front back : List Packet} {k : Option ι} {r : Reader} {rest : Text}
    (hpackets : packets = front ++ back)
    (hdispatched : front.map Packet.content = (es.filterMap ReadAction.dispatched).map Packet.content)
    (halone : ∀ j ≠ k, s.reader j = .idle) (hsound : Sound r)
    (hbytes : inHand r ++ rest = back.flatMap Packet.wire) :
    Framed packets es (s.set k r rest) front back k := by
  refine ⟨hpackets, hdispatched, fun _ => ⟨fun j hj => ?_, ?_, ?_⟩⟩
  · rw [set_reader_ne hj]
    exact halone j hj
  · rw [set_reader_self]
    exact hsound
  · rw [set_reader_self, set_inbox]
    exact hbytes

theorem Framed.step {front back : List Packet} {i : Option ι} {e : ReadAction ι}
    (hexact : ∀ p ∈ packets, p.Exact)
    (hf : Framed packets es s front back i) (ha : Alone e s) (hs : SharedSocket.step e s = some s') :
    ∃ front back i, Framed packets (es ++ [e]) s' front back i := by
  obtain ⟨hpackets, hdispatched, hstream⟩ := hf
  obtain ⟨halone, hsound, hbytes⟩ := hstream (step_running hs)
  have hmine {k : Option ι} (hk : s.reader k ≠ .idle) : k = i := by
    by_contra hne
    exact hk (halone k hne)
  have hsame (he : e.dispatched = none) :
      front.map Packet.content = ((es ++ [e]).filterMap ReadAction.dispatched).map Packet.content := by
    simpa [List.filterMap_cons, he] using hdispatched
  cases e with
  | begins k =>
    obtain ⟨-, rfl⟩ := begins_inv hs
    rw [ha i] at hbytes
    exact ⟨front, back, k, framed_set hpackets (hsame rfl) (fun j _ => ha j)
      (by decide : 0 < headerSize) hbytes⟩
  | takes k n =>
    obtain ⟨hpos, hwants, -, rfl⟩ := takes_inv hs
    obtain rfl : k = i := by
      apply hmine
      intro hidle
      rw [hidle] at hwants
      exact absurd hwants (Nat.not_le.mpr hpos)
    rw [← List.take_append_drop n s.inbox] at hbytes
    obtain ⟨hhand, hsound'⟩ := receive_inHand hsound ((List.length_take_le ..).trans hwants) hbytes
    rw [← List.append_assoc, ← hhand] at hbytes
    exact ⟨front, back, k, framed_set hpackets (hsame rfl) halone hsound' hbytes⟩
  | dispatches k p =>
    obtain ⟨hready, rfl⟩ := dispatches_inv hs
    obtain rfl : k = i := hmine (by simp [hready])
    rw [hready] at hsound hbytes
    cases back with
    | nil => exact absurd (List.append_eq_nil_iff.mp hbytes).1 (Packet.wire_ne_nil p)
    | cons q back =>
      have hq : q ∈ packets := hpackets ▸ List.mem_append_right _ List.mem_cons_self
      obtain ⟨hcontent, hrest⟩ := Packet.wire_append_inj hsound (hexact q hq) hbytes
      refine ⟨front ++ [q], back, k, framed_set ?_ ?_ halone trivial hrest⟩
      · rw [hpackets, List.append_assoc, List.singleton_append]
      · simp [ReadAction.dispatched, hdispatched, hcontent]
  | abandons k =>
    obtain ⟨hreceiving, rfl⟩ := abandons_inv hs
    obtain rfl : k = i := by
      apply hmine
      intro hidle
      rw [hidle] at hreceiving
      cases hreceiving
    cases k with
    | none =>
      -- the process has ended
      exact ⟨front, back, none, hpackets, hsame rfl, fun hended => by cases hended⟩
    | some k =>
      rw [show s.reader (some k) = .header [] from ha] at hbytes
      have hset : ({ s.set (some k) .idle s.inbox with ended := (some k).isNone } : SharedSocket ι) =
          s.set (some k) .idle s.inbox := by
        rw [SharedSocket.set, step_running hs]
        rfl
      rw [hset]
      exact ⟨front, back, some k, framed_set (r := .idle) hpackets (hsame rfl) halone trivial hbytes⟩

end Keeping

/-- In every run in which the readers keep out of each other's way the packets are dispatched as they
were sent. -/
theorem alone_inOrder {ι : Type} [DecidableEq ι] (packets : List Packet)
    (hexact : ∀ p ∈ packets, p.Exact)
    (es : List (ReadAction ι)) (s : SharedSocket ι)
    (hrun : runSteps SharedSocket.step es (.sending packets) = some s)
    (halone : Throughout SharedSocket.step Alone es (.sending packets)) : InOrder packets es := by
  have hframed : ∃ front back i, Framed packets es s front back i := by
    refine runSteps_invariant_along
      (I := fun es s => ∃ front back i, Framed packets es s front back i) ?_
      ?_ halone hrun
    · exact ⟨[], packets, none, rfl, rfl, fun _ => ⟨fun _ _ => rfl, trivial, rfl⟩⟩
    · rintro es e s s' ⟨front, back, i, hf⟩ ha hs
      exact hf.step hexact ha hs
  obtain ⟨front, back, i, hpackets, hdispatched, -⟩ := hframed
  rw [InOrder, ← hdispatched, hpackets, List.map_append]
  exact List.sublist_append_left _ _

theorem receive_command (text : Text) :
    (Reader.header []).receive (headerBytes (Packet.ofCommand text).toHeader) =
      .ready (Packet.ofCommand text) := by
  rw [Reader.receive, List.nil_append, headerBytes_length, if_neg (lt_irrefl _), readHeader_headerBytes]
  rfl

theorem takes_command {ι : Type} [DecidableEq ι] {s : SharedSocket ι}
    (hended : s.ended = false) (i : Option ι)
    (text : Text) (rest : Text) :
    SharedSocket.step (.takes i headerSize)
      (s.set i (.header []) ((Packet.ofCommand text).wire ++ rest)) =
      some (s.set i (.ready (Packet.ofCommand text)) rest) := by
  have hwire : (Packet.ofCommand text).wire ++ rest =
      headerBytes (Packet.ofCommand text).toHeader ++ rest := by
    rw [Packet.wire]
    exact congrArg (· ++ rest) (List.append_nil _)
  have hlen := headerBytes_length (Packet.ofCommand text).toHeader
  have htakes : SharedSocket.step (.takes i headerSize)
      (s.set i (.header []) (headerBytes (Packet.ofCommand text).toHeader ++ rest)) = _ :=
    takes_run hended (by decide) le_rfl (by rw [List.length_append]; omega)
  rw [hwire, htakes, List.take_left' hlen, List.drop_left' hlen, receive_command]

def twoCommands : List Packet := [Packet.ofCommand (txt "ping"), Packet.ofCommand (txt "pong")]

theorem twoCommands_exact : ∀ p ∈ twoCommands, p.Exact := by
  rw [twoCommands]
  exact List.forall_mem_cons.mpr ⟨rfl, List.forall_mem_cons.mpr ⟨rfl, List.forall_mem_nil _⟩⟩

theorem twoCommands_begins :
    SharedSocket.step (.begins none) (.sending twoCommands : SharedSocket Unit) =
    some ((SharedSocket.sending twoCommands).set none (.header [])
      (twoCommands.flatMap Packet.wire)) := rfl

def firstAlone : List (ReadAction Unit) :=
  [.begins none, .takes none headerSize, .dispatches none (Packet.ofCommand (txt "ping"))]

theorem firstAlone_inOrder : InOrder twoCommands firstAlone := by
  have htakes := takes_command (s := (.sending twoCommands : SharedSocket Unit)) rfl none (txt "ping")
    ([Packet.ofCommand (txt "pong")].flatMap Packet.wire)
  have hrun : runSteps SharedSocket.step firstAlone (.sending twoCommands) = _ :=
    (runSteps_cons twoCommands_begins).trans
      ((runSteps_cons htakes).trans (runSteps_cons (dispatches_run rfl)))
  refine alone_inOrder twoCommands twoCommands_exact firstAlone _ hrun ?_
  exact ⟨fun _ => rfl, fun _ _ => ⟨trivial, fun _ _ => ⟨trivial, fun _ _ => trivial⟩⟩⟩

def overtaking : List (ReadAction Unit) :=
  [.begins none, .takes none headerSize, .begins (some ()), .takes (some ()) headerSize,
    .dispatches (some ()) (Packet.ofCommand (txt "pong")),
      .dispatches none (Packet.ofCommand (txt "ping"))]

theorem broadcast_overtakes :
    ¬ ∀ (packets : List Packet) (es : List (ReadAction Unit)) (s : SharedSocket Unit),
      (∀ p ∈ packets, p.Exact) →
        runSteps SharedSocket.step es (.sending packets) = some s → InOrder packets es := by
  intro hall
  have htakes := takes_command (s := (.sending twoCommands : SharedSocket Unit)) rfl none (txt "ping")
    ([Packet.ofCommand (txt "pong")].flatMap Packet.wire)
  generalize hs : (SharedSocket.sending twoCommands : SharedSocket Unit).set none
    (.ready (Packet.ofCommand (txt "ping")))
    ([Packet.ofCommand (txt "pong")].flatMap Packet.wire) = s at htakes
  have hended : s.ended = false := hs ▸ rfl
  have hmine : s.reader none = .ready (Packet.ofCommand (txt "ping")) := hs ▸ set_reader_self
  have hidle : s.reader (some ()) = .idle := hs ▸ set_reader_ne (Option.some_ne_none ())
  have hbegins : SharedSocket.step (.begins (some ())) s =
      some (s.set (some ()) (.header []) s.inbox) :=
    if_pos ⟨hended, hidle⟩
  have htakes' : SharedSocket.step (.takes (some ()) headerSize)
      (s.set (some ()) (.header []) s.inbox) =
      some (s.set (some ()) (.ready (Packet.ofCommand (txt "pong"))) []) := by
    rw [← hs]
    exact takes_command rfl (some ()) (txt "pong") []
  have hstill : (s.set (some ()) .idle []).reader none = .ready (Packet.ofCommand (txt "ping")) :=
    (set_reader_ne (Option.some_ne_none ()).symm).trans hmine
  have hrun : runSteps SharedSocket.step overtaking (.sending twoCommands) = _ :=
    (runSteps_cons twoCommands_begins).trans
      ((runSteps_cons htakes).trans ((runSteps_cons hbegins).trans
      ((runSteps_cons htakes').trans ((runSteps_cons (dispatches_run hended)).trans
        (runSteps_cons (dispatches_ready hended hstill))))))
  have horder := hall twoCommands overtaking _ twoCommands_exact hrun
  have hdispatched : overtaking.filterMap ReadAction.dispatched =
      [.ofCommand (txt "pong"), .ofCommand (txt "ping")] := rfl
  rw [InOrder, hdispatched] at horder
  have hsame := List.Sublist.eq_of_length horder (by simp [twoCommands])
  have hcontent : (Packet.ofCommand (txt "pong")).content =
      (Packet.ofCommand (txt "ping")).content := (List.cons.inj hsame).1
  have hcommand := congrArg (fun c : Header × Text => c.1.command.1.take 2) hcontent
  revert hcommand
  decide

end SyncWizard.Properties
