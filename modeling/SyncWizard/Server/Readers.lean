import SyncWizard.Common.Transfer
import SyncWizard.Foundation.Schedules

/-! The threads that receive packets on the socket of one session: the session's own loop, and every
thread that broadcasts to it. `recieve_mtx_` is locked by the loop alone and keeps none of them out,
so each call of `recv` may be any thread's. -/

namespace SyncWizard.Server
open Foundation Common

inductive Reader where
  | idle
  | header (got : Text)
  | payload (header : Header) (got : Text)
  | ready (p : Packet)
  deriving DecidableEq

namespace Reader

def wants : Reader → ℕ
  | .header got => headerSize - got.length
  | .payload announced got => announced.payloadSize.toNat - got.length
  | _ => 0

def receivedHeader (announced : Header) : Reader :=
  if announced.payloadSize.toNat = 0 then .ready ⟨announced, none⟩ else .payload announced []

def receive (bs : Text) : Reader → Reader
  | .header got =>
    if (got ++ bs).length < headerSize then .header (got ++ bs)
    else receivedHeader (readHeader (got ++ bs))
  | .payload announced got =>
    if (got ++ bs).length < announced.payloadSize.toNat then .payload announced (got ++ bs)
    else .ready ⟨announced, some (got ++ bs)⟩
  | r => r

def receiving : Reader → Bool
  | .header _ | .payload _ _ => true
  | _ => false

end Reader

/-- The bytes that nobody has read yet, whether or not they have arrived, and the threads: `none` is the
session's own loop. An exception that leaves this loop ends the process. -/
structure SharedSocket (ι : Type) where
  inbox : Text
  reader : Option ι → Reader
  ended : Bool

inductive ReadAction (ι : Type) where
  | begins (i : Option ι)
  | takes (i : Option ι) (n : ℕ)
  | dispatches (i : Option ι) (p : Packet)
  | abandons (i : Option ι)

def ReadAction.dispatched {ι : Type} : ReadAction ι → Option Packet
  | .dispatches _ p => some p
  | _ => none

section Actions
variable {ι : Type} [DecidableEq ι]

def SharedSocket.sending (packets : List Packet) : SharedSocket ι :=
  ⟨packets.flatMap Packet.wire, fun _ => .idle, false⟩

def SharedSocket.set (s : SharedSocket ι) (i : Option ι) (r : Reader) (rest : Text) : SharedSocket ι :=
  ⟨rest, Function.update s.reader i r, s.ended⟩

def SharedSocket.step : ReadAction ι → SharedSocket ι → Option (SharedSocket ι)
  | .begins i, s =>
    if s.ended = false ∧ s.reader i = .idle then some (s.set i (.header []) s.inbox) else none
  | .takes i n, s =>
    if s.ended = false ∧ 0 < n ∧ n ≤ (s.reader i).wants ∧ n ≤ s.inbox.length then
      some (s.set i ((s.reader i).receive (s.inbox.take n)) (s.inbox.drop n))
    else none
  | .dispatches i p, s =>
    if s.ended = false ∧ s.reader i = .ready p then some (s.set i .idle s.inbox) else none
  | .abandons i, s =>
    if s.ended = false ∧ (s.reader i).receiving = true then
      some { s.set i .idle s.inbox with ended := i.isNone }
    else none

end Actions

/-! ## What one action does -/

section Steps
variable {ι : Type} [DecidableEq ι] {s s' : SharedSocket ι} {i j : Option ι} {n : ℕ}
  {p : Packet} {r r' : Reader}
variable {rest rest' : Text}

@[simp] theorem set_reader_self : (s.set i r rest).reader i = r := Function.update_self ..

theorem set_reader_ne (h : j ≠ i) : (s.set i r rest).reader j = s.reader j := Function.update_of_ne h ..

@[simp] theorem set_inbox : (s.set i r rest).inbox = rest := rfl

@[simp] theorem set_set : (s.set i r rest).set i r' rest' = s.set i r' rest' := by
  rw [SharedSocket.set, SharedSocket.set, Function.update_idem]
  rfl

theorem takes_run (hended : s.ended = false) (hpos : 0 < n) (hw : n ≤ r.wants) (hle : n ≤ rest.length) :
    SharedSocket.step (.takes i n) (s.set i r rest) =
      some (s.set i (r.receive (rest.take n)) (rest.drop n)) := by
  have hguard : (s.set i r rest).ended = false ∧ 0 < n ∧ n ≤ ((s.set i r rest).reader i).wants ∧
      n ≤ (s.set i r rest).inbox.length := by
    rw [set_reader_self]
    exact ⟨hended, hpos, hw, hle⟩
  rw [SharedSocket.step, if_pos hguard, set_reader_self, set_set, set_inbox]

theorem dispatches_ready (hended : s.ended = false) (hr : s.reader i = .ready p) :
    SharedSocket.step (.dispatches i p) s = some (s.set i .idle s.inbox) := if_pos ⟨hended, hr⟩

theorem dispatches_run (hended : s.ended = false) :
    SharedSocket.step (.dispatches i p) (s.set i (.ready p) rest) = some (s.set i .idle rest) := by
  have hready : (s.set i (.ready p) rest).reader i = .ready p := set_reader_self
  have hrunning : (s.set i (.ready p) rest).ended = false := hended
  rw [dispatches_ready hrunning hready, set_set, set_inbox]

theorem begins_inv (h : SharedSocket.step (.begins i) s = some s') :
    s.reader i = .idle ∧ s' = s.set i (.header []) s.inbox := by
  obtain ⟨⟨-, hr⟩, h⟩ := Option.ite_none_right_eq_some.mp h
  exact ⟨hr, (Option.some.inj h).symm⟩

theorem takes_inv (h : SharedSocket.step (.takes i n) s = some s') :
    0 < n ∧ n ≤ (s.reader i).wants ∧ n ≤ s.inbox.length ∧
      s' = s.set i ((s.reader i).receive (s.inbox.take n)) (s.inbox.drop n) := by
  obtain ⟨⟨-, hpos, hwants, hle⟩, h⟩ := Option.ite_none_right_eq_some.mp h
  exact ⟨hpos, hwants, hle, (Option.some.inj h).symm⟩

theorem dispatches_inv (h : SharedSocket.step (.dispatches i p) s = some s') :
    s.reader i = .ready p ∧ s' = s.set i .idle s.inbox := by
  obtain ⟨⟨-, hr⟩, h⟩ := Option.ite_none_right_eq_some.mp h
  exact ⟨hr, (Option.some.inj h).symm⟩

theorem abandons_inv (h : SharedSocket.step (.abandons i) s = some s') :
    (s.reader i).receiving = true ∧ s' = { s.set i .idle s.inbox with ended := i.isNone } := by
  obtain ⟨⟨-, hr⟩, h⟩ := Option.ite_none_right_eq_some.mp h
  exact ⟨hr, (Option.some.inj h).symm⟩

theorem step_running {e : ReadAction ι} (h : SharedSocket.step e s = some s') : s.ended = false := by
  cases e with
  | begins i | takes i n | dispatches i p | abandons i => exact (Option.ite_none_right_eq_some.mp h).1.1

end Steps

/-! ## The calls of `receive_packet` -/

section Receiving
variable {ι : Type} [DecidableEq ι] {h : Host}

def receiveActions (i : Option ι) (p : Packet) : List (ReadAction ι) :=
  .begins i :: .takes i headerSize ::
    ((if p.payloadSize.toNat = 0 then [] else [.takes i p.payloadSize.toNat]) ++ [.dispatches i p])

theorem receivePacket_actions (i : Option ι) {s : SharedSocket ι} {sockfd : ℤ} {p : Packet}
    {m m' : ConnectionManager} (hended : s.ended = false) (hidle : s.reader i = .idle)
    (hinbox : s.inbox = m.inbox (m.socketOf sockfd)) (hr : receivePacket h sockfd m = .ok p m') :
    runSteps SharedSocket.step (receiveActions i p) s =
      some { s with inbox := m'.inbox (m.socketOf sockfd) } := by
  obtain ⟨n, hle, htook, hn⟩ := receivePacket_took (h := h) sockfd m
  obtain ⟨hheader, hpayload⟩ := receivePacket_reads hr
  rw [hr, final_ok] at htook
  rw [hn p m' hr] at hle htook
  rw [htook.inbox_self, ← hinbox]
  rw [← hinbox] at hle hheader hpayload
  obtain ⟨header, payload⟩ := p
  dsimp only at hheader hpayload hle ⊢
  have hbegins : SharedSocket.step (.begins i) s =
      some (s.set i (.header []) s.inbox) := if_pos ⟨hended, hidle⟩
  have hsize : (s.inbox.take headerSize).length = headerSize := List.length_take_of_le (by omega)
  have htaken : (Reader.header []).receive (s.inbox.take headerSize) =
      Reader.receivedHeader header := by
    rw [Reader.receive, List.nil_append, hsize, if_neg (lt_irrefl _), ← hheader]
  have hheads : SharedSocket.step (.takes i headerSize) (s.set i (.header []) s.inbox) = _ :=
    takes_run hended (by decide) le_rfl ((Nat.le_add_right ..).trans hle)
  rw [htaken] at hheads
  have hback (rest : Text) : s.set i .idle rest = { s with inbox := rest } := by
    rw [SharedSocket.set, ← hidle, Function.update_eq_self]
  rw [receiveActions, runSteps_cons hbegins, runSteps_cons hheads, Reader.receivedHeader]
  by_cases h0 : header.payloadSize.toNat = 0
  · rw [if_pos h0] at hpayload ⊢
    subst hpayload
    rw [if_pos h0, List.nil_append, runSteps_cons (dispatches_run hended), hback, h0, Nat.add_zero]
    rfl
  · rw [if_neg h0] at hpayload ⊢
    have hrest : header.payloadSize.toNat ≤ (s.inbox.drop headerSize).length := by
      rw [List.length_drop]
      omega
    have hbody : SharedSocket.step (.takes i header.payloadSize.toNat)
        (s.set i (.payload header []) (s.inbox.drop headerSize)) = _ :=
      takes_run hended (Nat.pos_of_ne_zero h0) le_rfl hrest
    have hwhole : (Reader.payload header []).receive
        ((s.inbox.drop headerSize).take header.payloadSize.toNat) =
        .ready ⟨header, payload⟩ := by
      rw [Reader.receive, List.nil_append, List.length_take_of_le hrest, if_neg (lt_irrefl _), hpayload]
    rw [hwhole, List.drop_drop] at hbody
    rw [if_neg h0, List.singleton_append, runSteps_cons hbody,
      runSteps_cons (dispatches_run hended), hback]
    rfl

end Receiving

end SyncWizard.Server
