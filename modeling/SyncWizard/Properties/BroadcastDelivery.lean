import SyncWizard.Common.Transfer
import SyncWizard.Server.Effects

/-! Broadcasting to the other sessions of a user. A broadcast never queues its packet: each
session it serves reads the next packet off its own socket instead, or fails to. So either some
client's stream got shorter or no queue changed at all. -/

namespace SyncWizard.Properties
open Foundation Common Server

variable {h : Host}

/-- `broadcast_other_sessions` puts the packet once behind each other session's queue and does
nothing else. At depth one there is no room for a further broadcast. -/
def BroadcastDelivers (h : Host) (u : UserId) (callerSockfd : ℤ) (p : Packet) (w : ServerState) :
    Prop :=
  ∀ depth, 1 ≤ depth → ∃ w', broadcastOtherSessions h depth u callerSockfd p w = .ok () w' ∧
    (∀ s ∈ (w.user u).sessions, (w.session s).identity.socketFd ≠ callerSockfd →
      (w'.session s).senderBuffer = (w.session s).senderBuffer ++ [p]) ∧
    (∀ s ∈ (w.user u).sessions, (w.session s).identity.socketFd = callerSockfd →
      (w'.session s).senderBuffer = (w.session s).senderBuffer) ∧
    ∀ fd, w'.net.inbox fd = w.net.inbox fd

/-! ## What serving a session does -/

def Drained (w w' : ServerState) : Prop := ∀ fd, w'.net.inbox fd <:+ w.net.inbox fd

def DrainedFirst (w w' : ServerState) : Prop :=
  Drained w w' ∧ (w'.net.inbox = w.net.inbox →
    ∀ s, (w'.session s).senderBuffer = (w.session s).senderBuffer)

instance : Std.Refl Drained := ⟨fun _ _ => List.suffix_refl _⟩

instance : IsTrans ServerState Drained := ⟨fun _ _ _ h₁ h₂ fd => (h₂ fd).trans (h₁ fd)⟩

instance : Std.Refl DrainedFirst := ⟨fun w => ⟨refl_of Drained w, fun _ _ => rfl⟩⟩

instance : IsTrans ServerState DrainedFirst := ⟨by
  rintro w₁ w₂ w₃ ⟨hd₁, hq₁⟩ ⟨hd₂, hq₂⟩
  refine ⟨trans_of Drained hd₁ hd₂, fun heq s => ?_⟩
  have hmid : w₂.net.inbox = w₁.net.inbox := by
    funext fd
    refine (hd₁ fd).eq_of_length_le ?_
    rw [← heq]
    exact (hd₂ fd).length_le
  rw [hq₂ (heq.trans hmid.symm) s, hq₁ hmid s]⟩

theorem drained_admits (self : SessionId) :
    Admits self (fun _ => True) (fun _ => True) Drained where
  files w _ _ := refl_of Drained w
  push w _ _ := refl_of Drained w
  lock w _ _ := refl_of Drained w
  stop w := refl_of Drained w

theorem receiveCallback_drains (me : Identity) (w : ServerState) :
    DrainedFirst w (final (receiveCallback h me w)) ∧
      ∀ p w', receiveCallback h me w = .ok p w' → w'.net.inbox ≠ w.net.inbox := by
  obtain ⟨n, hle, htook, hsize⟩ := receivePacket_took (h := h) me.socketFd w.net
  have hstate := receiveCallback_state (h := h) me w
  have hinbox : (final (receiveCallback h me w)).net.inbox =
      (w.net.take (w.net.socketOf me.socketFd) n).inbox := by
    rw [hstate, htook]
  refine ⟨⟨fun fd => ?_, fun _ s => by rw [hstate]⟩, fun p w' hr => ?_⟩
  · rw [hinbox]
    by_cases hfd : fd = w.net.socketOf me.socketFd
    · rw [hfd, ConnectionManager.take_inbox_self]
      exact List.drop_suffix _ _
    · rw [ConnectionManager.take_inbox_ne _ _ hfd]
  · rw [hr, final_ok] at hinbox
    intro hsame
    have hlen := congrArg List.length (congrFun (hsame.symm.trans hinbox) (w.net.socketOf me.socketFd))
    rw [ConnectionManager.take_inbox_self, List.length_drop] at hlen
    unfold receiveCallback onNet zoom at hr
    cases hreceive : receivePacket h me.socketFd w.net with
    | ok q m =>
      have := hsize q m hreceive
      have hh : headerSize = 1048 := rfl
      omega
    | error e m =>
      rw [hreceive] at hr
      cases hr

theorem addPacketFromBroadcast_kept {bc : Broadcast} (hbc : ∀ fd p, Kept Drained (bc fd p))
    (s : SessionId) (p : Packet) : Kept DrainedFirst (addPacketFromBroadcast h bc s p) := by
  intro w
  let me := (w.session s).identity
  have hrest (buffer : Packet) : Kept Drained (do
      let fields ← splitBuffer buffer.memory
      perform h bc s me buffer (broadcastRoute fields)) :=
    Kept.bind (splitBuffer_kept _) fun fields =>
      (drained_admits s).perform_kept hbc (fun _ _ => trivial) fun _ _ _ _ => trivial
  obtain ⟨hreceive, hshorter⟩ := receiveCallback_drains (h := h) me w
  rw [addPacketFromBroadcast, run_bind_ok (run_get w)]
  change DrainedFirst w (final ((receiveCallback h me >>= fun buffer => do
    let fields ← splitBuffer buffer.memory
    perform h bc s me buffer (broadcastRoute fields)) w))
  cases hr : receiveCallback h me w with
  | error e w₁ =>
    rw [run_bind_error hr]
    rwa [hr] at hreceive
  | ok buffer w₁ =>
    rw [run_bind_ok hr]
    rw [hr, final_ok] at hreceive
    have hlater := hrest buffer w₁
    refine ⟨trans_of Drained hreceive.1 hlater, fun heq => absurd ?_ (hshorter buffer w₁ hr)⟩
    -- a stream that was read from cannot be as long as before again
    funext fd
    refine (hreceive.1 fd).eq_of_length_le ?_
    rw [← heq]
    exact (hlater fd).length_le

theorem broadcastOtherSessions_drains (depth : ℕ) (u : UserId) (callerSockfd : ℤ) (p : Packet) :
    Kept DrainedFirst (broadcastOtherSessions h depth u callerSockfd p) := by
  induction depth generalizing callerSockfd p with
  | zero => exact Kept.crash _
  | succ depth ih =>
    have hbc (fd : ℤ) (q : Packet) : Kept Drained (broadcastOtherSessions h depth u fd q) :=
      (ih fd q).mono fun _ _ hd => hd.1
    refine Kept.bind Kept.get fun w => Kept.forEach fun s _ => ?_
    refine Kept.attempt ?_ fun what => reportBroadcastError_kept s what
    refine Kept.bind (getSocketFd_kept s) fun fd => ?_
    split_ifs
    · exact addPacketFromBroadcast_kept hbc s p
    · exact Kept.pure _

/-! ## When a broadcast delivers -/

theorem not_delivers_of_other {u : UserId} {callerSockfd : ℤ} {p : Packet} {w : ServerState}
    {s : SessionId} (hs : s ∈ (w.user u).sessions)
    (hother : (w.session s).identity.socketFd ≠ callerSockfd) :
    ¬ BroadcastDelivers h u callerSockfd p w := by
  intro hd
  obtain ⟨w', hr, hqueued, -, hinbox⟩ := hd 1 le_rfl
  have hkept := broadcastOtherSessions_drains (h := h) 1 u callerSockfd p w
  rw [hr, final_ok] at hkept
  have hsame := hkept.2 (funext hinbox) s
  rw [hqueued s hs hother] at hsame
  exact List.cons_ne_nil p [] (List.append_right_eq_self.mp hsame)

theorem broadcast_no_other (depth : ℕ) {u : UserId} {callerSockfd : ℤ} (p : Packet) {w : ServerState}
    (hall : ∀ s ∈ (w.user u).sessions, (w.session s).identity.socketFd = callerSockfd) :
    broadcastOtherSessions h (depth + 1) u callerSockfd p w = .ok () w := by
  rw [broadcastOtherSessions, run_bind_ok (run_get w)]
  refine run_forEach_same fun s hs => ?_
  have hfd : getSocketFd s w = .ok callerSockfd w := by
    rw [← hall s hs]
    rfl
  refine run_attempt_ok ?_ _
  rw [run_bind_ok hfd, if_neg (not_not_intro rfl), run_pure]

/-- A broadcast delivers its packet exactly when there is no other session to deliver it to. -/
theorem broadcastDelivers_iff (u : UserId) (callerSockfd : ℤ) (p : Packet) (w : ServerState) :
    BroadcastDelivers h u callerSockfd p w ↔
      ∀ s ∈ (w.user u).sessions, (w.session s).identity.socketFd = callerSockfd := by
  constructor
  · intro hd s hs
    by_contra hother
    exact not_delivers_of_other hs hother hd
  · intro hall depth hdepth
    obtain ⟨d, rfl⟩ : ∃ d, depth = d + 1 := ⟨depth - 1, by omega⟩
    exact ⟨w, broadcast_no_other d p hall, fun s hs hother => absurd (hall s hs) hother,
      fun _ _ _ => rfl, fun _ => rfl⟩

def twoDevices : ServerState :=
  let w := ServerState.init ⟨3, 0, fun _ => [], fun _ => [], fun _ => true⟩ ⟨[], ∅, []⟩
  let session (fd : ℤ) : ClientSession :=
    ⟨⟨fd, txt "ana", txt "laptop", syncDir, 0⟩, [], fun _ => none, true, true⟩
  { ((w.setSession 0 (session 4)).setSession 1 (session 5)).setUser 0 ⟨txt "ana", 2, [0, 1]⟩ with
    users := [0], nextSession := 2, nextUser := 1 }

theorem broadcast_loses_packet :
    ¬ ∀ (h : Host) (u : UserId) (callerSockfd : ℤ) (p : Packet) (w : ServerState),
      BroadcastDelivers h u callerSockfd p w := by
  intro hall
  have hs : 1 ∈ (twoDevices.user 0).sessions := by decide
  have hother : (twoDevices.session 1).identity.socketFd ≠ 4 := by decide
  exact not_delivers_of_other hs hother (hall pageHost.1 0 4 Packet.init twoDevices)

end SyncWizard.Properties
