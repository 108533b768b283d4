import SyncWizard.Properties.FreedSlots

/-! What `remove_session` is called for: that one session of a user is disconnected and leaves the list,
and that a socket on which there is none is reported. -/

namespace SyncWizard.Properties
open Foundation Common Server

def socketOn (w : ServerState) (s : SessionId) : ℤ := (w.session s).identity.socketFd

structure Disconnected (reason : Text) (c c' : ClientSession) : Prop where
  identity : c'.identity = c.identity
  locks : c'.fileMtx = c.fileMtx
  farewell : ∃ p, Packet.Reads (txt "exit") p ∧ p.bytes = reason ∧
    c'.senderBuffer = c.senderBuffer ++ [p]
  stopped : c'.runningSender = false ∧ c'.runningReceiver = false

/-- Session `s` is disconnected and taken off the list of its user; the others are
left alone. -/
structure Removed (u : UserId) (s : SessionId) (reason : Text) (w w' : ServerState) : Prop where
  sessions : (w'.user u).sessions = (w.user u).sessions.filter fun t => t ≠ s
  disconnected : Disconnected reason (w.session s) (w'.session s)
  others : ∀ t, t ≠ s → w'.session t = w.session t
  users : w'.users = w.users ∧ ∀ v, v ≠ u → w'.user v = w.user v

structure RemovesThatOne (u : UserId) (sockFd : ℤ) (reason : Text) (w : ServerState) : Prop where
  listed : ∀ s ∈ (w.user u).sessions, socketOn w s = sockFd →
    ∃ w', removeSession u sockFd reason w = .ok () w' ∧ Removed u s reason w w'
  unlisted : (∀ s ∈ (w.user u).sessions, socketOn w s ≠ sockFd) →
    ∃ what, removeSession u sockFd reason w = .error (.raised what) w

section Contract
variable {u : UserId} {sockFd : ℤ} {reason : Text} {w : ServerState}

theorem unlisted_of_removes (hcontract : RemovesThatOne u sockFd reason w) :
    ∀ s ∈ (w.user u).sessions, socketOn w s ≠ sockFd := by
  obtain ⟨what, hraises⟩ := removeSession_raises u sockFd reason w
  intro s hs hsocket
  obtain ⟨w', hreturns, -⟩ := hcontract.listed s hs hsocket
  rw [hraises] at hreturns
  cases hreturns

theorem removes_of_unlisted (hnone : ∀ s ∈ (w.user u).sessions, socketOn w s ≠ sockFd) :
    RemovesThatOne u sockFd reason w where
  listed s hs hsocket := absurd hsocket (hnone s hs)
  unlisted _ := removeSession_raises u sockFd reason w

end Contract

/-- The contract is kept for the sockets that no session of the user has, and for no others. -/
theorem removesThatOne_iff (u : UserId) (sockFd : ℤ) (reason : Text) (w : ServerState) :
    RemovesThatOne u sockFd reason w ↔ ∀ s ∈ (w.user u).sessions, socketOn w s ≠ sockFd :=
  ⟨unlisted_of_removes, removes_of_unlisted⟩

def onlyDevice : ServerState :=
  ({ ServerState.init ⟨3, 0, fun _ => [], fun _ => [], fun _ => true⟩ ⟨[], ∅, []⟩ with
    nextUser := 1, users := [0] }.setUser 0 ⟨txt "ana", 2, [0]⟩).setSession 0
      ⟨registeredAs 4 (txt "ana") (txt "laptop") 0, [], fun _ => none, true, true⟩

theorem onlyDevice_stays : ¬ ∀ (u : UserId) (sockFd : ℤ) (reason : Text) (w : ServerState),
    ((w.user u).sessions.map (socketOn w)).Nodup → RemovesThatOne u sockFd reason w := by
  intro hall
  have hcontract := hall 0 4 [] onlyDevice (List.nodup_singleton _)
  exact unlisted_of_removes hcontract 0 List.mem_cons_self rfl

end SyncWizard.Properties
