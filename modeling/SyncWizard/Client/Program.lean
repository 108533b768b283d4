import SyncWizard.Client.Sync
import SyncWizard.Common.Terminal

/-! The client as a whole: the commands of its terminal behind the main loop, and the thread of its
watcher. Nothing starts the sender and the receiver of a client. -/

namespace SyncWizard.Client
open Foundation Common

structure CommandCalls where
  host : Host
  fuel : ℕ
  watch : WatchCalls
  pending : PendingRead

def clientCommand (c : CommandCalls) : List Text → SyncExec Unit
  | [command] =>
    if command = txt "exit" then exitSync c.host c.fuel c.pending
    else onClient (processUserInterfaceCommands c.host c.fuel [command])
  | [command, sync, dir] =>
    if command = txt "get" ∧ sync = txt "sync" ∧ dir = txt "dir" then startSync c.host c.watch
    else pure ()
  | words => onClient (processUserInterfaceCommands c.host c.fuel words)

def clientApplication : Application CommandCalls SyncState where
  stopsUi := false
  process c _ words s :=
    match clientCommand c words s with
    | .ok _ s' => some (if s'.client.runningApp then .returns else .exits, s')
    | .error (.raised _) s' => some (.raises, s')
    | .error (.crashed _) _ => none
  elsewhere c s :=
    match monitorRound c.pending s with
    | .ok _ s' => some s'
    | .error _ _ => none

theorem process_of_uncrashed {c : CommandCalls} {words : List Text} {s : SyncState}
    (h : ∀ how s', clientCommand c words s ≠ .error (.crashed how) s') (command : Text) :
    ∃ o, clientApplication.process c command words s = some (o, final (clientCommand c words s)) := by
  simp only [clientApplication]
  cases hr : clientCommand c words s with
  | ok _ s' => exact ⟨_, rfl⟩
  | error e s' =>
    cases e with
    | raised what => exact ⟨_, rfl⟩
    | crashed how => exact absurd hr (h how s')

/-! ## What the watcher leaves alone -/

section Watching
variable {R : SyncState → SyncState → Prop} [Std.Refl R] [IsTrans SyncState R]
variable (hR : ∀ s c, R s { s with control := c }) {calls : WatchCalls}
include hR

theorem control_kept (f : SyncControl → SyncControl) : Kept R (control f) := Kept.modify fun s => hR s _

theorem startMonitor_kept : Kept R startMonitor := by
  refine Kept.bind Kept.get fun s => ?_
  split
  exacts [control_kept hR _, Kept.crash _]

theorem startWatching_kept : Kept R (startWatching calls) := by
  refine Kept.bind (control_kept hR _) fun _ => ?_
  by_cases hi : (!calls.inotifyInit) = true
  · rw [if_pos hi]
    exact Kept.raise _
  rw [if_neg hi]
  refine Kept.bind Kept.get fun s => ?_
  by_cases hw : (!calls.addWatch s.client.syncDirPath) = true
  · rw [if_pos hw]
    exact Kept.raise _
  rw [if_neg hw]
  refine Kept.bind (control_kept hR _) fun _ => ?_
  split_ifs
  exacts [startMonitor_kept hR, Kept.raise _]

theorem stopIfRunning_kept (pending : PendingRead) : Kept R (stopIfRunning pending) := by
  refine Kept.bind Kept.get fun s => ?_
  split_ifs
  · refine Kept.bind (control_kept hR _) fun _ => Kept.bind Kept.get fun s => ?_
    split
    · exact Kept.pure _
    · exact control_kept hR _
    · split
      exacts [control_kept hR _, Kept.crash _, Kept.crash _]
  · exact Kept.pure _

theorem monitorRound_kept (pending : PendingRead) : Kept R (monitorRound pending) := by
  refine Kept.bind Kept.get fun s => ?_
  by_cases hm : s.control.monitor = .watching
  · simp only [hm, if_true]
    cases pending with
    | returns =>
      dsimp only
      split_ifs
      exacts [Kept.pure _, control_kept hR _]
    | fails => exact Kept.crash _
    | blocks => exact Kept.pure _
  · simp only [hm, if_false]
    exact Kept.pure _

end Watching

def SameClient (s s' : SyncState) : Prop := s'.client = s.client

instance : Std.Refl SameClient := ⟨fun _ => rfl⟩

instance : IsTrans SyncState SameClient := ⟨fun _ _ _ h₁ h₂ => h₂.trans h₁⟩

theorem process_inv {c : CommandCalls} {buffer : Text} {words : List Text} {s s' : SyncState}
    {v : Verdict} (h : clientApplication.process c buffer words s = some (v, s')) :
    s' = final (clientCommand c words s) ∧
      (v = .returns → clientCommand c words s = .ok () s' ∧ s'.client.runningApp = true) := by
  simp only [clientApplication] at h
  cases hr : clientCommand c words s with
  | ok u t =>
    rw [hr] at h
    obtain ⟨rfl, rfl⟩ := Prod.mk.inj (Option.some.inj h)
    exact ⟨rfl, fun hv => ⟨rfl, by simpa using hv⟩⟩
  | error e t =>
    rw [hr] at h
    cases e with
    | raised what =>
      obtain ⟨rfl, rfl⟩ := Prod.mk.inj (Option.some.inj h)
      exact ⟨rfl, fun hv => by cases hv⟩
    | crashed k => cases h

theorem elsewhere_client {c : CommandCalls} {s s' : SyncState}
    (h : clientApplication.elsewhere c s = some s') : s'.client = s.client := by
  have hs : SameClient s (final (monitorRound c.pending s)) := monitorRound_kept (fun _ _ => rfl) c.pending s
  simp only [clientApplication] at h
  cases hr : monitorRound c.pending s with
  | ok u t =>
    rw [hr] at h hs
    cases h
    exact hs
  | error e t =>
    rw [hr] at h
    cases h

end SyncWizard.Client
