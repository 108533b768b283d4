import SyncWizard.Client.Sync
import SyncWizard.Foundation.Schedules

/-! Whether the watcher of the folder is started once at a time. The flag that would tell a second
`get sync dir` of the first is never set. -/

namespace SyncWizard.Properties
open Foundation Common Client

/-- What a step may do: `start_watching` finds no thread, a thread that watches is one that the watcher
knows to run, and a start while it does has no effect. -/
structure StartsOnce (step : SyncStep) (s : SyncState) : Prop where
  starts : ∀ found ∈ (final (step.perform s)).control.starts, found = .none
  running : ∀ s', step.perform s = .ok () s' → s'.control.monitor = .watching →
    s'.control.isRunning = true
  unchanged : ∀ h calls, step = .getSyncDir h calls → s.control.monitor = .watching →
    step.perform s = .ok () s

/-- The main loop takes no `get sync dir` while a thread watches. -/
def FreeToStart (step : SyncStep) (s : SyncState) : Prop :=
  ∀ h calls, step = .getSyncDir h calls → s.control.mainLoop = true → s.client.runningApp = true →
    s.control.monitor ≠ .watching

def syncStart (w : ClientState) : SyncState := ⟨w, ⟨true, false, false, .none, []⟩⟩

structure Tidy (c : SyncControl) : Prop where
  runningSync : c.runningSync = false
  monitor : c.monitor = .none ∨ c.monitor = .watching ∧ c.isRunning = true
  starts : ∀ found ∈ c.starts, found = .none

structure Settles (p : SyncExec Unit) (s : SyncState) : Prop where
  starts : ∀ found ∈ (final (p s)).control.starts, found = .none
  tidy : (∀ how s', p s ≠ .error (.crashed how) s') → Tidy (final (p s)).control

section Programs
variable {p k : SyncExec Unit} {s s' : SyncState} {α : Type}

theorem settles_of_tidy (ht : Tidy (final (p s)).control) : Settles p s := ⟨ht.starts, fun _ => ht⟩

theorem settles_congr {p' : SyncExec Unit} {s' : SyncState} (he : p s = p' s') (hs : Settles p' s') :
    Settles p s := by
  obtain ⟨hstarts, htidy⟩ := hs
  exact ⟨by rwa [he], by rwa [he]⟩

theorem settles_of_crash {how : Crash} (he : p s = .error (.crashed how) s')
    (hstarts : ∀ found ∈ s'.control.starts, found = .none) : Settles p s := by
  constructor
  · rwa [he]
  · exact fun hno => absurd he (hno how s')

theorem onClient_control (p : ClientExec α) (s : SyncState) :
    (final (onClient p s)).control = s.control := by
  rw [onClient, final_zoom]

theorem settles_onClient (q : ClientExec Unit) (hs : Tidy s.control)
    (hk : ∀ s', s'.control = s.control → Settles k s') : Settles (do onClient q; k) s := by
  have hcontrol := onClient_control q s
  cases hq : onClient q s with
  | ok u s' =>
    rw [hq] at hcontrol
    exact settles_congr (run_bind_ok hq _) (hk s' hcontrol)
  | error e s' =>
    rw [hq] at hcontrol
    refine settles_of_tidy ?_
    rw [run_bind_error hq, final_error, show s'.control = s.control from hcontrol]
    exact hs

theorem settles_userCommand (hs : Tidy s.control) (hp : Settles p s) : Settles (userCommand p) s := by
  by_cases hloop : (s.control.mainLoop && s.client.runningApp) = true
  swap
  · refine settles_of_tidy ?_
    rw [userCommand, run_bind_ok (run_get s), if_neg hloop]
    exact hs
  have hrun : userCommand p s =
      attempt p (fun _ => control fun c => { c with mainLoop := false }) s := by
    rw [userCommand, run_bind_ok (run_get s), if_pos hloop]
  obtain ⟨hstarts, htidy⟩ := hp
  cases hr : p s with
  | ok u s' =>
    refine settles_of_tidy ?_
    rw [hrun, run_attempt_ok hr]
    rw [hr] at htidy
    exact htidy fun how s' he => by cases he
  | error e s' =>
    rw [hr] at hstarts htidy
    cases e with
    | raised what =>
      obtain ⟨hsync, hmonitor, -⟩ := htidy fun how s' he => by cases he
      refine settles_of_tidy ?_
      rw [hrun, run_attempt_raised hr]
      exact ⟨hsync, hmonitor, hstarts⟩
    | crashed how =>
      exact settles_of_crash (hrun.trans (run_attempt_crashed hr _)) hstarts

/-! ## Starting -/

theorem startMonitor_none (hm : s.control.monitor = .none) :
    startMonitor s = .ok () { s with control := { s.control with monitor := .watching } } := by
  rw [startMonitor, run_bind_ok (run_get s), hm]
  rfl

theorem startMonitor_watching (hm : s.control.monitor = .watching) :
    startMonitor s = .error (.crashed .terminate) s := by
  rw [startMonitor, run_bind_ok (run_get s), hm]
  rfl

section Starting
variable {calls : WatchCalls}

def foundBy (s : SyncState) : SyncState :=
  { s with control := { s.control with starts := s.control.starts ++ [s.control.monitor] } }

def announced (s : SyncState) : SyncState :=
  { foundBy s with control := { (foundBy s).control with isRunning := true } }

theorem startWatching_cases (calls : WatchCalls) (s : SyncState) :
    (∃ what, startWatching calls s = .error (.raised what) (foundBy s) ∨
      startWatching calls s = .error (.raised what) (announced s)) ∨
    startWatching calls s = startMonitor (announced s) := by
  have hfound : control (fun c => { c with starts := c.starts ++ [c.monitor] }) s =
      .ok () (foundBy s) := rfl
  have hrunning : control (fun c => { c with isRunning := true }) (foundBy s) =
      .ok () (announced s) := rfl
  rw [startWatching, run_bind_ok hfound]
  cases calls.inotifyInit with
  | false => exact .inl ⟨_, .inl rfl⟩
  | true =>
    rw [if_neg (by decide), run_bind_ok (run_get _)]
    cases calls.addWatch (foundBy s).client.syncDirPath with
    | false => exact .inl ⟨_, .inl rfl⟩
    | true =>
      rw [if_neg (by decide), run_bind_ok hrunning]
      cases calls.spawns with
      | false => exact .inl ⟨_, .inr rfl⟩
      | true => exact .inr rfl

theorem settles_startWatching (hs : Tidy s.control) (hm : s.control.monitor = .none) :
    Settles (startWatching calls) s := by
  have hstarts : ∀ found ∈ (foundBy s).control.starts, found = .none := by
    intro found hfound
    rcases List.mem_append.mp hfound with hfound | hfound
    · exact hs.starts found hfound
    · exact (List.mem_singleton.mp hfound).trans hm
  refine settles_of_tidy ?_
  rcases startWatching_cases calls s with ⟨what, hr | hr⟩ | hr
  · rw [hr]
    exact ⟨hs.runningSync, .inl hm, hstarts⟩
  · rw [hr]
    exact ⟨hs.runningSync, .inl hm, hstarts⟩
  · have hnone : (announced s).control.monitor = .none := hm
    rw [hr, startMonitor_none hnone]
    exact ⟨hs.runningSync, .inr ⟨rfl, rfl⟩, hstarts⟩

theorem startWatching_watching (hm : s.control.monitor = .watching) (u : Unit) (s' : SyncState) :
    startWatching calls s ≠ .ok u s' := by
  intro hok
  rcases startWatching_cases calls s with ⟨what, hr | hr⟩ | hr
  · cases hr.symm.trans hok
  · cases hr.symm.trans hok
  · have hwatching : (announced s).control.monitor = .watching := hm
    rw [hr, startMonitor_watching hwatching] at hok
    cases hok

variable {h : Host}

theorem startSync_idle (hs : s.control.runningSync = false) :
    startSync h calls s = (do onClient (prepareDirectories h); initWatcher; startWatching calls) s := by
  rw [startSync, run_bind_ok (run_get s), hs]
  rfl

theorem settles_startSync (hs : Tidy s.control) (hm : s.control.monitor = .none) :
    Settles (startSync h calls) s := by
  refine settles_congr (startSync_idle hs.runningSync) (settles_onClient _ hs fun s' hcontrol => ?_)
  let stopped : SyncState := { s' with control := { s'.control with isRunning := false } }
  have hm' : stopped.control.monitor = .none := by
    rw [← hm, ← hcontrol]
  have hs' : Tidy stopped.control := by
    rw [← hcontrol] at hs
    exact ⟨hs.runningSync, .inl hm', hs.starts⟩
  exact settles_congr (run_bind_ok (show initWatcher s' = .ok () stopped from rfl) _)
    (settles_startWatching hs' hm')

theorem startSync_watching (hs : Tidy s.control) (hm : s.control.monitor = .watching) (u : Unit)
    (s' : SyncState) : startSync h calls s ≠ .ok u s' := by
  intro hok
  rw [startSync_idle hs.runningSync] at hok
  obtain ⟨u₁, s₁, hprepare, hok⟩ := run_bind_inv hok
  obtain ⟨u₂, s₂, hinit, hok⟩ := run_bind_inv hok
  have hcontrol := onClient_control (prepareDirectories h) s
  rw [hprepare] at hcontrol
  cases hinit
  refine startWatching_watching ?_ u s' hok
  exact (congrArg SyncControl.monitor hcontrol).trans hm

end Starting

/-! ## Stopping -/

section Stopping
variable {pending : PendingRead}

theorem stopIfRunning_cases (pending : PendingRead) (hs : Tidy s.control) :
    (∃ s', stopIfRunning pending s = .ok () s' ∧ Tidy s'.control) ∨
      ∃ how s', stopIfRunning pending s = .error (.crashed how) s' ∧
        s'.control.starts = s.control.starts := by
  obtain ⟨hsync, hmonitor, hstarts⟩ := hs
  let stopped : SyncState := { s with control := { s.control with isRunning := false } }
  have hget : stopIfRunning pending s =
      (if s.control.isRunning then stopWatching pending else pure ()) s := by
    rw [stopIfRunning, run_bind_ok (run_get s)]
  have hstop : stopWatching pending s = joinMonitor pending stopped := by
    have hflag : control (fun c => { c with isRunning := false }) s = .ok () stopped := rfl
    rw [stopWatching, run_bind_ok hflag]
  by_cases hrunning : s.control.isRunning = true
  swap
  · refine .inl ⟨s, ?_, hsync, hmonitor, hstarts⟩
    rw [hget, if_neg hrunning]
    rfl
  rw [hget, if_pos hrunning, hstop]
  unfold joinMonitor
  rw [run_bind_ok (run_get stopped)]
  rcases hmonitor with hnone | ⟨hwatching, -⟩
  · rw [show stopped.control.monitor = .none from hnone]
    exact .inl ⟨stopped, rfl, hsync, .inl hnone, hstarts⟩
  · rw [show stopped.control.monitor = .watching from hwatching]
    cases pending with
    | returns => exact .inl ⟨_, rfl, hsync, .inl rfl, hstarts⟩
    | fails => exact .inr ⟨.terminate, stopped, rfl, rfl⟩
    | blocks => exact .inr ⟨.hang, stopped, rfl, rfl⟩

theorem settles_stop (hs : Tidy s.control) :
    Settles (do stopIfRunning pending; onClient (modify ClientState.stop)) s := by
  rcases stopIfRunning_cases pending hs with ⟨s', hr, hs'⟩ | ⟨how, s', hr, hstarts⟩
  · exact settles_congr (run_bind_ok hr _) (settles_of_tidy hs')
  · refine settles_of_crash (run_bind_error hr _) ?_
    rw [hstarts]
    exact hs.starts

theorem settles_exitSync {h : Host} {fuel : ℕ} (hs : Tidy s.control) :
    Settles (exitSync h fuel pending) s :=
  settles_onClient _ hs fun _ hcontrol => settles_stop (hcontrol ▸ hs)

theorem settles_monitorRound (hs : Tidy s.control) : Settles (monitorRound pending) s := by
  have hget : monitorRound pending s = _ := run_bind_ok (run_get s) _
  rcases hs.monitor with hnone | ⟨hwatching, hrunning⟩
  · refine settles_of_tidy ?_
    rw [hget, if_neg (by rw [hnone]; decide)]
    exact hs
  · rw [if_pos hwatching] at hget
    cases pending with
    | returns =>
      refine settles_of_tidy ?_
      rw [hget]
      dsimp only
      rw [if_pos hrunning]
      exact hs
    | fails => exact settles_of_crash hget hs.starts
    | blocks =>
      refine settles_of_tidy ?_
      rw [hget]
      exact hs

end Stopping

/-! ## Steps and runs -/

section Steps
variable {step : SyncStep}

theorem userCommand_idle (hloop : ¬ (s.control.mainLoop = true ∧ s.client.runningApp = true)) :
    userCommand p s = .ok () s := by
  have hno : ¬ (s.control.mainLoop && s.client.runningApp) = true := by
    rwa [Bool.and_eq_true]
  rw [userCommand, run_bind_ok (run_get s), if_neg hno]
  rfl

theorem step_settles (hs : Tidy s.control) (hfree : FreeToStart step s) : Settles step.perform s := by
  cases step with
  | getSyncDir h calls =>
    by_cases hloop : s.control.mainLoop = true ∧ s.client.runningApp = true
    · have hm : s.control.monitor = .none :=
        hs.monitor.resolve_right fun hw => hfree h calls rfl hloop.1 hloop.2 hw.1
      exact settles_userCommand hs (settles_startSync hs hm)
    · refine settles_of_tidy ?_
      rw [SyncStep.perform, userCommand_idle hloop]
      exact hs
  | exit h fuel pending => exact settles_userCommand hs (settles_exitSync hs)
  | serverExit pending => exact settles_stop hs
  | monitorRound pending => exact settles_monitorRound hs

theorem start_while_watching {h : Host} {calls : WatchCalls} (hs : Tidy s.control)
    (hloop : s.control.mainLoop = true) (happ : s.client.runningApp = true)
    (hm : s.control.monitor = .watching) : (SyncStep.getSyncDir h calls).perform s ≠ .ok () s := by
  intro hsame
  have hrun : (SyncStep.getSyncDir h calls).perform s =
      attempt (startSync h calls) (fun _ => control fun c => { c with mainLoop := false }) s := by
    have htrue : (s.control.mainLoop && s.client.runningApp) = true := by
      rw [hloop, happ]
      rfl
    rw [SyncStep.perform, userCommand, run_bind_ok (run_get s), if_pos htrue]
  rw [hrun] at hsame
  cases hr : startSync h calls s with
  | ok u s' => exact startSync_watching hs hm u s' hr
  | error e s' =>
    cases e with
    | raised what =>
      rw [run_attempt_raised hr] at hsame
      cases hsame
      cases hloop
    | crashed how =>
      rw [run_attempt_crashed hr] at hsame
      cases hsame

theorem startsOnce_iff (hs : Tidy s.control) : StartsOnce step s ↔ FreeToStart step s := by
  constructor
  · rintro honce h calls rfl hloop happ hm
    exact start_while_watching hs hloop happ hm (honce.unchanged h calls rfl hm)
  · intro hfree
    have hsettles := step_settles hs hfree
    refine ⟨hsettles.starts, fun s' hr hm => ?_, ?_⟩
    · have htidy := hsettles.tidy fun how s'' he => by cases hr.symm.trans he
      rw [hr] at htidy
      rcases htidy.monitor with hnone | hw
      · cases hm.symm.trans hnone
      · exact hw.2
    · rintro h calls rfl hm
      refine userCommand_idle ?_
      rintro ⟨hloop, happ⟩
      exact hfree h calls rfl hloop happ hm

theorem step_tidy (hs : Tidy s.control) (honce : StartsOnce step s) (hr : syncStep step s = some s') :
    Tidy s'.control := by
  have hsettles := step_settles hs ((startsOnce_iff hs).mp honce)
  unfold syncStep at hr
  split at hr
  · rename_i hok
    cases hr
    have htidy := hsettles.tidy fun how s'' he => by cases hok.symm.trans he
    rwa [hok] at htidy
  · cases hr

end Steps

end Programs

/-- In a run of commands and rounds of the thread all is well exactly if no `get sync dir` is taken while
a thread watches. -/
theorem watcher_once_iff (w : ClientState) (steps : List SyncStep) :
    Throughout syncStep StartsOnce steps (syncStart w) ↔
      Throughout syncStep FreeToStart steps (syncStart w) := by
  have hstart : Tidy (syncStart w).control :=
    ⟨rfl, .inl rfl, fun found hfound => absurd hfound List.not_mem_nil⟩
  exact throughout_congr (I := fun s => Tidy s.control) hstart (fun step s hs => startsOnce_iff hs)
    fun step s s' hs honce hr => step_tidy hs honce hr

def folderedClient : ClientState :=
  ⟨⟨3, 0, fun _ => [], fun _ => [], fun _ => true⟩,
    ⟨[], (AList.singleton [⟨txt "sync dir", by decide⟩] .directory).insert
      [⟨txt "downloads", by decide⟩] .directory, []⟩,
    [], [], fun _ => none, [], true, true, true⟩

def workingStart : SyncStep := .getSyncDir pageHost.1 ⟨true, fun _ => true, true⟩

theorem second_start_terminates :
    (∃ s, syncStep workingStart (syncStart folderedClient) = some s ∧
      s.control.monitor = .watching ∧
      ∃ s', workingStart.perform s = .error (.crashed .terminate) s' ∧
        s'.control.starts = [.none, .watching]) ∧
    ¬ Throughout syncStep StartsOnce [workingStart, workingStart] (syncStart folderedClient) := by
  have hruns : ∃ s, syncStep workingStart (syncStart folderedClient) = some s ∧
      s.control.monitor = .watching ∧
      ∃ s', workingStart.perform s = .error (.crashed .terminate) s' ∧
        s'.control.starts = [.none, .watching] := ⟨_, rfl, rfl, _, rfl, rfl⟩
  refine ⟨hruns, fun honce => ?_⟩
  obtain ⟨s, hfirst, hm, s', hsecond, -⟩ := hruns
  have hsame := (honce.2 s hfirst).1.unchanged _ _ rfl hm
  cases hsecond.symm.trans hsame

end SyncWizard.Properties
