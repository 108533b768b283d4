import SyncWizard.Server.Admission
import SyncWizard.Server.Overseer
import SyncWizard.Server.Runs

/-! Whether the overseer spares the sessions that answer its pings. It compares the clock with a reading
that no code ever takes, so what counts is the age of the clock and not that of the last answer. -/

namespace SyncWizard.Properties
open Foundation Common Server

inductive TimedEvent where
  | creates (h : Host) (identity : Identity) (now : TimePoint)
  | responds (s : SessionId) (now : TimePoint)
  | checks (s : SessionId) (now : TimePoint)
  | acts (e : Event)

/-- The server, and for each session when it was created or last answered a ping, which the code keeps
nowhere. -/
structure Watched extends TimedServer where
  lastSign : SessionId → Option TimePoint

def started (server : ServerState) : Watched := ⟨⟨server, fun _ => .init⟩, fun _ => none⟩

section Watching
variable {α : Type}

def onTimed (p : TimedExec α) : Exec Watched α :=
  zoom Watched.toTimedServer (fun t w => { w with toTimedServer := t }) p

theorem onTimed_forEach (f : α → TimedExec Unit) (as : List α) :
    onTimed (forEach f as) = forEach (fun a => onTimed (f a)) as := by
  unfold onTimed
  apply zoom_forEach
  · exact fun _ _ => rfl
  · exact fun _ _ _ => rfl
  · exact fun _ => rfl

def notes (s : SessionId) (now : TimePoint) : Exec Watched Unit :=
  modify fun w => { w with lastSign := Function.update w.lastSign s (some now) }

def watch : TimedEvent → Exec Watched Unit
  | .creates h identity now => quiet do
    let s ← onTimed (createSession h identity)
    notes s now
  | .responds s now => do
    onTimed (timedRespondedPing now s)
    notes s now
  | .checks s now => onTimed (attempt (overseeSession now s) fun _ => crash .terminate)
  | .acts e => onTimed (onState (Server.step e))

end Watching

def Responsive (w : Watched) (s : SessionId) (now : TimePoint) : Prop :=
  ∃ sign, w.lastSign s = some sign ∧ now - sign ≤ 5 * minute

def Pinged (w : Watched) (s : SessionId) (now : TimePoint) : Prop :=
  watch (.checks s now) w = .ok () { w with server := w.server.push s (Packet.ofCommand (txt "ping")) }

def SparesResponsive : TimedEvent → Watched → Prop
  | .checks s now, w => Responsive w s now → Pinged w s now
  | _, _ => True

/-- The clock itself is less than six minutes old when a responsive session is checked. -/
def ClockIsYoung : TimedEvent → Watched → Prop
  | .checks s now, w => Responsive w s now → now < 6 * minute
  | _, _ => True

def Untimed (t : TimedServer) : Prop := ∀ s, t.timing s = .init

section Checks
variable {w : Watched} {s : SessionId} {now : TimePoint}

theorem minutesBetween_epoch (now : TimePoint) : minutesBetween now 0 ≤ 5 ↔ now < 6 * minute := by
  have hpos : (0 : ℤ) < minute := by decide
  rw [minutesBetween, Int.sub_zero]
  rcases le_or_gt 0 now with hnow | hnow
  · rw [Int.tdiv_eq_ediv_of_nonneg hnow, ← Int.lt_add_one_iff]
    exact Int.ediv_lt_iff_lt_mul hpos
  · have hnegative : now.tdiv minute ≤ 0 := by
      rw [← Int.neg_neg now, Int.neg_tdiv]
      exact Int.neg_nonpos_of_nonneg (Int.tdiv_nonneg (Int.neg_nonneg_of_nonpos hnow.le) hpos.le)
    exact iff_of_true (hnegative.trans (by decide)) (hnow.trans (by decide))

theorem overseeSession_untimed (t : TimedServer) (ht : Untimed t) :
    overseeSession now s t =
      (if now < 6 * minute then onState (sendPing s)
        else onState (disconnect s (txt "Kicked due to inactivity"))) t := by
  have hlast : getLastPing s t = .ok 0 t := by
    rw [getLastPing, run_bind_ok (run_get t), ht s]
    rfl
  rw [overseeSession, run_bind_ok hlast]
  by_cases hnow : now < 6 * minute
  · rw [if_pos hnow, if_neg (not_lt.mpr ((minutesBetween_epoch now).mpr hnow))]
  · rw [if_neg hnow, if_pos (not_le.mp fun hle => hnow ((minutesBetween_epoch now).mp hle))]

theorem pinged_iff (hw : Untimed w.toTimedServer) : Pinged w s now ↔ now < 6 * minute := by
  rw [Pinged, watch, onTimed, run_zoom, attempt, overseeSession_untimed _ hw]
  by_cases hnow : now < 6 * minute
  · rw [if_pos hnow]
    have hping : onState (sendPing s) w.toTimedServer =
        .ok () { w.toTimedServer with server := w.server.push s (Packet.ofCommand (txt "ping")) } :=
      run_zoom_ok (Packet.mount_run (by decide))
    rw [hping]
    exact iff_of_true rfl hnow
  · rw [if_neg hnow]
    obtain ⟨what, hkick⟩ : ∃ what, disconnect s (txt "Kicked due to inactivity") w.server =
        .error (.raised what) w.server := by
      obtain ⟨what, hraise⟩ :
          ∃ what, answerWith s (txt "exit") (txt "Kicked due to inactivity") w.server =
          .error (.raised what) w.server := Packet.mountWith_raises (by decide)
      exact ⟨what, run_bind_error hraise _⟩
    have hkicked : onState (disconnect s (txt "Kicked due to inactivity")) w.toTimedServer =
        .error (.raised what) w.toTimedServer := run_zoom_error hkick
    rw [hkicked]
    exact iff_of_false (fun hok => by cases hok) hnow

end Checks

/-! ## Runs -/

def StaysUntimed (t t' : TimedServer) : Prop := Untimed t → Untimed t'

instance : Std.Refl StaysUntimed := ⟨fun _ ht => ht⟩

instance : IsTrans TimedServer StaysUntimed := ⟨fun _ _ _ h₁ h₂ ht => h₂ (h₁ ht)⟩

def WatchedUntimed (w w' : Watched) : Prop := StaysUntimed w.toTimedServer w'.toTimedServer

instance : Std.Refl WatchedUntimed := ⟨fun _ ht => ht⟩

instance : IsTrans Watched WatchedUntimed := ⟨fun _ _ _ h₁ h₂ ht => h₂ (h₁ ht)⟩

section Steps
variable {α : Type}

theorem onState_untimed (p : ServerExec α) : Kept StaysUntimed (onState p) := by
  intro t ht
  rw [onState, final_zoom]
  exact ht

theorem onTimed_untimed {p : TimedExec α} (hp : Kept StaysUntimed p) :
    Kept WatchedUntimed (onTimed p) :=
  Kept.zoom hp fun _ _ hs => hs

theorem notes_untimed (s : SessionId) (now : TimePoint) : Kept WatchedUntimed (notes s now) :=
  Kept.modify fun _ ht => ht

/-- The constructor sets the readings to the epoch, and nothing else sets them. -/
theorem createSession_untimed (h : Host) (identity : Identity) :
    Kept StaysUntimed (createSession h identity) := by
  refine Kept.bind (onState_untimed _) fun s =>
    Kept.bind (Kept.modify fun t ht => ?_) fun _ => Kept.pure _
  intro s'
  by_cases hs : s' = s
  · subst hs
    exact Function.update_self ..
  · exact (Function.update_of_ne hs ..).trans (ht s')

theorem overseeSession_kept (now : TimePoint) (s : SessionId) :
    Kept StaysUntimed (overseeSession now s) := by
  refine Kept.bind (Kept.bind Kept.get fun _ => Kept.pure _) fun last => ?_
  dsimp only
  split_ifs
  exacts [onState_untimed _, onState_untimed _]

theorem watch_untimed (e : TimedEvent) : Kept WatchedUntimed (watch e) := by
  cases e with
  | creates h identity now =>
    refine Kept.attempt ?_ fun _ => Kept.pure _
    refine Kept.bind (onTimed_untimed (createSession_untimed h identity)) fun s => ?_
    exact notes_untimed s now
  | responds s now =>
    refine Kept.bind (onTimed_untimed ?_) fun _ => notes_untimed s now
    exact Kept.bind Kept.get fun _ => onState_untimed _
  | checks s now =>
    exact onTimed_untimed (Kept.attempt (overseeSession_kept now s) fun _ => Kept.crash _)
  | acts e => exact onTimed_untimed (onState_untimed _)

theorem watch_keeps {e : TimedEvent} {w w' : Watched} (hrun : watch e w = .ok () w')
    (hw : Untimed w.toTimedServer) : Untimed w'.toTimedServer := by
  have hkept := watch_untimed e w hw
  rwa [hrun] at hkept

theorem overseerRound_checks (u : UserId) (clock : SessionId → TimePoint) (w : Watched) :
    onTimed (overseerRound u clock) w =
      forEach watch ((w.server.user u).sessions.map fun s => .checks s (clock s)) w := by
  have hround : overseerRound u clock w.toTimedServer =
      forEach (fun s => attempt (overseeSession (clock s) s) fun _ => crash .terminate)
        (w.server.user u).sessions w.toTimedServer := by
    rw [overseerRound, run_bind_ok (run_get _), attempt_forEach]
  have hzoom : onTimed (overseerRound u clock) w =
      onTimed (forEach (fun s => attempt (overseeSession (clock s) s) fun _ => crash .terminate)
        (w.server.user u).sessions) w := by
    simp only [onTimed, zoom, hround]
  rw [hzoom, forEach_map, onTimed_forEach]
  rfl

theorem spares_iff (e : TimedEvent) {w : Watched} (hw : Untimed w.toTimedServer) :
    SparesResponsive e w ↔ ClockIsYoung e w := by
  cases e with
  | checks s now => exact forall_congr' fun _ => pinged_iff hw
  | _ => exact Iff.rfl

end Steps

/-- In a run of a session with its overseer every check of a responsive session sends a ping just when
each such check is made before the clock is six minutes old. -/
theorem responsive_pinged_iff (es : List TimedEvent) (server : ServerState) :
    Along watch SparesResponsive es (started server) ↔ Along watch ClockIsYoung es (started server) :=
  along_congr (I := fun _ w => Untimed w.toTimedServer) (fun _ _ _ hrun hw _ => watch_keeps hrun hw)
    (fun e _ hw => spares_iff e hw) fun _ _ => rfl

def ana : Identity := registeredAs 4 (txt "ana") (txt "laptop") 0

def idle : ServerState := .init ⟨3, 0, fun _ => [], fun _ => [], fun _ => true⟩ ⟨[], ∅, []⟩

theorem new_session_kicked : ¬ ∀ es server, Along watch SparesResponsive es (started server) := by
  intro hall
  let now : TimePoint := 1700000000000000000
  have hrun := hall [.creates pageHost.1 ana now, .checks 0 (now + minute)] idle
  let w : Watched := ⟨⟨idle.allocate ana, Function.update (fun _ => .init) 0 .init⟩,
    Function.update (fun _ => none) 0 (some now)⟩
  have hcreated : watch (.creates pageHost.1 ana now) (started idle) = .ok () w := by
    have hnew : onState (newSession pageHost.1 ana) (started idle).toTimedServer =
        .ok 0 ⟨idle.allocate ana, fun _ => .init⟩ := run_zoom_ok (newSession_run ana rfl rfl)
    have hsession : createSession pageHost.1 ana (started idle).toTimedServer = .ok 0 w.toTimedServer :=
      run_bind_ok hnew _
    exact run_quiet_ok (run_bind_ok (run_zoom_ok hsession) _)
  obtain ⟨-, hrest⟩ := hrun
  obtain ⟨hspared, -⟩ := hrest w hcreated
  have hresponsive : Responsive w 0 (now + minute) := ⟨now, rfl, by decide⟩
  have hw : Untimed w.toTimedServer := watch_keeps hcreated fun _ => rfl
  exact absurd ((pinged_iff hw).mp (hspared hresponsive)) (by decide)

end SyncWizard.Properties
