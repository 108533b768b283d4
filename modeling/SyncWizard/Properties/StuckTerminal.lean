import SyncWizard.Properties.SeparateCommands

/-! When the terminal is stuck. Both threads write the string without the mutex, so a notification can
come between the test of the other thread and its sleep. One that is lost in this way is the last one:
both threads end up asleep, and no line is ever handled again unless a thread wakes up by itself. -/

namespace SyncWizard.Properties
open Foundation Common Server

section Stuck
variable {κ σ : Type} {a : Application κ σ} {q q' : Terminal σ} {e : TerminalEvent κ}

def TakesCommands (a : Application κ σ) : Terminal σ → Prop := ComesTo a fun q => q.main = .processing

/-- The notification that the string has changed finds the other thread awake, and about to sleep
because of what the string was. -/
def Lost (e : TerminalEvent κ) (q : Terminal σ) : Prop :=
  match e with
  | .inputs => q.input = .notifying ∧ q.main = .deciding ∧ q.commandBuffer ≠ []
  | .mains => q.main = .notifying ∧ q.input = .deciding ∧ q.commandBuffer = []
  | _ => False

def seeking : MainPlace → Bool
  | .test | .prompting | .locking | .checking | .deciding | .asleep => true
  | _ => false

def yielding : InputPlace → Bool
  | .test | .locking | .checking | .deciding | .asleep => true
  | _ => false

/-- One thread sleeps, or is about to, on a string that the other one waits for as well. -/
def Hung (q : Terminal σ) : Prop :=
  (q.commandBuffer = [] ∧ (q.input = .deciding ∨ q.input = .asleep) ∧ seeking q.main = true) ∨
    (q.commandBuffer ≠ [] ∧ (q.main = .deciding ∨ q.main = .asleep) ∧ yielding q.input = true)

structure Flagged (q : Terminal σ) : Prop where
  up : q.runningApp = true → q.running = true ∧ q.stopRequested = false
  takes : q.main = .processing ∨ q.main = .deciding ∨ q.main = .asleep → q.runningApp = true
  stops : q.main = .stoppingUi ∨ q.main = .requestingStop ∨ q.main = .notifyingAll ∨
    q.main = .joiningAccept ∨ q.main = .quitting → q.runningApp = false
  stays : q.input = .quitting ∨ q.input = .returned → q.runningApp = false
  gone : past q.input = true → q.commandBuffer = [] ∨ q.runningApp = false

theorem Flagged.input_turned (hf : Flagged q) (ht : InputTurn q q') : Flagged q' := by
  have hup (hs : q.stopRequested = true ∨ q.running = false) : q.runningApp = false := by
    by_contra hr
    obtain ⟨h₁, h₂⟩ := hf.up (by simpa using hr)
    rcases hs with hs | hs <;> simp_all
  have hgone := hf.gone
  cases ht with
  | notifies hp | stops hp =>
    have htakes := hf.takes
    have hstops := hf.stops
    have hstays := hf.stays
    refine ⟨hf.up, ?_, ?_, ?_, ?_⟩
    · unfold Terminal.notifyMain
      split_ifs
      · simp
      · exact htakes
    · unfold Terminal.notifyMain
      split_ifs
      · simp
      · exact hstops
    · simp_all [Terminal.notifyMain]
    · simp [Terminal.notifyMain, past]
  | passes hp hw =>
    exact ⟨hf.up, hf.takes, hf.stops, by simp, fun _ => hw.imp_right fun hs => hup (.inl hs)⟩
  | _ => refine ⟨hf.up, hf.takes, hf.stops, ?_, ?_⟩ <;> simp_all [past]

theorem Flagged.main_turned (hf : Flagged q) (ht : MainTurn a q q') : Flagged q' := by
  obtain ⟨hup, htakes, hstops, hstays, hgone⟩ := hf
  cases ht with
  | notifies hp | notifiesAll hp | gives hp =>
    refine ⟨hup, by simp [Terminal.notifyInput], ?_, ?_, ?_⟩
    · simp_all [Terminal.notifyInput]
    · unfold Terminal.notifyInput
      split_ifs
      · simp
      · exact hstays
    · unfold Terminal.notifyInput
      split_ifs
      · simp [past]
      · exact hgone
  | _ => refine ⟨?_, ?_, ?_, hstays, ?_⟩ <;> simp_all

theorem flagged_step (hf : Flagged q) (hs : terminalStep a e q = some q') : Flagged q' := by
  have hfields := hf
  obtain ⟨hup, htakes, hstops, hstays, hgone⟩ := hfields
  cases e with
  | types line =>
    obtain ⟨-, rfl⟩ := types_inv hs
    unfold Terminal.enqueue
    split_ifs with hp
    · exact ⟨hup, htakes, hstops, by simp, fun _ => hgone (by simp [hp, past])⟩
    · exact ⟨hup, htakes, hstops, hstays, hgone⟩
  | inputs => exact hf.input_turned (input_turn_inv hs)
  | mains => exact hf.main_turned (main_turn_inv hs)
  | processes k =>
    obtain ⟨hp, v, app, -, rfl⟩ := processes_inv hs
    have hr := htakes (.inl hp)
    unfold Terminal.conclude
    refine ⟨?_, ?_, ?_, ?_, ?_⟩ <;> cases v <;> cases a.stopsUi <;> simp_all
  | elsewhere k =>
    obtain ⟨app, -, rfl⟩ := elsewhere_inv hs
    exact ⟨hup, htakes, hstops, hstays, hgone⟩
  | acceptEnds =>
    obtain ⟨hp, rfl⟩ := acceptEnds_inv hs
    exact ⟨hup, by simp, by simp, hstays, hgone⟩
  | wakesInput | wakesMain | wakesBuffer =>
    rcases spurious_inv rfl hs with ⟨hp, rfl⟩ | ⟨hp, rfl⟩ | ⟨hp, rfl⟩
    · exact ⟨hup, htakes, hstops, by simp, by simp [past]⟩
    · exact ⟨hup, by simp, by simp, hstays, hgone⟩
    · exact ⟨hup, htakes, hstops, by simp, fun _ => hgone (by simp [hp, past])⟩

theorem start_flagged (queued : List Text) (app : σ) : Flagged (Terminal.start queued app) :=
  ⟨fun _ => ⟨rfl, rfl⟩, by simp [Terminal.start], by simp [Terminal.start], by simp [Terminal.start],
    by simp [Terminal.start, past]⟩

theorem flagged_run {queued : List Text} {app : σ} {es : List (TerminalEvent κ)}
    (hrun : runSteps (terminalStep a) es (Terminal.start queued app) = some q) : Flagged q :=
  runSteps_preserves (fun _ _ _ _ hf hs => flagged_step hf hs) (start_flagged queued app) hrun

theorem Flagged.over (hf : Flagged q) (hr : q.runningApp = false) : Over q :=
  .inr (.inr ⟨hr, fun hp => by simp [hf.takes (.inl hp)] at hr⟩)

/-! ## Stuck for good -/

theorem Hung.input_turned (hh : Hung q) (hf : Flagged q) (hr : q.runningApp = true)
    (ht : InputTurn q q') : Hung q' := by
  obtain ⟨hrun, hstop⟩ := hf.up hr
  rcases hh with ⟨hb, hp, hm⟩ | ⟨hb, hm, hp⟩
  · cases ht <;> simp_all [Hung]
  · refine .inr ?_
    cases ht <;> simp_all [yielding]

theorem Hung.main_turned (hh : Hung q) (hr : q.runningApp = true) (ht : MainTurn a q q') :
    Hung q' ∧ q'.runningApp = true := by
  rcases hh with ⟨hb, hp, hm⟩ | ⟨hb, hm, hp⟩
  · refine ⟨.inl ?_, ?_⟩ <;> cases ht <;> simp_all [seeking]
  · refine ⟨.inr ?_, ?_⟩ <;> cases ht <;> simp_all

theorem Hung.not_processing (hh : Hung q) : q.main ≠ .processing := by
  rcases hh with ⟨-, -, hm⟩ | ⟨-, hm, -⟩
  · intro h
    simp [h, seeking] at hm
  · intro h
    simp [h] at hm

theorem hung_step (hh : Hung q) (hf : Flagged q) (hr : q.runningApp = true) (he : e.spurious = false)
    (hs : terminalStep a e q = some q') : Hung q' ∧ q'.runningApp = true := by
  cases e with
  | types line =>
    obtain ⟨-, rfl⟩ := types_inv hs
    refine ⟨?_, hr⟩
    unfold Terminal.enqueue
    split_ifs with hp
    · rcases hh with ⟨-, hi, -⟩ | ⟨-, -, hi⟩ <;> simp [hp, yielding] at hi
    · exact hh
  | inputs =>
    have ht := input_turn_inv hs
    exact ⟨hh.input_turned hf hr ht, (input_turned_main ht).2.1.trans hr⟩
  | mains => exact hh.main_turned hr (main_turn_inv hs)
  | processes k =>
    obtain ⟨hp, -⟩ := processes_inv hs
    exact absurd hp hh.not_processing
  | elsewhere k =>
    obtain ⟨app, -, rfl⟩ := elsewhere_inv hs
    exact ⟨hh, hr⟩
  | acceptEnds =>
    obtain ⟨hp, -⟩ := acceptEnds_inv hs
    have hstops := hf.stops (by simp [hp])
    simp [hr] at hstops
  | wakesInput | wakesMain | wakesBuffer => cases he

theorem Hung.not_takes (hh : Hung q) (hf : Flagged q) (hr : q.runningApp = true) :
    ¬ TakesCommands a q := by
  refine not_canReach (I := fun q => Hung q ∧ Flagged q ∧ q.runningApp = true) ⟨hh, hf, hr⟩ ?_
    fun s hs => hs.1.not_processing
  rintro e s s' he ⟨hhs, hfs, hrs⟩ hs
  obtain ⟨hhung, hr'⟩ := hung_step hhs hfs hrs he hs
  exact ⟨hhung, flagged_step hfs hs, hr'⟩

theorem Over.not_takes (hq : Over q) : ¬ TakesCommands a q := by
  refine not_canReach (I := Over) hq (fun e s s' _ ho hs => (over_step ho hs).1) fun s hs hp => ?_
  simp [Over, hp] at hs

theorem not_hung_input (hh : ¬ Hung q) (hf : Flagged q) (hr : q.runningApp = true)
    (hl : ¬ Lost (.inputs : TerminalEvent κ) q) (ht : InputTurn q q') : ¬ Hung q' := by
  obtain ⟨hrun, hstop⟩ := hf.up hr
  have hgone := hf.gone
  cases ht with
  | notifies hp =>
    have hwake : ¬ (q.commandBuffer ≠ [] ∧ q.main = .deciding) := fun h => hl ⟨hp, h.2, h.1⟩
    unfold Terminal.notifyMain
    split_ifs with hm <;> simp_all [Hung]
  | stops hp =>
    have hstays := hf.stays (.inl hp)
    simp [hr] at hstays
  | _ => simp_all [Hung, yielding, seeking, past]

theorem not_hung_main (hh : ¬ Hung q) (hr : q.runningApp = true)
    (hl : ¬ Lost (.mains : TerminalEvent κ) q) (ht : MainTurn a q q') : ¬ Hung q' := by
  cases ht with
  | notifies hp =>
    unfold Terminal.notifyInput
    split_ifs with hm
    · simp [Hung]
    · rintro (⟨hb, hi | hi, -⟩ | ⟨-, hi, -⟩)
      · exact hl ⟨hp, hi, hb⟩
      · exact hm hi
      · simp at hi
  | _ => simp_all [Hung, seeking, Terminal.notifyInput]

theorem not_hung_step (hh : ¬ Hung q) (hf : Flagged q) (hl : ¬ Lost e q) (he : e.spurious = false)
    (hs : terminalStep a e q = some q') (hr : q.runningApp = true) : ¬ Hung q' := by
  cases e with
  | types line =>
    obtain ⟨-, rfl⟩ := types_inv hs
    unfold Terminal.enqueue
    split_ifs with hp <;> simp_all [Hung, yielding]
  | inputs => exact not_hung_input hh hf hr hl (input_turn_inv hs)
  | mains => exact not_hung_main hh hr hl (main_turn_inv hs)
  | processes k =>
    obtain ⟨hp, v, app, -, rfl⟩ := processes_inv hs
    unfold Terminal.conclude
    cases v <;> cases a.stopsUi <;> simp [Hung, seeking]
  | elsewhere k =>
    obtain ⟨app, -, rfl⟩ := elsewhere_inv hs
    exact hh
  | acceptEnds =>
    obtain ⟨hp, rfl⟩ := acceptEnds_inv hs
    simp [Hung, seeking]
  | wakesInput | wakesMain | wakesBuffer => cases he

theorem lost_hangs (hl : Lost e q) (hs : terminalStep a e q = some q') : Hung q' := by
  cases e with
  | inputs =>
    obtain ⟨hp, hm, hb⟩ := hl
    cases input_turn_inv hs <;> simp_all [Hung, Terminal.notifyMain, yielding]
  | mains =>
    obtain ⟨hm, hp, hb⟩ := hl
    cases main_turn_inv hs <;> simp_all [Hung, Terminal.notifyInput, seeking]
  | types | processes | elsewhere | acceptEnds | wakesInput | wakesMain | wakesBuffer => cases hl

/-! ## The way to the next command -/

def operating (r : Terminal σ) (input : InputPlace) (main : MainPlace) (buffer : Text)
    (queue words : List Text) : Terminal σ :=
  { r with
    inputBuffer := queue, commandBuffer := buffer, sanitizedCommands := words, running := true
    stopRequested := false, runningApp := true, input := input, main := main }

section Operating
variable (a) (r : Terminal σ) (words : List Text)

theorem processing_takes (input : InputPlace) (buffer : Text) (queue : List Text) :
    TakesCommands a (operating r input .processing buffer queue words) :=
  .here rfl

theorem checking_takes (input : InputPlace) {buffer : Text} (hb : buffer ≠ []) (queue : List Text) :
    TakesCommands a (operating r input .checking buffer queue words) := by
  obtain ⟨c, cs, rfl⟩ := List.exists_cons_of_ne_nil hb
  exact .main rfl (.main rfl (processing_takes a r words input _ queue))

theorem seeking_main {input : InputPlace} (hm : input.holdsMutex = false) {buffer : Text}
    {queue : List Text} (ht : TakesCommands a (operating r input .checking buffer queue words))
    {main : MainPlace} (hp : main = .test ∨ main = .prompting ∨ main = .locking) :
    TakesCommands a (operating r input main buffer queue words) := by
  have hlock : TakesCommands a (operating r input .locking buffer queue words) :=
    .main (if_neg (by simp [operating, hm])) ht
  have hprompt : TakesCommands a (operating r input .prompting buffer queue words) :=
    .main (if_neg (by simp [operating, hm])) hlock
  rcases hp with rfl | rfl | rfl
  · refine .main rfl ?_
    cases a.stopsUi with
    | true => exact hprompt
    | false => exact hlock
  · exact hprompt
  · exact hlock

theorem found_takes (input : InputPlace) {buffer : Text} (hb : buffer ≠ []) (queue : List Text)
    {main : MainPlace} (hp : main = .test ∨ main = .prompting ∨ main = .locking) :
    TakesCommands a (operating r input main buffer queue words) := by
  have hcheck (input : InputPlace) := checking_takes a r words input hb queue
  have hasleep : TakesCommands a (operating r .asleep main buffer queue words) :=
    seeking_main a r words rfl (hcheck _) hp
  have hdeciding : TakesCommands a (operating r .deciding main buffer queue words) := .input rfl hasleep
  by_cases hm : input.holdsMutex = true
  · obtain ⟨c, cs, rfl⟩ := List.exists_cons_of_ne_nil hb
    cases input with
    | checking => exact .input rfl hdeciding
    | deciding => exact hdeciding
    | _ => simp [InputPlace.holdsMutex] at hm
  · exact seeking_main a r words (by simpa using hm) (hcheck _) hp

theorem assigned_takes {main : MainPlace} {buffer : Text} {queue : List Text}
    (hend : ∀ words, TakesCommands a (operating r .notifying main buffer queue words)) :
    TakesCommands a (operating r .assigned main buffer queue words) :=
  .input rfl (.parsing rfl hend)

theorem notifying_takes {buffer : Text} (hb : buffer ≠ []) (queue : List Text) {main : MainPlace}
    (hp : main = .deciding ∨ main = .asleep) :
    TakesCommands a (operating r .notifying main buffer queue words) := by
  have hasleep : TakesCommands a (operating r .notifying .asleep buffer queue words) :=
    .input rfl (found_takes a r words .test hb queue (.inr (.inr rfl)))
  rcases hp with rfl | rfl
  · exact .main rfl hasleep
  · exact hasleep

theorem idle_takes {input : InputPlace} (hm : input.holdsMutex = false) {queue : List Text}
    (ht : TakesCommands a (operating r input .asleep [] queue words)) {main : MainPlace}
    (hp : seeking main = true) : TakesCommands a (operating r input main [] queue words) := by
  have hdeciding : TakesCommands a (operating r input .deciding [] queue words) := .main rfl ht
  have hchecking : TakesCommands a (operating r input .checking [] queue words) := .main rfl hdeciding
  cases main with
  | asleep => exact ht
  | deciding => exact hdeciding
  | checking => exact hchecking
  | test => exact seeking_main a r words hm hchecking (.inl rfl)
  | prompting => exact seeking_main a r words hm hchecking (.inr (.inl rfl))
  | locking => exact seeking_main a r words hm hchecking (.inr (.inr rfl))
  | _ => simp [seeking] at hp

/-! The main thread is asleep, and the string is empty. -/

theorem holding_takes (line : Text) (queue : List Text)
    (hnext : ∀ words, TakesCommands a (operating r .test .asleep [] queue words)) :
    TakesCommands a (operating r (.holding line) .asleep [] queue words) := by
  refine .input rfl (assigned_takes a r words fun words => ?_)
  by_cases hline : line = []
  · subst hline
    exact .input rfl (idle_takes a r words rfl (hnext words) rfl)
  · exact notifying_takes a r words hline queue (.inr rfl)

theorem test_takes (queue : List Text)
    (ht : TakesCommands a (operating r .bufferLocking .asleep [] queue words)) :
    TakesCommands a (operating r .test .asleep [] queue words) :=
  .input rfl (.input rfl (.input rfl (.input rfl ht)))

theorem bufferLocking_takes (queue : List Text) (r : Terminal σ) (words : List Text) :
    TakesCommands a (operating r .bufferLocking .asleep [] queue words) := by
  induction queue generalizing r words with
  | nil =>
    refine .types [120] rfl (.input rfl (.input rfl (.input rfl ?_)))
    refine .input rfl (assigned_takes a _ words fun words => ?_)
    exact notifying_takes a { r with typed := r.typed ++ [[120]], taken := r.taken ++ [[120]] } words
      (by simp) [] (.inr rfl)
  | cons line queue ih =>
    refine .input rfl (.input rfl (.input rfl ?_))
    refine holding_takes a { r with taken := r.taken ++ [line] } words line queue fun words => ?_
    exact test_takes a _ words queue (ih _ words)

theorem bufferAsleep_takes (queue : List Text) :
    TakesCommands a (operating r .bufferAsleep .asleep [] queue words) :=
  .types [] rfl
    (bufferLocking_takes a (queue ++ [[]]) { r with typed := r.typed ++ [[]] } words)

theorem taking_takes (queue : List Text) :
    TakesCommands a (operating r .taking .asleep [] queue words) := by
  have hnext (r : Terminal σ) (queue words : List Text) :=
    test_takes a r words queue (bufferLocking_takes a queue r words)
  cases queue with
  | nil =>
    exact .input rfl (holding_takes a { r with taken := r.taken ++ [[]] } words [] [] (hnext _ []))
  | cons line queue =>
    exact .input rfl
      (holding_takes a { r with taken := r.taken ++ [line] } words line queue (hnext _ queue))

theorem empty_takes {input : InputPlace}
    (hi : input ≠ .deciding ∧ input ≠ .asleep ∧ input ≠ .quitting ∧ input ≠ .returned)
    (queue : List Text) : TakesCommands a (operating r input .asleep [] queue words) := by
  have hbuffer (words : List Text) := bufferLocking_takes a queue r words
  have htest (words : List Text) := test_takes a r words queue (hbuffer words)
  have hnotify (words : List Text) : TakesCommands a (operating r .notifying .asleep [] queue words) :=
    .input rfl (idle_takes a r words rfl (htest words) rfl)
  have hasleep := bufferAsleep_takes a r words queue
  cases input with
  | test => exact htest words
  | locking => exact .input rfl (.input rfl (.input rfl (hbuffer words)))
  | checking => exact .input rfl (.input rfl (hbuffer words))
  | awake => exact .input rfl (hbuffer words)
  | bufferLocking => exact hbuffer words
  | bufferChecking =>
    cases queue with
    | nil => exact .input rfl (.input rfl hasleep)
    | cons line queue => exact .input rfl (taking_takes a r words (line :: queue))
  | bufferDeciding => exact .input rfl hasleep
  | bufferAsleep => exact hasleep
  | taking => exact taking_takes a r words queue
  | holding line => exact holding_takes a r words line queue htest
  | assigned => exact assigned_takes a r words hnotify
  | parsing stream => exact .parsing rfl hnotify
  | notifying => exact hnotify words
  | deciding => exact absurd rfl hi.1
  | asleep => exact absurd rfl hi.2.1
  | quitting => exact absurd rfl hi.2.2.1
  | returned => exact absurd rfl hi.2.2.2

theorem seeking_takes {input : InputPlace}
    (hi : input ≠ .deciding ∧ input ≠ .asleep ∧ input ≠ .quitting ∧ input ≠ .returned)
    (queue : List Text) {main : MainPlace} (hp : seeking main = true) :
    TakesCommands a (operating r input main [] queue words) := by
  by_cases hm : input.holdsMutex = true
  · cases input with
    | checking =>
      have hawake : TakesCommands a (operating r .awake main [] queue words) :=
        idle_takes a r words rfl (empty_takes a r words (by simp) queue) hp
      exact .input rfl hawake
    | deciding => exact absurd rfl hi.1
    | _ => simp [InputPlace.holdsMutex] at hm
  · exact idle_takes a r words (by simpa using hm) (empty_takes a r words hi queue) hp

theorem notified_takes {input : InputPlace} (hi : input ≠ .quitting ∧ input ≠ .returned)
    (buffer : Text) (queue : List Text) :
    TakesCommands a (operating r input .notifying buffer queue words) := by
  have htest (input : InputPlace) (hi : input ≠ .deciding ∧ input ≠ .asleep ∧ input ≠ .quitting ∧
      input ≠ .returned) : TakesCommands a (operating r input .test buffer queue words) := by
    by_cases hb : buffer = []
    · subst hb
      exact seeking_takes a r words hi queue rfl
    · exact found_takes a r words input hb queue (.inl rfl)
  have hasleep : TakesCommands a (operating r .asleep .notifying buffer queue words) :=
    .main rfl (htest .locking (by simp))
  by_cases hd : input = .deciding
  · subst hd
    exact .input rfl hasleep
  by_cases hs : input = .asleep
  · subst hs
    exact hasleep
  have hstep : (operating r input .notifying buffer queue words).mainTurn a =
      some (operating r input .test buffer queue words) := by
    simp [Terminal.mainTurn, operating, Terminal.notifyInput, hs]
  exact .main hstep (htest input ⟨hd, hs, hi⟩)

end Operating

theorem waiting_takes (r : Terminal σ) {input : InputPlace} {main : MainPlace} {buffer : Text}
    (queue words : List Text) (hi : input ≠ .quitting ∧ input ≠ .returned)
    (hp : seeking main = true) (hgone : past input = true → buffer = [])
    (hh : ¬ Hung (operating r input main buffer queue words)) :
    TakesCommands a (operating r input main buffer queue words) := by
  by_cases hb : buffer = []
  · subst hb
    have hno : input ≠ .deciding ∧ input ≠ .asleep := by
      constructor <;> rintro rfl
      · exact hh (.inl ⟨rfl, .inl rfl, hp⟩)
      · exact hh (.inl ⟨rfl, .inr rfl, hp⟩)
    exact seeking_takes a r words ⟨hno.1, hno.2, hi⟩ queue hp
  by_cases hs : main = .deciding ∨ main = .asleep
  · have hnotify (words : List Text) := notifying_takes a r words hb queue hs
    have hy : yielding input = false := by
      by_contra hy
      exact hh (.inr ⟨hb, hs, eq_true_of_ne_false hy⟩)
    cases input with
    | assigned => exact assigned_takes a r words hnotify
    | parsing stream => exact .parsing rfl hnotify
    | notifying => exact hnotify words
    | quitting => exact absurd rfl hi.1
    | returned => exact absurd rfl hi.2
    | test | locking | checking | deciding | asleep => simp [yielding] at hy
    | _ => exact absurd (hgone rfl) hb
  · cases main with
    | test => exact found_takes a r words input hb queue (.inl rfl)
    | prompting => exact found_takes a r words input hb queue (.inr (.inl rfl))
    | locking => exact found_takes a r words input hb queue (.inr (.inr rfl))
    | checking => exact checking_takes a r words input hb queue
    | deciding | asleep => simp at hs
    | _ => simp [seeking] at hp

theorem not_hung_takes (hh : ¬ Hung q) (hf : Flagged q) (hr : q.runningApp = true)
    (hm : q.main ≠ .left ∧ q.main ≠ .joined) : TakesCommands a q := by
  obtain ⟨hrun, hstop⟩ := hf.up hr
  have hi : q.input ≠ .quitting ∧ q.input ≠ .returned := by
    constructor <;> intro h <;> simp [hf.stays (by simp [h])] at hr
  have hgone (hp : past q.input = true) : q.commandBuffer = [] :=
    (hf.gone hp).resolve_right (by simp [hr])
  have hon (hp : q.main = .stoppingUi ∨ q.main = .requestingStop ∨ q.main = .notifyingAll ∨
      q.main = .joiningAccept ∨ q.main = .quitting) : False := by
    simp [hf.stops hp] at hr
  have hq : q = operating q q.input q.main q.commandBuffer q.inputBuffer q.sanitizedCommands := by
    cases q
    simp_all [operating]
  rw [hq] at hh ⊢
  cases hp : q.main with
  | processing => exact processing_takes a q _ _ _ _
  | awake => exact .main rfl (processing_takes a q _ _ _ _)
  | notifying => exact notified_takes a q _ hi _ _
  | clearingWords => exact .main rfl (notified_takes a q [] hi _ _)
  | clearingBuffer => exact .main rfl (.main rfl (notified_takes a q [] hi [] _))
  | test | prompting | locking | checking | deciding | asleep =>
    rw [hp] at hh
    exact waiting_takes q _ _ hi rfl hgone hh
  | stoppingUi | requestingStop | notifyingAll | joiningAccept | quitting =>
    exact (hon (by simp [hp])).elim
  | left => exact absurd hp hm.1
  | joined => exact absurd hp hm.2

/-! ## Whole runs -/

theorem terminalStep_runningApp (hs : terminalStep a e q = some q') (hr : q'.runningApp = true) :
    q.runningApp = true := by
  cases e with
  | types line =>
    obtain ⟨-, rfl⟩ := types_inv hs
    exact hr
  | inputs => exact (input_turned_main (input_turn_inv hs)).2.1.symm.trans hr
  | mains => cases main_turn_inv hs <;> exact hr
  | processes k =>
    obtain ⟨-, v, app, -, rfl⟩ := processes_inv hs
    have hflag : (if v = .exits then false else q.runningApp) = true := hr
    split_ifs at hflag
    exact hflag
  | elsewhere k =>
    obtain ⟨app, -, rfl⟩ := elsewhere_inv hs
    exact hr
  | acceptEnds =>
    obtain ⟨-, rfl⟩ := acceptEnds_inv hs
    exact hr
  | wakesInput | wakesMain | wakesBuffer =>
    rcases spurious_inv rfl hs with ⟨-, rfl⟩ | ⟨-, rfl⟩ | ⟨-, rfl⟩ <;> exact hr

variable {es : List (TerminalEvent κ)}

theorem not_lost_of_takes (hf : Flagged q) (hes : ∀ e ∈ es, e.spurious = false)
    (hrun : runSteps (terminalStep a) es q = some q') (ht : TakesCommands a q') :
    Throughout (terminalStep a) (fun e q => ¬ Lost e q) es q := by
  induction es generalizing q with
  | nil => trivial
  | cons e es ih =>
    obtain ⟨t, hstep, hrest⟩ := runSteps_cons_inv hrun
    have hes' : ∀ e ∈ es, e.spurious = false := fun e he => hes e (List.mem_cons_of_mem _ he)
    have hft := flagged_step hf hstep
    have htakes : TakesCommands a t := ht.of_run hes' hrest
    refine ⟨fun hl => ?_, fun t' ht' => ?_⟩
    · cases hr : t.runningApp with
      | true => exact (lost_hangs hl hstep).not_takes hft hr htakes
      | false => exact (hft.over hr).not_takes htakes
    · obtain rfl := Option.some.inj (hstep.symm.trans ht')
      exact ih hft hes' hrest

theorem not_hung_run (hf : Flagged q) (hh : ¬ Hung q) (hes : ∀ e ∈ es, e.spurious = false)
    (hl : Throughout (terminalStep a) (fun e q => ¬ Lost e q) es q)
    (hrun : runSteps (terminalStep a) es q = some q') :
    Flagged q' ∧ (q'.runningApp = true → ¬ Hung q') := by
  have hC := hl.and (throughout_of_forall (C := fun e _ => e.spurious = false) (fun e he _ => hes e he) q)
  refine runSteps_invariant_along (I := fun _ q => Flagged q ∧ (q.runningApp = true → ¬ Hung q))
    ⟨hf, fun _ => hh⟩ ?_ hC hrun
  rintro - e s s' ⟨hfs, hhs⟩ ⟨hls, he⟩ hs
  refine ⟨flagged_step hfs hs, fun hr => ?_⟩
  have hrs := terminalStep_runningApp hs hr
  exact not_hung_step (hhs hrs) hfs hls he hs hrs

end Stuck

/-- A line is handled, and the notification that the string is empty comes too early for the thread that
waits for it. -/
def lostRun : List (TerminalEvent ServerThread) :=
  comesToRest ++ .types (txt "list") :: (List.replicate 8 .inputs ++ (List.replicate 3 .mains ++
    mainProcesses :: (List.replicate 3 .inputs ++ List.replicate 3 .mains)))

theorem lostRun_unspurious : ∀ e ∈ lostRun, e.spurious = false := by
  simp [lostRun, comesToRest, mainProcesses, TerminalEvent.spurious]

example : ∃ q, runSteps (terminalStep serverApplication) lostRun (Terminal.start [] idleServer) = some q ∧
    q.runningApp = true ∧ ¬ TakesCommands serverApplication q := by
  have hrun : ∃ q, runSteps (terminalStep serverApplication) lostRun (Terminal.start [] idleServer) =
      some q ∧ q.runningApp = true ∧ Hung q := ⟨_, rfl, rfl, .inl ⟨rfl, .inl rfl, rfl⟩⟩
  obtain ⟨q, hrun, hr, hh⟩ := hrun
  exact ⟨q, hrun, hr, hh.not_takes (flagged_run hrun) hr⟩

end SyncWizard.Properties
