import SyncWizard.Client.Program
import SyncWizard.Properties.SeparateCommands

/-! How the programs end. `close` joins the input thread, which leaves its loop when it is told to stop.
The `exit` of the client does not tell it. That of the server does, and notifies it, unless the thread is
between its test and its sleep when the last notification comes. -/

namespace SyncWizard.Properties
open Foundation Common Server Client

section Ending
variable {κ σ : Type} {a : Application κ σ} {q q' : Terminal σ} {e : TerminalEvent κ}

/-- `close` can return, although the threads wake up only when they are notified. -/
def Ends (a : Application κ σ) : Terminal σ → Prop := ComesTo a fun q => q.main = .joined

structure StopFlags (q : Terminal σ) : Prop where
  both : q.main ≠ .requestingStop → (q.running = false ↔ q.stopRequested = true)
  between : q.main = .requestingStop → q.running = false ∧ q.stopRequested = false
  out : q.input = .quitting ∨ q.input = .returned → q.running = false

theorem StopFlags.input_turned (hf : StopFlags q) (ht : InputTurn q q') : StopFlags q' := by
  obtain ⟨hboth, hbetween, hout⟩ := hf
  cases ht with
  | notifies hp | stops hp =>
    unfold Terminal.notifyMain
    split_ifs with hm
    · have hm' : q.main = .asleep := hm
      exact ⟨fun _ => hboth (by simp [hm']), by simp, by simp_all⟩
    · exact ⟨hboth, hbetween, by simp_all⟩
  | quits hp hs =>
    refine ⟨hboth, hbetween, fun _ => ?_⟩
    by_cases hm : q.main = .requestingStop
    · exact (hbetween hm).1
    · exact (hboth hm).mpr hs
  | _ => exact ⟨hboth, hbetween, by simp_all⟩

theorem StopFlags.main_turned (hf : StopFlags q) (ht : MainTurn a q q') : StopFlags q' := by
  obtain ⟨hboth, hbetween, hout⟩ := hf
  cases ht with
  | notifies hp | notifiesAll hp | gives hp =>
    have hflags := hboth (by simp [hp])
    unfold Terminal.notifyInput
    split_ifs
    · exact ⟨fun _ => hflags, by simp, by simp⟩
    · exact ⟨fun _ => hflags, by simp, hout⟩
  | _ => refine ⟨?_, ?_, ?_⟩ <;> simp_all

theorem stopFlags_step (hf : StopFlags q) (hs : terminalStep a e q = some q') : StopFlags q' := by
  have hfields := hf
  obtain ⟨hboth, hbetween, hout⟩ := hfields
  cases e with
  | types line =>
    obtain ⟨-, rfl⟩ := types_inv hs
    unfold Terminal.enqueue
    split_ifs
    · exact ⟨hboth, hbetween, by simp⟩
    · exact ⟨hboth, hbetween, hout⟩
  | inputs => exact hf.input_turned (input_turn_inv hs)
  | mains => exact hf.main_turned (main_turn_inv hs)
  | processes k =>
    obtain ⟨hp, v, app, -, rfl⟩ := processes_inv hs
    have hflags := hboth (by simp [hp])
    unfold Terminal.conclude
    refine ⟨fun _ => hflags, ?_, hout⟩
    cases v <;> cases a.stopsUi <;> simp
  | elsewhere k =>
    obtain ⟨app, -, rfl⟩ := elsewhere_inv hs
    exact ⟨hboth, hbetween, hout⟩
  | acceptEnds =>
    obtain ⟨hp, rfl⟩ := acceptEnds_inv hs
    exact ⟨fun _ => hboth (by simp [hp]), by simp, hout⟩
  | wakesInput | wakesMain | wakesBuffer =>
    rcases spurious_inv rfl hs with ⟨hp, rfl⟩ | ⟨hp, rfl⟩ | ⟨hp, rfl⟩
    · exact ⟨hboth, hbetween, by simp⟩
    · exact ⟨fun _ => hboth (by simp [hp]), by simp, hout⟩
    · exact ⟨hboth, hbetween, by simp⟩

theorem start_stopFlags (queued : List Text) (app : σ) : StopFlags (Terminal.start queued app) :=
  ⟨fun _ => by simp [Terminal.start], by simp [Terminal.start], by simp [Terminal.start]⟩

/-! ## The join that does not return -/

theorem left_step (hm : q.main = .left) (hi : q.input ≠ .returned) (hs : terminalStep a e q = some q') :
    q'.main = .left ∧ q'.running = q.running ∧ q'.stopRequested = q.stopRequested ∧
      (q'.input = q.input ∨ e = .inputs ∧ InputTurn q q' ∨ q.input = .bufferAsleep ∧
        q'.input = .bufferLocking ∨ e.spurious = true ∧ q'.input = .locking) := by
  cases e with
  | types line =>
    obtain ⟨-, rfl⟩ := types_inv hs
    refine ⟨hm, rfl, rfl, ?_⟩
    unfold Terminal.enqueue
    split_ifs with hp
    · exact .inr (.inr (.inl ⟨hp, rfl⟩))
    · exact .inl rfl
  | inputs =>
    have ht := input_turn_inv hs
    refine ⟨?_, ?_, ?_, .inr (.inl ⟨rfl, ht⟩)⟩ <;> cases ht <;> simp_all [Terminal.notifyMain]
  | mains =>
    cases main_turn_inv hs <;> simp_all
  | processes k =>
    obtain ⟨hp, -⟩ := processes_inv hs
    simp [hm] at hp
  | elsewhere k =>
    obtain ⟨app, -, rfl⟩ := elsewhere_inv hs
    exact ⟨hm, rfl, rfl, .inl rfl⟩
  | acceptEnds =>
    obtain ⟨hp, -⟩ := acceptEnds_inv hs
    simp [hm] at hp
  | wakesInput | wakesMain | wakesBuffer =>
    rcases spurious_inv rfl hs with ⟨hp, rfl⟩ | ⟨hp, rfl⟩ | ⟨hp, rfl⟩
    · exact ⟨hm, rfl, rfl, .inr (.inr (.inr ⟨rfl, rfl⟩))⟩
    · simp [hm] at hp
    · exact ⟨hm, rfl, rfl, .inr (.inr (.inl ⟨hp, rfl⟩))⟩

theorem not_ends_asleep (hm : q.main = .left) (hp : q.input = .deciding ∨ q.input = .asleep) :
    ¬ Ends a q := by
  refine not_canReach
    (I := fun q : Terminal σ => q.main = .left ∧ (q.input = .deciding ∨ q.input = .asleep))
    ⟨hm, hp⟩ ?_ fun s hs hj => by simp [hs.1] at hj
  rintro e s s' he ⟨hms, hps⟩ hs
  have hreturned : s.input ≠ .returned := by rcases hps with h | h <;> simp [h]
  obtain ⟨hm', -, -, hp' | ⟨-, ht⟩ | ⟨hp', -⟩ | ⟨he', -⟩⟩ := left_step hms hreturned hs
  · exact ⟨hm', hp' ▸ hps⟩
  · refine ⟨hm', ?_⟩
    cases ht <;> simp_all
  · simp [hp'] at hps
  · exact absurd (he.symm.trans he') (by decide)

theorem not_ends_running (hm : q.main = .left) (hf : StopFlags q) (hs : q.stopRequested = false) :
    ¬ Ends a q := by
  have hrun : q.running = true := by
    by_contra hr
    have hstop := (hf.both (by simp [hm])).mp (by simpa using hr)
    simp [hs] at hstop
  refine not_canReach (I := fun q : Terminal σ => q.main = .left ∧ StopFlags q ∧ q.running = true ∧
    q.stopRequested = false) ⟨hm, hf, hrun, hs⟩ ?_ fun s hs hj => by simp [hs.1] at hj
  rintro e s s' - ⟨hms, hfs, hrs, hss⟩ hs
  have hreturned : s.input ≠ .returned := fun hp => by simp [hfs.out (.inr hp)] at hrs
  obtain ⟨hm', hr', hs', -⟩ := left_step hms hreturned hs
  exact ⟨hm', stopFlags_step hfs hs, hr'.trans hrs, hs'.trans hss⟩

/-! ## The join that does -/

section Closing
variable (a) (r : Terminal σ) (buffer : Text) (queue words : List Text)

def closing (input : InputPlace) : Terminal σ :=
  { r with
    inputBuffer := queue, commandBuffer := buffer, sanitizedCommands := words, running := false
    stopRequested := true, input := input, main := .left }

theorem returned_ends : Ends a (closing r buffer queue words .returned) := by
  have hjoin : (closing r buffer queue words .returned).mainTurn a =
      some { closing r buffer queue words .returned with main := .joined } := rfl
  exact .main hjoin (.here rfl)

theorem test_ends : Ends a (closing r buffer queue words .test) :=
  .input rfl (returned_ends a r buffer queue words)

theorem awake_ends : Ends a (closing r buffer queue words .awake) :=
  .input rfl (.input rfl (returned_ends a r buffer queue words))

theorem checking_ends : Ends a (closing r buffer queue words .checking) := by
  refine .input ?_ (awake_ends a r buffer queue words)
  simp [Terminal.inputTurn, closing]

theorem notifying_ends : Ends a (closing r buffer queue words .notifying) :=
  .input rfl (test_ends a r buffer queue words)

theorem assigned_ends : Ends a (closing r buffer queue words .assigned) :=
  .input rfl (.parsing rfl fun words => notifying_ends a r buffer queue words)

theorem holding_ends (line : Text) : Ends a (closing r buffer queue words (.holding line)) :=
  .input rfl (assigned_ends a r line queue words)

theorem taking_ends : Ends a (closing r buffer queue words .taking) := by
  cases queue with
  | nil => exact .input rfl (holding_ends a { r with taken := r.taken ++ [[]] } buffer [] words [])
  | cons line queue =>
    exact .input rfl (holding_ends a { r with taken := r.taken ++ [line] } buffer queue words line)

theorem bufferLocking_ends : Ends a (closing r buffer queue words .bufferLocking) := by
  have hfinds (r : Terminal σ) : Ends a (closing r buffer (queue ++ [[]]) words .bufferChecking) := by
    refine .input ?_ (taking_ends a r buffer (queue ++ [[]]) words)
    simp [Terminal.inputTurn, closing]
  exact .types [] rfl (.input rfl (hfinds { r with typed := r.typed ++ [[]] }))

theorem bufferAsleep_ends : Ends a (closing r buffer queue words .bufferAsleep) :=
  .types [] rfl (bufferLocking_ends a { r with typed := r.typed ++ [[]] } buffer (queue ++ [[]]) words)

theorem closing_ends {input : InputPlace} (hd : input ≠ .deciding) (hs : input ≠ .asleep) :
    Ends a (closing r buffer queue words input) := by
  have hbuffer := bufferAsleep_ends a r buffer queue words
  cases input with
  | test => exact test_ends a r buffer queue words
  | locking => exact .input rfl (checking_ends a r buffer queue words)
  | checking => exact checking_ends a r buffer queue words
  | awake => exact awake_ends a r buffer queue words
  | bufferLocking => exact bufferLocking_ends a r buffer queue words
  | bufferChecking =>
    cases queue with
    | nil => exact .input rfl (.input rfl hbuffer)
    | cons line queue => exact .input rfl (taking_ends a r buffer (line :: queue) words)
  | bufferDeciding => exact .input rfl hbuffer
  | bufferAsleep => exact hbuffer
  | taking => exact taking_ends a r buffer queue words
  | holding line => exact holding_ends a r buffer queue words line
  | assigned => exact assigned_ends a r buffer queue words
  | parsing stream => exact .parsing rfl fun words => notifying_ends a r buffer queue words
  | notifying => exact notifying_ends a r buffer queue words
  | quitting => exact .input rfl (returned_ends a r buffer queue words)
  | returned => exact returned_ends a r buffer queue words
  | deciding => exact absurd rfl hd
  | asleep => exact absurd rfl hs

end Closing

theorem ends_iff (hf : StopFlags q) (hm : q.main = .left) :
    Ends a q ↔ q.stopRequested = true ∧ q.input ≠ .deciding ∧ q.input ≠ .asleep := by
  constructor
  · intro he
    refine ⟨?_, fun hp => not_ends_asleep hm (.inl hp) he, fun hp => not_ends_asleep hm (.inr hp) he⟩
    by_contra hs
    exact not_ends_running hm hf (by simpa using hs) he
  · rintro ⟨hs, hd, ha⟩
    have hrun := (hf.both (by simp [hm])).mpr hs
    have hq : q = closing q q.commandBuffer q.inputBuffer q.sanitizedCommands q.input := by
      cases q
      simp_all [closing]
    rw [hq]
    exact closing_ends a q _ _ _ hd ha

theorem stopFlags_run {queued : List Text} {app : σ} {es : List (TerminalEvent κ)}
    (hrun : runSteps (terminalStep a) es (Terminal.start queued app) = some q) : StopFlags q :=
  runSteps_preserves (fun _ _ _ _ hf hs => stopFlags_step hf hs) (start_stopFlags queued app) hrun

/-! ## The client -/

structure NeverStopped (q : Terminal σ) : Prop where
  runs : q.running = true
  stays : q.stopRequested = false
  inside : q.input ≠ .quitting ∧ q.input ≠ .returned
  waits : q.main ≠ .stoppingUi ∧ q.main ≠ .requestingStop ∧ q.main ≠ .notifyingAll ∧
    q.main ≠ .joiningAccept ∧ q.main ≠ .joined

theorem neverStopped_step (ha : a.stopsUi = false) (hn : NeverStopped q)
    (hs : terminalStep a e q = some q') : NeverStopped q' := by
  obtain ⟨hr, hst, hi, hm⟩ := hn
  cases e with
  | types line =>
    obtain ⟨-, rfl⟩ := types_inv hs
    refine ⟨hr, hst, ?_, hm⟩
    unfold Terminal.enqueue
    split_ifs
    · simp
    · exact hi
  | inputs =>
    have hmain := (input_turned_main (input_turn_inv hs)).1
    refine ⟨?_, ?_, ?_, ?_⟩
    · cases input_turn_inv hs <;> exact hr
    · cases input_turn_inv hs <;> exact hst
    · cases input_turn_inv hs <;> simp_all [Terminal.notifyMain]
    · rcases hmain with h | ⟨-, h⟩
      · rwa [h]
      · simp [h]
  | mains =>
    cases main_turn_inv hs with
    | notifies hp | notifiesAll hp | gives hp =>
      refine ⟨hr, hst, ?_, by simp_all [Terminal.notifyInput]⟩
      unfold Terminal.notifyInput
      split_ifs
      · simp
      · exact hi
    | _ => exact ⟨by simp_all, by simp_all, by simp_all, by simp_all⟩
  | processes k =>
    obtain ⟨-, v, app, -, rfl⟩ := processes_inv hs
    refine ⟨hr, hst, hi, ?_⟩
    unfold Terminal.conclude
    rw [ha]
    cases v <;> simp
  | elsewhere k =>
    obtain ⟨app, -, rfl⟩ := elsewhere_inv hs
    exact ⟨hr, hst, hi, hm⟩
  | acceptEnds =>
    obtain ⟨hp, -⟩ := acceptEnds_inv hs
    exact absurd hp hm.2.2.2.1
  | wakesInput | wakesMain | wakesBuffer =>
    rcases spurious_inv rfl hs with ⟨-, rfl⟩ | ⟨-, rfl⟩ | ⟨-, rfl⟩
    · exact ⟨hr, hst, by simp, hm⟩
    · exact ⟨hr, hst, hi, by simp⟩
    · exact ⟨hr, hst, by simp, hm⟩

/-! ## The server -/

theorem processInput_exits (uiBuffer : Text) (words : List Text) (s : ServerProgram) :
    (processInput uiBuffer words s).1 ≠ .raises ∧
      ((processInput uiBuffer words s).1 = .exits ↔ words = [txt "exit"]) := by
  match words with
  | [] => simp [processInput]
  | [command] =>
    rw [processInput]
    split_ifs with hc <;> simp [hc]
  | [command, args] =>
    rw [processInput]
    split_ifs <;> simp
  | _ :: _ :: _ :: _ => simp [processInput]

structure ServerLoop (q : Terminal ServerProgram) : Prop where
  up : q.runningApp = true → q.running = true ∧ q.stopRequested = false
  stopping : q.main = .stoppingUi → q.running = true ∧ q.stopRequested = false
  stopped : q.runningApp = false →
    q.main = .stoppingUi ∨ q.main = .requestingStop ∨ q.stopRequested = true
  ended : q.main = .left ∨ q.main = .joined ∨ q.main = .quitting ∨ q.main = .stoppingUi ∨
    q.main = .requestingStop ∨ q.main = .notifyingAll ∨ q.main = .joiningAccept → q.runningApp = false
  takes : q.main = .processing → q.runningApp = true
  exits : q.runningApp = false ↔ [txt "exit"] ∈ q.handled
  last : [txt "exit"] ∉ q.handled.dropLast

section Loop
variable {s s' : Terminal ServerProgram} {t : TerminalEvent ServerThread}

theorem ServerLoop.main_turned (hl : ServerLoop s) (ht : MainTurn serverApplication s s') :
    ServerLoop s' := by
  obtain ⟨hup, hstopping, hstopped, hover, htakes, hexits, hlast⟩ := hl
  cases ht with
  | notifies hp | notifiesAll hp | gives hp =>
    refine ⟨hup, by simp [Terminal.notifyInput], ?_, ?_, by simp [Terminal.notifyInput], hexits, hlast⟩
    · simp_all [Terminal.notifyInput]
    · simp_all [Terminal.notifyInput]
  | _ => refine ⟨?_, ?_, ?_, ?_, ?_, hexits, hlast⟩ <;> simp_all

theorem ServerLoop.conclude (hl : ServerLoop s) (hp : s.main = .processing) {v : Verdict}
    (hr : v ≠ .raises) (hv : v = .exits ↔ s.sanitizedCommands = [txt "exit"]) (app : ServerProgram) :
    ServerLoop (s.conclude serverApplication v app) := by
  obtain ⟨hup, hstopping, hstopped, hover, htakes, hexits, hlast⟩ := hl
  have hruns := htakes hp
  have hnone : [txt "exit"] ∉ s.handled := fun h => by simp [hexits.mpr h] at hruns
  have hlast' : [txt "exit"] ∉ (s.handled ++ [s.sanitizedCommands]).dropLast := by
    rwa [List.dropLast_concat]
  cases v with
  | raises => exact absurd rfl hr
  | returns =>
    have hwords : s.sanitizedCommands ≠ [txt "exit"] := fun h => by simpa using hv.mpr h
    refine ⟨hup, by simp [Terminal.conclude], fun h => ?_, by simp [Terminal.conclude],
      by simp [Terminal.conclude], ?_, hlast'⟩
    · exact absurd (hruns.symm.trans h) (by decide)
    · refine iff_of_false (fun h => absurd (hruns.symm.trans h) (by decide)) fun h => ?_
      rcases List.mem_append.mp h with h | h
      · exact hnone h
      · exact hwords (List.mem_singleton.mp h).symm
  | exits =>
    refine ⟨by simp [Terminal.conclude], fun _ => hup hruns, fun _ => .inl rfl, fun _ => rfl,
      by simp [Terminal.conclude, serverApplication], ?_, hlast'⟩
    refine iff_of_true rfl (List.mem_append_right _ ?_)
    rw [hv.mp rfl]
    exact List.mem_singleton_self _

theorem serverLoop_step (hl : ServerLoop s) (hs : terminalStep serverApplication t s = some s') :
    ServerLoop s' := by
  have hfields := hl
  obtain ⟨hup, hstopping, hstopped, hover, htakes, hexits, hlast⟩ := hfields
  cases t with
  | types line =>
    obtain ⟨-, rfl⟩ := types_inv hs
    exact ⟨hup, hstopping, hstopped, hover, htakes, hexits, hlast⟩
  | inputs =>
    have ht := input_turn_inv hs
    obtain ⟨hmain, -⟩ := input_turned_main ht
    have hsame : s'.running = s.running ∧ s'.stopRequested = s.stopRequested ∧
        s'.runningApp = s.runningApp ∧ s'.handled = s.handled := by
      cases ht <;> exact ⟨rfl, rfl, rfl, rfl⟩
    obtain ⟨h₁, h₂, h₃, h₄⟩ := hsame
    rcases hmain with hm | ⟨hm, hm'⟩
    · exact ⟨by rwa [h₁, h₂, h₃], by rwa [h₁, h₂, hm], by rwa [h₂, h₃, hm], by rwa [h₃, hm],
        by rwa [h₃, hm], by rwa [h₃, h₄], by rwa [h₄]⟩
    · refine ⟨by rwa [h₁, h₂, h₃], by simp [hm'], ?_, by simp [hm'], by simp [hm'], by rwa [h₃, h₄],
        by rwa [h₄]⟩
      rw [h₂, h₃]
      simpa [hm, hm'] using hstopped
  | mains => exact hl.main_turned (main_turn_inv hs)
  | processes k =>
    obtain ⟨hp, v, app, hprocess, rfl⟩ := processes_inv hs
    obtain ⟨hr, hv⟩ := processInput_exits s.commandBuffer s.sanitizedCommands s.app
    have hresult : processInput s.commandBuffer s.sanitizedCommands s.app = (v, app) :=
      Option.some.inj hprocess
    rw [hresult] at hr hv
    exact hl.conclude hp hr hv app
  | elsewhere k =>
    obtain ⟨app, -, rfl⟩ := elsewhere_inv hs
    exact ⟨hup, hstopping, hstopped, hover, htakes, hexits, hlast⟩
  | acceptEnds =>
    obtain ⟨hp, rfl⟩ := acceptEnds_inv hs
    refine ⟨hup, by simp, ?_, by simp, by simp, hexits, hlast⟩
    simpa [hp] using hstopped
  | wakesInput | wakesMain | wakesBuffer =>
    rcases spurious_inv rfl hs with ⟨-, rfl⟩ | ⟨hp, rfl⟩ | ⟨-, rfl⟩
    · exact ⟨hup, hstopping, hstopped, hover, htakes, hexits, hlast⟩
    · refine ⟨hup, by simp, ?_, by simp, by simp, hexits, hlast⟩
      simpa [hp] using hstopped
    · exact ⟨hup, hstopping, hstopped, hover, htakes, hexits, hlast⟩

end Loop

end Ending

/-- `close` never returns on a client: after `exit` its process waits for the input thread, which goes on
waiting for lines, whatever is typed and however the threads take turns. -/
theorem client_never_closes (queued : List Text) (app : SyncState) (es : List (TerminalEvent CommandCalls))
    (q : Terminal SyncState)
    (hrun : runSteps (terminalStep clientApplication) es (Terminal.start queued app) = some q) :
    q.main ≠ .joined ∧ q.input ≠ .returned := by
  have hn : NeverStopped q := runSteps_preserves (fun _ _ _ _ hn hs => neverStopped_step rfl hn hs)
    ⟨rfl, rfl, by simp [Terminal.start], by simp [Terminal.start]⟩ hrun
  exact ⟨hn.waits.2.2.2.2, hn.inside.2⟩

def idleClient : SyncState :=
  ⟨⟨⟨3, 0, fun _ => [], fun _ => [], fun _ => true⟩, ⟨[], ∅, []⟩, [], [], fun _ => none, [], true, false,
      false⟩,
    ⟨true, false, false, .none, []⟩⟩

def commandCalls : CommandCalls := ⟨pageHost.1, 2, ⟨true, fun _ => true, true⟩, .blocks⟩

def helpRun : List (TerminalEvent CommandCalls) :=
  List.replicate 7 .inputs ++ .types (txt "help") :: (List.replicate 8 .inputs ++
    (List.replicate 4 .mains ++ .processes commandCalls :: List.replicate 7 .mains))

def partingRun : List (TerminalEvent CommandCalls) :=
  List.replicate 7 .inputs ++ .types (txt "exit") :: (List.replicate 8 .inputs ++ List.replicate 4 .mains)

def partingClient : Terminal SyncState :=
  ⟨[], txt "exit", [txt "exit"], true, false, true, .test, .processing, idleClient, [txt "exit"],
    [txt "exit"], []⟩

def leavingRun : List (TerminalEvent CommandCalls) :=
  partingRun ++ .processes commandCalls :: (List.replicate 4 .mains ++ List.replicate 7 .inputs)

theorem idle_leaves : ∃ s, clientCommand commandCalls [txt "exit"] idleClient = .ok () s ∧
    s.client.runningApp = false := by
  let p := Packet.init.withCommand (Packet.commandArray (txt "exit"))
  obtain ⟨m, hsend⟩ : ∃ m, sendPacket pageHost.1 2 p (-1) idleClient.client.net = .ok () m :=
    ⟨_, sendPacket_atOnce rfl rfl rfl 0⟩
  let w : ClientState := { idleClient.client with net := m }
  have hsent : Client.onNet (sendPacket pageHost.1 2 p (-1)) idleClient.client = .ok () w :=
    run_zoom_ok hsend
  obtain ⟨w', hclean⟩ : ∃ w', (do
      let _ ← deleteTemporaryDownloadFiles pageHost.1 (← get).syncDirPath : ClientExec Unit) w =
      .ok () w' := ⟨_, rfl⟩
  have hfarewell : (do
      let p ← Packet.init.setCommand (txt "exit")
      modify fun w : ClientState => { w with senderBuffer := [] }
      Client.onNet (sendPacket pageHost.1 2 p (-1))
      let _ ← deleteTemporaryDownloadFiles pageHost.1 (← get).syncDirPath) idleClient.client =
      .ok () w' :=
    (run_bind_ok (Packet.setCommand_fits (by decide) _) _).trans
      ((run_bind_ok (run_modify _ _) _).trans ((run_bind_ok hsent _).trans hclean))
  exact ⟨_, (run_bind_ok (run_zoom_ok hfarewell) _).trans rfl, rfl⟩

theorem client_never_closes_left :
    ∃ q, runSteps (terminalStep clientApplication) leavingRun (Terminal.start [] idleClient) = some q ∧
      q.handled = [[txt "exit"]] ∧ q.main = .left ∧ q.input = .bufferAsleep ∧
        q.main ≠ .joined ∧ q.input ≠ .returned := by
  obtain ⟨s, hleaves, hstopped⟩ := idle_leaves
  have hparting : runSteps (terminalStep clientApplication) partingRun (Terminal.start [] idleClient) =
      some partingClient := rfl
  have hprocess : clientApplication.process commandCalls partingClient.commandBuffer
      partingClient.sanitizedCommands partingClient.app = some (.exits, s) := by
    simp [partingClient, clientApplication, hleaves, hstopped]
  have hrun : runSteps (terminalStep clientApplication) leavingRun (Terminal.start [] idleClient) =
      some { partingClient.conclude clientApplication .exits s with
        commandBuffer := [], sanitizedCommands := [], input := .bufferAsleep, main := .left } :=
    (runSteps_append _ hparting).trans ((runSteps_cons (processes_step rfl hprocess)).trans rfl)
  exact ⟨_, hrun, rfl, rfl, rfl, client_never_closes [] idleClient leavingRun _ hrun⟩

/-- The loop of the server ends with the first `exit` that it handles. The process can then end exactly if
the input thread has not missed the notifications that come with it. -/
theorem server_closes_iff (queued : List Text) (app : ServerProgram)
    (es : List (TerminalEvent ServerThread)) (q : Terminal ServerProgram)
    (hrun : runSteps (terminalStep serverApplication) es (Terminal.start queued app) = some q) :
    (q.runningApp = false ↔ [txt "exit"] ∈ q.handled) ∧ [txt "exit"] ∉ q.handled.dropLast ∧
      (q.main = .left → [txt "exit"] ∈ q.handled ∧
        (Ends serverApplication q ↔ q.input ≠ .deciding ∧ q.input ≠ .asleep)) := by
  have hl : ServerLoop q := runSteps_preserves (fun _ _ _ _ hl hs => serverLoop_step hl hs)
    ⟨fun _ => ⟨rfl, rfl⟩, fun _ => ⟨rfl, rfl⟩, by simp [Terminal.start], by simp [Terminal.start],
      fun _ => rfl, by simp [Terminal.start], by simp [Terminal.start]⟩ hrun
  refine ⟨hl.exits, hl.last, fun hm => ?_⟩
  have hr := hl.ended (.inl hm)
  have hs : q.stopRequested = true := by
    rcases hl.stopped hr with h | h | h
    · simp [hm] at h
    · simp [hm] at h
    · exact h
  refine ⟨hl.exits.mp hr, ?_⟩
  rw [ends_iff (stopFlags_run hrun) hm]
  exact and_iff_right hs

def exitRun : List (TerminalEvent ServerThread) :=
  comesToRest ++ .types (txt "exit") :: (List.replicate 8 .inputs ++ (List.replicate 3 .mains ++
    mainProcesses :: (List.replicate 3 .mains ++ .acceptEnds :: List.replicate 4 .mains)))

theorem server_closes_exit :
    ∃ q, runSteps (terminalStep serverApplication) exitRun (Terminal.start [] idleServer) = some q ∧
      (q.runningApp = false ↔ [txt "exit"] ∈ q.handled) ∧ [txt "exit"] ∉ q.handled.dropLast ∧
        (q.main = .left → [txt "exit"] ∈ q.handled ∧
          (Ends serverApplication q ↔ q.input ≠ .deciding ∧ q.input ≠ .asleep)) :=
  ⟨_, rfl, server_closes_iff [] idleServer exitRun _ rfl⟩

example : ∃ es q, runSteps (terminalStep serverApplication) es (Terminal.start [] idleServer) = some q ∧
    [txt "exit"] ∈ q.handled ∧ ¬ Ends serverApplication q := by
  have hrun : ∃ q, runSteps (terminalStep serverApplication)
      (comesToRest ++ .types (txt "exit") :: (List.replicate 8 .inputs ++ (List.replicate 3 .mains ++
        (List.replicate 3 .inputs ++ mainProcesses :: (List.replicate 3 .mains ++
          .acceptEnds :: List.replicate 4 .mains))))) (Terminal.start [] idleServer) = some q ∧
      [txt "exit"] ∈ q.handled ∧ q.main = .left ∧ q.input = .deciding := by
    exact ⟨_, rfl, List.mem_singleton_self _, rfl, rfl⟩
  obtain ⟨q, hrun, he, hm, hp⟩ := hrun
  exact ⟨_, q, hrun, he, not_ends_asleep hm (.inl hp)⟩

end SyncWizard.Properties
