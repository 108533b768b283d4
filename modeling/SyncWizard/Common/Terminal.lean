import SyncWizard.Common.Text
import SyncWizard.Foundation.Schedules
import SyncWizard.Foundation.Words

/-! How a typed line gets to the commands of a program. `capture_loop` queues the lines, `input_loop` of
`UserInterface` takes one at a time and cuts it into words, and the main loop of the program reads
them. Between the last two there are a string, a vector and one condition variable. Both threads test
the string under the mutex of the variable, and both write without it. A call on the string, the vector
or the queue of lines is one step, although nothing keeps it apart from a call of another thread; what
calls that overlap may leave is a step of its own. -/

namespace SyncWizard.Common
open Foundation

inductive Verdict where
  | returns
  | exits
  | raises
  deriving DecidableEq, Repr

/-- A program behind its main loop. Its `exit` either clears a flag of its own, or calls `stop`, which
stops the user interface as well. -/
structure Application (κ σ : Type) where
  stopsUi : Bool
  /-- What a command does that finds this string and these words, unless the process ends in it. -/
  process : κ → Text → List Text → σ → Option (Verdict × σ)
  elsewhere : κ → σ → Option σ

/-- Where `input_loop` is. A thread that wakes up locks its mutex and looks again, as one that comes to
the wait does. -/
inductive InputPlace where
  | test
  | locking
  -- with the mutex, before the predicate of `cv_->wait`
  | checking
  | deciding
  | asleep
  | awake
  | bufferLocking
  | bufferChecking
  | bufferDeciding
  | bufferAsleep
  -- between the wait and `front`, without the mutex
  | taking
  | holding (line : Text)
  -- the string is written, and the stream is not made yet
  | assigned
  | parsing (stream : Text)
  | notifying
  | quitting
  | returned
  deriving DecidableEq, Repr

inductive MainPlace where
  | test
  -- the server locks and unlocks the mutex before it waits
  | prompting
  | locking
  | checking
  | deciding
  | asleep
  | awake
  | processing
  | stoppingUi
  | requestingStop
  | notifyingAll
  | joiningAccept
  | clearingBuffer
  | clearingWords
  | notifying
  | quitting
  | left
  | joined
  deriving DecidableEq, Repr

namespace InputPlace

def holdsMutex : InputPlace → Bool
  | .checking | .deciding => true
  | _ => false

def holdsInputMtx : InputPlace → Bool
  | .bufferChecking | .bufferDeciding => true
  | _ => false

end InputPlace

def MainPlace.holdsMutex : MainPlace → Bool
  | .checking | .deciding => true
  | _ => false

/-- `runningApp` is `running_app_` of the client; on the server it is `running_`, which its thread clears
where it sets `stop_requested_`. The lines that were typed and those that `get_buffer` has returned, and
the words that were handled, are kept for the record. -/
structure Terminal (σ : Type) where
  inputBuffer : List Text
  commandBuffer : Text
  sanitizedCommands : List Text
  running : Bool
  stopRequested : Bool
  runningApp : Bool
  input : InputPlace
  main : MainPlace
  app : σ
  typed : List Text
  taken : List Text
  handled : List (List Text)

inductive TerminalEvent (κ : Type) where
  -- the enter key: a line is queued and `input_cv` notified under `input_mtx`
  | types (line : Text)
  | inputs
  | mains
  | processes (k : κ)
  | elsewhere (k : κ)
  | acceptEnds
  | wakesInput
  | wakesMain
  | wakesBuffer

def TerminalEvent.spurious {κ : Type} : TerminalEvent κ → Bool
  | .wakesInput | .wakesMain | .wakesBuffer => true
  | _ => false

def lineWords (line : Text) : List Text := wordsOf isspace line

def TerminalEvent.line {κ : Type} : TerminalEvent κ → Option Text
  | .types line => some line
  | _ => none

namespace Terminal
variable {κ σ : Type}

def start (queued : List Text) (app : σ) : Terminal σ :=
  ⟨queued, [], [], true, false, true, .test, .test, app, queued, [], []⟩

def notifyInput (q : Terminal σ) : Terminal σ :=
  { q with input := if q.input = .asleep then .locking else q.input }

def notifyMain (q : Terminal σ) : Terminal σ :=
  { q with main := if q.main = .asleep then .locking else q.main }

def inputTurn (q : Terminal σ) : Option (Terminal σ) :=
  match q.input with
  | .test => some { q with input := if q.running then .locking else .returned }
  | .locking => if q.main.holdsMutex then none else some { q with input := .checking }
  | .checking => some { q with
      input := if q.commandBuffer.isEmpty || q.stopRequested then .awake else .deciding }
  | .deciding => some { q with input := .asleep }
  | .awake => some { q with input := if q.stopRequested then .quitting else .bufferLocking }
  | .bufferLocking => some { q with input := .bufferChecking }
  | .bufferChecking => some { q with
      input := if q.inputBuffer.isEmpty then .bufferDeciding else .taking }
  | .bufferDeciding => some { q with input := .bufferAsleep }
  | .taking =>
    match q.inputBuffer with
    | line :: lines => some { q with
        inputBuffer := lines, taken := q.taken ++ [line], input := .holding line }
    | [] => some { q with taken := q.taken ++ [[]], input := .holding [] }
  | .holding line => some { q with commandBuffer := line, input := .assigned }
  | .assigned => some { q with input := .parsing q.commandBuffer }
  | .parsing stream =>
    match extract isspace stream with
    | some (token, stream) => some { q with
        sanitizedCommands := q.sanitizedCommands ++ [token], input := .parsing stream }
    | none => some { q with input := .notifying }
  | .notifying => some { q with input := .test }.notifyMain
  | .quitting => some { q with input := .returned }.notifyMain
  | .asleep | .bufferAsleep | .returned => none

section Steps
variable (a : Application κ σ)

def mainTurn (q : Terminal σ) : Option (Terminal σ) :=
  match q.main with
  | .test => some { q with
      main := if q.runningApp then if a.stopsUi then .prompting else .locking else .left }
  | .prompting => if q.input.holdsMutex then none else some { q with main := .locking }
  | .locking => if q.input.holdsMutex then none else some { q with main := .checking }
  | .checking => some { q with
      main := if !q.commandBuffer.isEmpty || !q.runningApp then .awake else .deciding }
  | .deciding => some { q with main := .asleep }
  | .awake => some { q with main := if q.runningApp then .processing else .quitting }
  | .stoppingUi =>
    if q.running && !q.stopRequested then some { q with running := false, main := .requestingStop }
    else some { q with main := .left }
  | .requestingStop => some { q with stopRequested := true, main := .notifyingAll }
  | .notifyingAll => some { q with main := .joiningAccept }.notifyInput
  | .clearingBuffer => some { q with commandBuffer := [], main := .clearingWords }
  | .clearingWords => some { q with sanitizedCommands := [], main := .notifying }
  | .notifying => some { q with main := .test }.notifyInput
  | .quitting => some { q with main := .left }.notifyInput
  | .left => if q.input = .returned then some { q with main := .joined } else none
  | .asleep | .processing | .joiningAccept | .joined => none

def conclude (q : Terminal σ) (v : Verdict) (app : σ) : Terminal σ :=
  { q with
    app := app
    handled := q.handled ++ [q.sanitizedCommands]
    runningApp := if v = .exits then false else q.runningApp
    main :=
      match v with
      | .returns => .clearingBuffer
      | .exits => if a.stopsUi then .stoppingUi else .clearingBuffer
      | .raises => .left }

def enqueue (q : Terminal σ) (line : Text) : Terminal σ :=
  { q with
    inputBuffer := q.inputBuffer ++ [line]
    typed := q.typed ++ [line]
    input := if q.input = .bufferAsleep then .bufferLocking else q.input }

end Steps

end Terminal

def terminalStep {κ σ : Type} (a : Application κ σ) :
    TerminalEvent κ → Terminal σ → Option (Terminal σ)
  | .types line, q => if q.input.holdsInputMtx then none else some (q.enqueue line)
  | .inputs, q => q.inputTurn
  | .mains, q => q.mainTurn a
  | .processes k, q =>
    if q.main = .processing then
      (a.process k q.commandBuffer q.sanitizedCommands q.app).map fun r => q.conclude a r.1 r.2
    else none
  | .elsewhere k, q => (a.elsewhere k q.app).map fun app => { q with app := app }
  | .acceptEnds, q =>
    if q.main = .joiningAccept then some { q with main := .clearingBuffer } else none
  | .wakesInput, q => if q.input = .asleep then some { q with input := .locking } else none
  | .wakesMain, q => if q.main = .asleep then some { q with main := .locking } else none
  | .wakesBuffer, q =>
    if q.input = .bufferAsleep then some { q with input := .bufferLocking } else none

/-! ## Calls that overlap -/

inductive SharedObject where
  | inputBuffer
  | commandBuffer
  | sanitizedCommands

namespace InputPlace

def changes : InputPlace → SharedObject → Bool
  | .taking, .inputBuffer | .holding _, .commandBuffer | .parsing _, .sanitizedCommands => true
  | _, _ => false

def calls : InputPlace → SharedObject → Bool
  | .checking, .commandBuffer | .assigned, .commandBuffer => true
  | p, o => p.changes o

end InputPlace

namespace MainPlace

def changes : MainPlace → SharedObject → Bool
  | .clearingBuffer, .commandBuffer | .clearingWords, .sanitizedCommands => true
  | _, _ => false

def calls : MainPlace → SharedObject → Bool
  | .checking, .commandBuffer | .processing, .commandBuffer | .processing, .sanitizedCommands => true
  | p, o => p.changes o

end MainPlace

/-- Two threads are about to call on one object, and not only to read it. The keyboard thread may come to
push a line at any time. -/
def Terminal.Clashes {σ : Type} (q : Terminal σ) (o : SharedObject) : Bool :=
  match o with
  | .inputBuffer => q.input.calls o
  | o => q.input.changes o && q.main.calls o || q.input.calls o && q.main.changes o

inductive SharedEvent (κ : Type) where
  | apart (e : TerminalEvent κ)
  | overlaps (lines : List Text) (string : Text) (words : List Text)

namespace SharedEvent
variable {κ : Type}

def Apart : SharedEvent κ → Prop
  | .apart _ => True
  | .overlaps _ _ _ => False

def line : SharedEvent κ → Option Text
  | .apart e => e.line
  | .overlaps _ _ _ => none

end SharedEvent

/-- Where two calls can overlap the objects may come to be anything. -/
def sharedStep {κ σ : Type} (a : Application κ σ) : SharedEvent κ → Terminal σ → Option (Terminal σ)
  | .apart e, q => terminalStep a e q
  | .overlaps lines string words, q =>
    if q.Clashes .inputBuffer ∨ q.Clashes .commandBuffer ∨ q.Clashes .sanitizedCommands then
      some { q with inputBuffer := lines, commandBuffer := string, sanitizedCommands := words }
    else none

/-- Threads that only wake up when they are notified can come to `P`. -/
def ComesTo {κ σ : Type} (a : Application κ σ) (P : Terminal σ → Prop) : Terminal σ → Prop :=
  CanReach (terminalStep a) (fun e => e.spurious = false) P

/-! ## What one instruction does -/

inductive InputTurn {σ : Type} (q : Terminal σ) : Terminal σ → Prop where
  | goesOn (hp : q.input = .test) (hr : q.running = true) : InputTurn q { q with input := .locking }
  | leaves (hp : q.input = .test) (hr : q.running = false) : InputTurn q { q with input := .returned }
  | locks (hp : q.input = .locking) (hm : q.main.holdsMutex = false) :
    InputTurn q { q with input := .checking }
  | passes (hp : q.input = .checking) (hw : q.commandBuffer = [] ∨ q.stopRequested = true) :
    InputTurn q { q with input := .awake }
  | decides (hp : q.input = .checking) (hb : q.commandBuffer ≠ []) (hs : q.stopRequested = false) :
    InputTurn q { q with input := .deciding }
  | sleeps (hp : q.input = .deciding) : InputTurn q { q with input := .asleep }
  | quits (hp : q.input = .awake) (hs : q.stopRequested = true) :
    InputTurn q { q with input := .quitting }
  | calls (hp : q.input = .awake) (hs : q.stopRequested = false) :
    InputTurn q { q with input := .bufferLocking }
  | bufferLocks (hp : q.input = .bufferLocking) : InputTurn q { q with input := .bufferChecking }
  | finds (hp : q.input = .bufferChecking) (hb : q.inputBuffer ≠ []) :
    InputTurn q { q with input := .taking }
  | misses (hp : q.input = .bufferChecking) (hb : q.inputBuffer = []) :
    InputTurn q { q with input := .bufferDeciding }
  | bufferSleeps (hp : q.input = .bufferDeciding) : InputTurn q { q with input := .bufferAsleep }
  | takes {line : Text} {lines : List Text} (hp : q.input = .taking)
    (hb : q.inputBuffer = line :: lines) :
    InputTurn q { q with
      inputBuffer := lines, taken := q.taken ++ [line], input := .holding line }
  | takesNone (hp : q.input = .taking) (hb : q.inputBuffer = []) :
    InputTurn q { q with taken := q.taken ++ [[]], input := .holding [] }
  | writes {line : Text} (hp : q.input = .holding line) :
    InputTurn q { q with commandBuffer := line, input := .assigned }
  | opens (hp : q.input = .assigned) : InputTurn q { q with input := .parsing q.commandBuffer }
  | pushes {stream token rest : Text} (hp : q.input = .parsing stream)
    (he : extract isspace stream = some (token, rest)) :
    InputTurn q { q with
      sanitizedCommands := q.sanitizedCommands ++ [token], input := .parsing rest }
  | ends {stream : Text} (hp : q.input = .parsing stream) (he : extract isspace stream = none) :
    InputTurn q { q with input := .notifying }
  | notifies (hp : q.input = .notifying) : InputTurn q { q with input := .test }.notifyMain
  | stops (hp : q.input = .quitting) : InputTurn q { q with input := .returned }.notifyMain

inductive MainTurn {κ σ : Type} (a : Application κ σ) (q : Terminal σ) : Terminal σ → Prop where
  | prompts (hp : q.main = .test) (hr : q.runningApp = true) (hu : a.stopsUi = true) :
    MainTurn a q { q with main := .prompting }
  | goesOn (hp : q.main = .test) (hr : q.runningApp = true) (hu : a.stopsUi = false) :
    MainTurn a q { q with main := .locking }
  | leaves (hp : q.main = .test) (hr : q.runningApp = false) : MainTurn a q { q with main := .left }
  | shows (hp : q.main = .prompting) (hm : q.input.holdsMutex = false) :
    MainTurn a q { q with main := .locking }
  | locks (hp : q.main = .locking) (hm : q.input.holdsMutex = false) :
    MainTurn a q { q with main := .checking }
  | passes (hp : q.main = .checking) (hw : q.commandBuffer ≠ [] ∨ q.runningApp = false) :
    MainTurn a q { q with main := .awake }
  | decides (hp : q.main = .checking) (hb : q.commandBuffer = []) (hr : q.runningApp = true) :
    MainTurn a q { q with main := .deciding }
  | sleeps (hp : q.main = .deciding) : MainTurn a q { q with main := .asleep }
  | calls (hp : q.main = .awake) (hr : q.runningApp = true) : MainTurn a q { q with main := .processing }
  | quits (hp : q.main = .awake) (hr : q.runningApp = false) : MainTurn a q { q with main := .quitting }
  | stopsUi (hp : q.main = .stoppingUi) (hr : q.running = true) (hs : q.stopRequested = false) :
    MainTurn a q { q with running := false, main := .requestingStop }
  | raises (hp : q.main = .stoppingUi) (hw : q.running = false ∨ q.stopRequested = true) :
    MainTurn a q { q with main := .left }
  | requests (hp : q.main = .requestingStop) :
    MainTurn a q { q with stopRequested := true, main := .notifyingAll }
  | notifiesAll (hp : q.main = .notifyingAll) : MainTurn a q { q with main := .joiningAccept }.notifyInput
  | clearsBuffer (hp : q.main = .clearingBuffer) :
    MainTurn a q { q with commandBuffer := [], main := .clearingWords }
  | clearsWords (hp : q.main = .clearingWords) :
    MainTurn a q { q with sanitizedCommands := [], main := .notifying }
  | notifies (hp : q.main = .notifying) : MainTurn a q { q with main := .test }.notifyInput
  | gives (hp : q.main = .quitting) : MainTurn a q { q with main := .left }.notifyInput
  | joins (hp : q.main = .left) (hr : q.input = .returned) : MainTurn a q { q with main := .joined }

section Inversion
variable {κ σ : Type} {a : Application κ σ} {q q' : Terminal σ} {e : TerminalEvent κ}

theorem input_turn_inv (h : q.inputTurn = some q') : InputTurn q q' := by
  unfold Terminal.inputTurn at h
  split at h
  case h_1 hp =>
    cases h
    split_ifs with hr
    · exact .goesOn hp hr
    · exact .leaves hp (Bool.not_eq_true _ ▸ hr)
  case h_2 hp =>
    obtain ⟨hm, he⟩ := Option.ite_none_left_eq_some.mp h
    cases he
    exact .locks hp (Bool.not_eq_true _ ▸ hm)
  case h_3 hp =>
    cases h
    split_ifs with hw
    · simp only [Bool.or_eq_true, List.isEmpty_iff] at hw
      exact .passes hp hw
    · simp only [Bool.or_eq_true, List.isEmpty_iff, not_or, Bool.not_eq_true] at hw
      exact .decides hp hw.1 hw.2
  case h_4 hp =>
    cases h
    exact .sleeps hp
  case h_5 hp =>
    cases h
    split_ifs with hs
    · exact .quits hp hs
    · exact .calls hp (Bool.not_eq_true _ ▸ hs)
  case h_6 hp =>
    cases h
    exact .bufferLocks hp
  case h_7 hp =>
    cases h
    split_ifs with hb
    · exact .misses hp (List.isEmpty_iff.mp hb)
    · exact .finds hp (mt List.isEmpty_iff.mpr hb)
  case h_8 hp =>
    cases h
    exact .bufferSleeps hp
  case h_9 hp =>
    split at h
    · rename_i line lines hb
      cases h
      exact .takes hp hb
    · rename_i hb
      cases h
      exact .takesNone hp hb
  case h_10 line hp =>
    cases h
    exact .writes hp
  case h_11 hp =>
    cases h
    exact .opens hp
  case h_12 stream hp =>
    split at h
    · rename_i token rest he
      cases h
      exact .pushes hp he
    · rename_i he
      cases h
      exact .ends hp he
  case h_13 hp =>
    cases h
    exact .notifies hp
  case h_14 hp =>
    cases h
    exact .stops hp
  all_goals cases h

theorem main_turn_inv (h : q.mainTurn a = some q') : MainTurn a q q' := by
  unfold Terminal.mainTurn at h
  split at h
  case h_1 hp =>
    cases h
    split_ifs with hr hu
    · exact .prompts hp hr hu
    · exact .goesOn hp hr (Bool.not_eq_true _ ▸ hu)
    · exact .leaves hp (Bool.not_eq_true _ ▸ hr)
  case h_2 hp =>
    obtain ⟨hm, he⟩ := Option.ite_none_left_eq_some.mp h
    cases he
    exact .shows hp (Bool.not_eq_true _ ▸ hm)
  case h_3 hp =>
    obtain ⟨hm, he⟩ := Option.ite_none_left_eq_some.mp h
    cases he
    exact .locks hp (Bool.not_eq_true _ ▸ hm)
  case h_4 hp =>
    cases h
    split_ifs with hw
    · simp only [Bool.or_eq_true, Bool.not_eq_true', List.isEmpty_eq_false_iff] at hw
      exact .passes hp hw
    · simp only [Bool.or_eq_true, Bool.not_eq_true', List.isEmpty_eq_false_iff, not_or, not_not,
        Bool.not_eq_false] at hw
      exact .decides hp hw.1 hw.2
  case h_5 hp =>
    cases h
    exact .sleeps hp
  case h_6 hp =>
    cases h
    split_ifs with hr
    · exact .calls hp hr
    · exact .quits hp (Bool.not_eq_true _ ▸ hr)
  case h_7 hp =>
    split_ifs at h with hw
    · cases h
      simp only [Bool.and_eq_true, Bool.not_eq_true'] at hw
      exact .stopsUi hp hw.1 hw.2
    · cases h
      simp only [Bool.and_eq_true, Bool.not_eq_true', not_and_or, Bool.not_eq_true,
        Bool.not_eq_false] at hw
      exact .raises hp hw
  case h_8 hp =>
    cases h
    exact .requests hp
  case h_9 hp =>
    cases h
    exact .notifiesAll hp
  case h_10 hp =>
    cases h
    exact .clearsBuffer hp
  case h_11 hp =>
    cases h
    exact .clearsWords hp
  case h_12 hp =>
    cases h
    exact .notifies hp
  case h_13 hp =>
    cases h
    exact .gives hp
  case h_14 hp =>
    obtain ⟨hr, he⟩ := Option.ite_none_right_eq_some.mp h
    cases he
    exact .joins hp hr
  all_goals cases h

theorem types_inv {line : Text} (h : terminalStep a (.types line) q = some q') :
    q.input.holdsInputMtx = false ∧ q' = q.enqueue line := by
  obtain ⟨hm, he⟩ := Option.ite_none_left_eq_some.mp h
  exact ⟨Bool.not_eq_true _ ▸ hm, (Option.some.inj he).symm⟩

theorem processes_inv {k : κ} (h : terminalStep a (.processes k) q = some q') :
    q.main = .processing ∧
      ∃ v app, a.process k q.commandBuffer q.sanitizedCommands q.app = some (v, app) ∧
        q' = q.conclude a v app := by
  obtain ⟨hp, he⟩ := Option.ite_none_right_eq_some.mp h
  obtain ⟨r, hr, hq⟩ := Option.map_eq_some_iff.mp he
  exact ⟨hp, r.1, r.2, hr, hq.symm⟩

theorem processes_step {k : κ} {v : Verdict} {app : σ} (hp : q.main = .processing)
    (h : a.process k q.commandBuffer q.sanitizedCommands q.app = some (v, app)) :
    terminalStep a (.processes k) q = some (q.conclude a v app) := by
  rw [terminalStep, if_pos hp, h]
  rfl

theorem elsewhere_inv {k : κ} (h : terminalStep a (.elsewhere k) q = some q') :
    ∃ app, a.elsewhere k q.app = some app ∧ q' = { q with app := app } := by
  obtain ⟨app, happ, he⟩ := Option.map_eq_some_iff.mp h
  exact ⟨app, happ, he.symm⟩

theorem acceptEnds_inv (h : terminalStep a .acceptEnds q = some q') :
    q.main = .joiningAccept ∧ q' = { q with main := .clearingBuffer } := by
  obtain ⟨hp, he⟩ := Option.ite_none_right_eq_some.mp h
  exact ⟨hp, (Option.some.inj he).symm⟩

theorem spurious_inv (he : e.spurious = true) (h : terminalStep a e q = some q') :
    (q.input = .asleep ∧ q' = { q with input := .locking }) ∨
      (q.main = .asleep ∧ q' = { q with main := .locking }) ∨
        (q.input = .bufferAsleep ∧ q' = { q with input := .bufferLocking }) := by
  cases e with
  | wakesInput =>
    obtain ⟨hp, hq⟩ := Option.ite_none_right_eq_some.mp h
    exact .inl ⟨hp, (Option.some.inj hq).symm⟩
  | wakesMain =>
    obtain ⟨hp, hq⟩ := Option.ite_none_right_eq_some.mp h
    exact .inr (.inl ⟨hp, (Option.some.inj hq).symm⟩)
  | wakesBuffer =>
    obtain ⟨hp, hq⟩ := Option.ite_none_right_eq_some.mp h
    exact .inr (.inr ⟨hp, (Option.some.inj hq).symm⟩)
  | types line | inputs | mains | processes k | elsewhere k | acceptEnds => cases he

theorem terminalStep_typed (h : terminalStep a e q = some q') :
    q'.typed = q.typed ++ [e].filterMap TerminalEvent.line := by
  cases e with
  | types line =>
    obtain ⟨-, rfl⟩ := types_inv h
    rfl
  | inputs => cases input_turn_inv h <;> exact (List.append_nil _).symm
  | mains => cases main_turn_inv h <;> exact (List.append_nil _).symm
  | processes k =>
    obtain ⟨-, v, app, -, rfl⟩ := processes_inv h
    exact (List.append_nil _).symm
  | elsewhere k =>
    obtain ⟨app, -, rfl⟩ := elsewhere_inv h
    exact (List.append_nil _).symm
  | acceptEnds =>
    obtain ⟨-, rfl⟩ := acceptEnds_inv h
    exact (List.append_nil _).symm
  | wakesInput | wakesMain | wakesBuffer =>
    rcases spurious_inv rfl h with ⟨-, rfl⟩ | ⟨-, rfl⟩ | ⟨-, rfl⟩ <;>
      exact (List.append_nil _).symm

theorem typed_run {queued : List Text} {app : σ} {es : List (TerminalEvent κ)}
    (hrun : runSteps (terminalStep a) es (Terminal.start queued app) = some q) :
    q.typed = queued ++ es.filterMap TerminalEvent.line := by
  refine runSteps_invariant (I := fun es q => q.typed = queued ++ es.filterMap TerminalEvent.line)
    (List.append_nil _).symm ?_ hrun
  intro es e s s' hs hstep
  rw [terminalStep_typed hstep, hs, List.filterMap_append, List.append_assoc]

theorem terminalStep_handled (h : terminalStep a e q = some q') : q.handled <+: q'.handled := by
  cases e with
  | processes k =>
    obtain ⟨-, v, app, -, rfl⟩ := processes_inv h
    exact List.prefix_append _ _
  | types line =>
    obtain ⟨-, rfl⟩ := types_inv h
    exact List.prefix_refl _
  | inputs => cases input_turn_inv h <;> exact List.prefix_refl _
  | mains => cases main_turn_inv h <;> exact List.prefix_refl _
  | elsewhere k =>
    obtain ⟨app, -, rfl⟩ := elsewhere_inv h
    exact List.prefix_refl _
  | acceptEnds =>
    obtain ⟨-, rfl⟩ := acceptEnds_inv h
    exact List.prefix_refl _
  | wakesInput | wakesMain | wakesBuffer =>
    rcases spurious_inv rfl h with ⟨-, rfl⟩ | ⟨-, rfl⟩ | ⟨-, rfl⟩ <;> exact List.prefix_refl _

theorem terminalStep_app (h : terminalStep a e q = some q') :
    (∃ k v, e = .processes k ∧
        a.process k q.commandBuffer q.sanitizedCommands q.app = some (v, q'.app)) ∨
      (∃ k, e = .elsewhere k ∧ a.elsewhere k q.app = some q'.app) ∨
        (∀ k, e ≠ .elsewhere k) ∧ q'.app = q.app := by
  cases e with
  | processes k =>
    obtain ⟨-, v, app, happ, rfl⟩ := processes_inv h
    exact .inl ⟨k, v, rfl, happ⟩
  | elsewhere k =>
    obtain ⟨app, happ, rfl⟩ := elsewhere_inv h
    exact .inr (.inl ⟨k, rfl, happ⟩)
  | types line =>
    obtain ⟨-, rfl⟩ := types_inv h
    exact .inr (.inr ⟨nofun, rfl⟩)
  | inputs => cases input_turn_inv h <;> exact .inr (.inr ⟨nofun, rfl⟩)
  | mains => cases main_turn_inv h <;> exact .inr (.inr ⟨nofun, rfl⟩)
  | acceptEnds =>
    obtain ⟨-, rfl⟩ := acceptEnds_inv h
    exact .inr (.inr ⟨nofun, rfl⟩)
  | wakesInput | wakesMain | wakesBuffer =>
    rcases spurious_inv rfl h with ⟨-, rfl⟩ | ⟨-, rfl⟩ | ⟨-, rfl⟩ <;>
      exact .inr (.inr ⟨nofun, rfl⟩)

/-! ## On the way -/

section Ways
variable {P : Terminal σ → Prop}

theorem ComesTo.here (hq : P q) : ComesTo a P q := CanReach.here hq

theorem ComesTo.input (hs : q.inputTurn = some q') (hc : ComesTo a P q') : ComesTo a P q := by
  have hstep : terminalStep a .inputs q = some q' := hs
  exact CanReach.of_step rfl hstep hc

theorem ComesTo.main (hs : q.mainTurn a = some q') (hc : ComesTo a P q') : ComesTo a P q := by
  have hstep : terminalStep a .mains q = some q' := hs
  exact CanReach.of_step rfl hstep hc

theorem ComesTo.types (line : Text) (hm : q.input.holdsInputMtx = false)
    (hc : ComesTo a P (q.enqueue line)) : ComesTo a P q := by
  have hstep : terminalStep a (.types line) q = some (q.enqueue line) :=
    if_neg (by simp [hm])
  exact CanReach.of_step rfl hstep hc

theorem ComesTo.parsing {stream : Text} (hp : q.input = .parsing stream)
    (hc : ∀ words, ComesTo a P { q with sanitizedCommands := words, input := .notifying }) :
    ComesTo a P q := by
  induction hn : stream.length using Nat.strongRecOn generalizing stream q with
  | _ n ih =>
    cases he : extract isspace stream with
    | none =>
      refine .input ?_ (hc q.sanitizedCommands)
      simp [Terminal.inputTurn, hp, he]
    | some p =>
      have hstep : q.inputTurn = some { q with
          sanitizedCommands := q.sanitizedCommands ++ [p.1], input := .parsing p.2 } := by
        simp [Terminal.inputTurn, hp, he]
      exact .input hstep (ih p.2.length (hn ▸ extract_length he) rfl hc rfl)

end Ways

end Inversion

end SyncWizard.Common
