import SyncWizard.Properties.HandledWords

/-! Which commands a program is given. Where no command is read while a line is still cut up, and no
line is cut up while the words of the last one are cleared, each line that is not empty is one command,
in the order of the lines. Neither is forbidden to the threads, but a user who waits for the program
to be at rest before the next line keeps them from it. -/

namespace SyncWizard.Properties
open Foundation Common Server

def commandsOf (lines : List Text) : List (List Text) :=
  (lines.filter fun line => !line.isEmpty).map lineWords

def cutting : InputPlace → Bool
  | .assigned | .parsing _ => true
  | _ => false

def past : InputPlace → Bool
  | .awake | .bufferLocking | .bufferChecking | .bufferDeciding | .bufferAsleep | .taking | .holding _ => true
  | _ => false

def Over {σ : Type} (q : Terminal σ) : Prop :=
  q.main = .left ∨ q.main = .joined ∨ q.runningApp = false ∧ q.main ≠ .processing

section Orderly
variable {κ σ : Type} {a : Application κ σ} {q q' : Terminal σ} {e : TerminalEvent κ}

/-- No command is read, and no words are cleared, in the middle of a line. -/
def Separate (e : TerminalEvent κ) (q : Terminal σ) : Prop :=
  match e with
  | .processes _ => cutting q.input = false
  | .inputs => cutting q.input = true → q.main ≠ .clearingWords
  | _ => True

def fresh (q : Terminal σ) : List Text :=
  if q.main = .clearingBuffer ∨ q.main = .clearingWords then [] else q.sanitizedCommands

def inFlight (q : Terminal σ) : Text :=
  match q.input with
  | .holding line => line
  | _ => if q.main = .clearingBuffer then [] else q.commandBuffer

def Cut (q : Terminal σ) : Prop :=
  match q.input with
  | .holding _ | .assigned => fresh q = []
  | .parsing stream => fresh q ++ lineWords stream = lineWords q.commandBuffer
  | _ => q.main = .clearingBuffer ∨ fresh q = lineWords q.commandBuffer

def looping : MainPlace → Bool
  | .test | .prompting | .locking | .checking | .deciding | .asleep | .awake | .processing
  | .clearingBuffer | .clearingWords | .notifying => true
  | _ => false

structure Orderly (q : Terminal σ) : Prop where
  runs : q.runningApp = true
  stays : q.stopRequested = false
  loops : looping q.main = true
  gone : past q.input = true → q.commandBuffer = []
  found : q.main = .awake ∨ q.main = .processing ∨ q.main = .clearingBuffer → q.commandBuffer ≠ []
  whole : q.main = .clearingBuffer → cutting q.input = false
  cut : Cut q
  all : q.handled ++ commandsOf (inFlight q :: q.inputBuffer) = commandsOf q.typed

def plain : InputPlace → Bool
  | .holding _ | .assigned | .parsing _ => false
  | _ => true

theorem inFlight_plain (hp : plain q.input = true) :
    inFlight q = if q.main = .clearingBuffer then [] else q.commandBuffer := by
  unfold inFlight
  split <;> simp_all [plain]

theorem cut_plain (hp : plain q.input = true) :
    Cut q ↔ q.main = .clearingBuffer ∨ fresh q = lineWords q.commandBuffer := by
  unfold Cut
  split <;> simp_all [plain]

theorem commandsOf_append (lines more : List Text) :
    commandsOf (lines ++ more) = commandsOf lines ++ commandsOf more := by
  rw [commandsOf, List.filter_append, List.map_append]
  rfl

theorem commandsOf_cons_nil (lines : List Text) : commandsOf ([] :: lines) = commandsOf lines := rfl

theorem commandsOf_cons {line : Text} (hne : line ≠ []) (lines : List Text) :
    commandsOf (line :: lines) = lineWords line :: commandsOf lines := by
  rw [commandsOf, List.filter_cons_of_pos (by simpa using hne), List.map_cons]
  rfl

/-! ## Places that say nothing about the line -/

def tidy : MainPlace → Bool
  | .test | .prompting | .locking | .checking | .deciding | .asleep | .awake | .processing
  | .notifying => true
  | _ => false

theorem tidy_main {m : MainPlace} (hm : tidy m = true) :
    looping m = true ∧ m ≠ .clearingBuffer ∧ m ≠ .clearingWords := by
  cases m <;> simp_all [tidy, looping]

theorem Orderly.moveInput {p : InputPlace} (ho : Orderly q) (hq : plain q.input = true)
    (hp : plain p = true) (hgone : past p = true → q.commandBuffer = []) :
    Orderly { q with input := p } where
  runs := ho.runs
  stays := ho.stays
  loops := ho.loops
  gone := hgone
  found := ho.found
  whole _ := by
    unfold cutting
    split <;> simp_all [plain]
  cut := (cut_plain hp).mpr ((cut_plain hq).mp ho.cut)
  all := by
    have hsame : inFlight { q with input := p } = inFlight q := by
      rw [inFlight_plain hq]
      exact inFlight_plain hp
    rw [hsame]
    exact ho.all

theorem Orderly.moveMain {m : MainPlace} (ho : Orderly q) (hq : tidy q.main = true)
    (hm : tidy m = true) (hfound : m = .awake ∨ m = .processing → q.commandBuffer ≠ []) :
    Orderly { q with main := m } := by
  obtain ⟨-, hqb, hqw⟩ := tidy_main hq
  obtain ⟨hloops, hmb, hmw⟩ := tidy_main hm
  have hf : fresh { q with main := m } = fresh q := by simp [fresh, hqb, hqw, hmb, hmw]
  have hi : inFlight { q with main := m } = inFlight q := by simp [inFlight, hqb, hmb]
  refine ⟨ho.runs, ho.stays, hloops, ho.gone, ?_, fun h => absurd h hmb, ?_, ?_⟩
  · rintro (h | h | h)
    · exact hfound (.inl h)
    · exact hfound (.inr h)
    · exact absurd h hmb
  · have hcut := ho.cut
    unfold Cut at hcut ⊢
    rw [hf]
    simpa [hqb, hmb] using hcut
  · rw [hi]
    exact ho.all

theorem Orderly.notifyMain (ho : Orderly q) : Orderly q.notifyMain := by
  unfold Terminal.notifyMain
  split_ifs with hm
  · exact ho.moveMain (by simp [hm, tidy]) rfl (by simp)
  · exact ho

theorem Orderly.notifyInput (ho : Orderly q) : Orderly q.notifyInput := by
  unfold Terminal.notifyInput
  split_ifs with hp
  · exact ho.moveInput (by simp [hp, plain]) rfl (by simp [past])
  · exact ho

/-! ## The threads -/

theorem Orderly.input_turned (ho : Orderly q)
    (hsep : cutting q.input = true → q.main ≠ .clearingWords) (ht : InputTurn q q') : Orderly q' := by
  have hstays := ho.stays
  have hbuffer (hp : past q.input = true) : q.main ≠ .clearingBuffer := fun hm =>
    ho.found (.inr (.inr hm)) (ho.gone hp)
  cases ht with
  | passes hp hw =>
    exact ho.moveInput (by simp [hp, plain]) rfl fun _ => hw.resolve_right (by simp [hstays])
  | calls hp hs => exact ho.moveInput (by simp [hp, plain]) rfl fun _ => ho.gone (by simp [hp, past])
  | bufferLocks hp | finds hp | misses hp | bufferSleeps hp =>
    exact ho.moveInput (by simp [hp, plain]) rfl fun _ => ho.gone (by simp [hp, past])
  | @takes line lines hp hb =>
    have hpast : past q.input = true := by simp [hp, past]
    have hplain : plain q.input = true := by simp [hp, plain]
    have hempty := ho.gone hpast
    refine ⟨ho.runs, ho.stays, ho.loops, fun _ => hempty, ho.found, fun _ => rfl, ?_, ?_⟩
    · have hcut := ((cut_plain hplain).mp ho.cut).resolve_left (hbuffer hpast)
      rwa [hempty] at hcut
    · have hall := ho.all
      rw [inFlight_plain hplain, if_neg (hbuffer hpast), hempty, hb, commandsOf_cons_nil] at hall
      exact hall
  | takesNone hp hb =>
    have hpast : past q.input = true := by simp [hp, past]
    have hplain : plain q.input = true := by simp [hp, plain]
    have hempty := ho.gone hpast
    refine ⟨ho.runs, ho.stays, ho.loops, fun _ => hempty, ho.found, fun _ => rfl, ?_, ?_⟩
    · have hcut := ((cut_plain hplain).mp ho.cut).resolve_left (hbuffer hpast)
      rwa [hempty] at hcut
    · have hall := ho.all
      rw [inFlight_plain hplain, if_neg (hbuffer hpast), hempty] at hall
      exact hall
  | @writes line hp =>
    have hpast : past q.input = true := by simp [hp, past]
    have hempty := ho.gone hpast
    have hno (hm : q.main = .awake ∨ q.main = .processing ∨ q.main = .clearingBuffer) : False :=
      ho.found hm hempty
    refine ⟨ho.runs, ho.stays, ho.loops, by simp [past], fun hm => (hno hm).elim,
      fun hm => (hno (.inr (.inr hm))).elim, ?_, ?_⟩
    · have hcut := ho.cut
      unfold Cut at hcut ⊢
      rw [hp] at hcut
      exact hcut
    · have hall := ho.all
      unfold inFlight at hall ⊢
      rw [hp] at hall
      rw [if_neg (hbuffer hpast)]
      exact hall
  | opens hp =>
    refine ⟨ho.runs, ho.stays, ho.loops, by simp [past], ho.found, fun hm => ?_, ?_, ?_⟩
    · have hwhole := ho.whole hm
      simp [hp, cutting] at hwhole
    · have hcut := ho.cut
      unfold Cut at hcut ⊢
      rw [hp] at hcut
      exact (congrArg (· ++ lineWords q.commandBuffer) hcut).trans (List.nil_append _)
    · have hall := ho.all
      unfold inFlight at hall ⊢
      rw [hp] at hall
      exact hall
  | @pushes stream token rest hp he =>
    have hcutting : cutting q.input = true := by simp [hp, cutting]
    have hone : ¬ (q.main = .clearingBuffer ∨ q.main = .clearingWords) := by
      rintro (hm | hm)
      · exact Bool.false_ne_true ((ho.whole hm).symm.trans hcutting)
      · exact hsep hcutting hm
    refine ⟨ho.runs, ho.stays, ho.loops, by simp [past], ho.found, fun hm => (hone (.inl hm)).elim, ?_, ?_⟩
    · have hcut := ho.cut
      unfold Cut at hcut ⊢
      rw [hp] at hcut
      unfold fresh at hcut ⊢
      rw [if_neg hone] at hcut ⊢
      refine Eq.trans ?_ hcut
      rw [lineWords, lineWords, wordsOf_extract he, List.append_assoc]
      rfl
    · have hall := ho.all
      unfold inFlight at hall ⊢
      rw [hp] at hall
      exact hall
  | @ends stream hp he =>
    refine ⟨ho.runs, ho.stays, ho.loops, by simp [past], ho.found, fun _ => rfl, .inr ?_, ?_⟩
    · have hcut := ho.cut
      unfold Cut at hcut
      rw [hp] at hcut
      refine Eq.trans ?_ hcut
      rw [lineWords, wordsOf_extract_none he, List.append_nil]
      rfl
    · have hall := ho.all
      unfold inFlight at hall ⊢
      rw [hp] at hall
      exact hall
  | quits hp hs => exact absurd (hs.symm.trans hstays) (by decide)
  | notifies hp | stops hp => exact (ho.moveInput (by simp [hp, plain]) rfl (by simp [past])).notifyMain
  | goesOn hp | leaves hp | locks hp | decides hp | sleeps hp =>
    exact ho.moveInput (by simp [hp, plain]) rfl (by simp [past])

theorem Orderly.plain_input (ho : Orderly q) (hne : q.commandBuffer ≠ [])
    (hcut : cutting q.input = false) : plain q.input = true := by
  have hgone := ho.gone
  cases hi : q.input <;> simp_all [plain, past, cutting]

theorem Orderly.main_turned (ho : Orderly q) (ht : MainTurn a q q') : Orderly q' := by
  have hruns := ho.runs
  have hloops := ho.loops
  cases ht with
  | passes hp hw =>
    exact ho.moveMain (by simp [hp, tidy]) rfl fun _ => hw.resolve_right (by simp [hruns])
  | calls hp hr => exact ho.moveMain (by simp [hp, tidy]) rfl fun _ => ho.found (.inl hp)
  | clearsBuffer hp =>
    have hplain := ho.plain_input (ho.found (.inr (.inr hp))) (ho.whole hp)
    refine ⟨hruns, ho.stays, rfl, fun _ => rfl, by simp, by simp, ?_, ?_⟩
    · exact (cut_plain (by exact hplain)).mpr (.inr (if_pos (.inr rfl)))
    · have hall := ho.all
      rw [inFlight_plain hplain, if_pos hp] at hall
      have hnow : inFlight { q with commandBuffer := [], main := .clearingWords } = [] :=
        (inFlight_plain (by exact hplain)).trans (if_neg (by simp))
      rw [hnow]
      exact hall
  | clearsWords hp =>
    have hf : fresh { q with sanitizedCommands := [], main := .notifying } = fresh q := by
      simp [fresh, hp]
    have hi : inFlight { q with sanitizedCommands := [], main := .notifying } = inFlight q := by
      simp [inFlight, hp]
    refine ⟨hruns, ho.stays, rfl, ho.gone, by simp, by simp, ?_, by rw [hi]; exact ho.all⟩
    have hcut := ho.cut
    unfold Cut at hcut ⊢
    rw [hf]
    simpa [hp] using hcut
  | notifies hp => exact (ho.moveMain (by simp [hp, tidy]) rfl (by simp)).notifyInput
  | prompts hp | goesOn hp | shows hp | locks hp | decides hp | sleeps hp =>
    exact ho.moveMain (by simp [hp, tidy]) rfl (by simp)
  | leaves hp hr | quits hp hr => exact absurd (hr.symm.trans hruns) (by decide)
  | stopsUi hp | raises hp | requests hp | notifiesAll hp | gives hp | joins hp =>
    simp [hp, looping] at hloops

theorem Orderly.handled (ho : Orderly q) (hp : q.main = .processing) (hcut : cutting q.input = false) :
    q.handled ++ q.sanitizedCommands :: commandsOf q.inputBuffer = commandsOf q.typed := by
  have hne := ho.found (.inr (.inl hp))
  have hplain := ho.plain_input hne hcut
  have hwords : q.sanitizedCommands = lineWords q.commandBuffer := by
    have hline := ((cut_plain hplain).mp ho.cut).resolve_left (by simp [hp])
    rwa [fresh, if_neg (by simp [hp])] at hline
  have hall := ho.all
  rwa [inFlight_plain hplain, if_neg (by simp [hp]), commandsOf_cons hne, ← hwords] at hall

theorem Orderly.returned (ho : Orderly q) (hp : q.main = .processing) (hcut : cutting q.input = false)
    (app : σ) : Orderly (q.conclude a .returns app) := by
  have hne := ho.found (.inr (.inl hp))
  have hplain := ho.plain_input hne hcut
  refine ⟨ho.runs, ho.stays, rfl, ho.gone, fun _ => hne, fun _ => hcut, ?_, ?_⟩
  · exact (cut_plain (by exact hplain)).mpr (.inl rfl)
  · have hhandled := ho.handled hp hcut
    have hnow : inFlight (q.conclude a .returns app) = [] :=
      (inFlight_plain (by exact hplain)).trans (if_pos rfl)
    rw [hnow, commandsOf_cons_nil]
    simpa [Terminal.conclude] using hhandled

theorem Orderly.enqueue (ho : Orderly q) (line : Text) : Orderly (q.enqueue line) := by
  have hq : Orderly { q with inputBuffer := q.inputBuffer ++ [line], typed := q.typed ++ [line] } := by
    refine ⟨ho.runs, ho.stays, ho.loops, ho.gone, ho.found, ho.whole, ho.cut, ?_⟩
    have hall := congrArg (· ++ commandsOf [line]) ho.all
    simp only [List.append_assoc, ← commandsOf_append] at hall
    exact hall
  unfold Terminal.enqueue
  split_ifs with hp
  · exact hq.moveInput (by simp [hp, plain]) rfl fun _ => ho.gone (by simp [hp, past])
  · exact hq

/-! ## The end of the loop -/

theorem input_turned_main (ht : InputTurn q q') :
    (q'.main = q.main ∨ q.main = .asleep ∧ q'.main = .locking) ∧ q'.runningApp = q.runningApp ∧
      q'.handled = q.handled ∧ q'.typed = q.typed := by
  cases ht with
  | notifies hp | stops hp =>
    refine ⟨?_, rfl, rfl, rfl⟩
    unfold Terminal.notifyMain
    split_ifs with hm
    · exact .inr ⟨hm, rfl⟩
    · exact .inl rfl
  | _ => exact ⟨.inl rfl, rfl, rfl, rfl⟩

theorem main_turned_over (hq : Over q) (ht : MainTurn a q q') :
    Over q' ∧ q'.handled = q.handled ∧ q'.typed = q.typed := by
  refine ⟨?_, ?_⟩
  · cases ht <;> simp_all [Over, Terminal.notifyInput]
  · cases ht <;> exact ⟨rfl, rfl⟩

theorem conclude_over {v : Verdict} (hv : v ≠ .returns) (app : σ) : Over (q.conclude a v app) := by
  cases v with
  | returns => exact absurd rfl hv
  | raises => exact .inl rfl
  | exits =>
    refine .inr (.inr ⟨rfl, ?_⟩)
    unfold Terminal.conclude
    cases a.stopsUi <;> simp

theorem over_step (hq : Over q) (hs : terminalStep a e q = some q') :
    Over q' ∧ q'.handled = q.handled ∧ q.typed <+: q'.typed := by
  cases e with
  | types line =>
    obtain ⟨-, rfl⟩ := types_inv hs
    exact ⟨hq, rfl, List.prefix_append _ _⟩
  | inputs =>
    obtain ⟨hmain, hruns, hhandled, htyped⟩ := input_turned_main (input_turn_inv hs)
    refine ⟨?_, hhandled, htyped ▸ List.prefix_rfl⟩
    rcases hmain with hm | ⟨hm, hm'⟩
    · rwa [Over, hm, hruns]
    · rw [Over, hm] at hq
      rw [Over, hm', hruns]
      simpa using hq
  | mains =>
    obtain ⟨hover, hhandled, htyped⟩ := main_turned_over hq (main_turn_inv hs)
    exact ⟨hover, hhandled, htyped ▸ List.prefix_rfl⟩
  | processes k =>
    obtain ⟨hp, -⟩ := processes_inv hs
    simp [Over, hp] at hq
  | elsewhere k =>
    obtain ⟨app, -, rfl⟩ := elsewhere_inv hs
    exact ⟨hq, rfl, List.prefix_rfl⟩
  | acceptEnds =>
    obtain ⟨hp, rfl⟩ := acceptEnds_inv hs
    refine ⟨?_, rfl, List.prefix_rfl⟩
    simpa [Over, hp] using hq
  | wakesInput | wakesMain | wakesBuffer =>
    rcases spurious_inv rfl hs with ⟨hp, rfl⟩ | ⟨hp, rfl⟩ | ⟨hp, rfl⟩
    · exact ⟨hq, rfl, List.prefix_rfl⟩
    · refine ⟨?_, rfl, List.prefix_rfl⟩
      simpa [Over, hp] using hq
    · exact ⟨hq, rfl, List.prefix_rfl⟩

/-- The commands are in the order of their lines as long as the loop goes on, and all of them were
typed. -/
def Obeyed (q : Terminal σ) : Prop :=
  Orderly q ∨ Over q ∧ q.handled <+: commandsOf q.typed

theorem commandsOf_mono {lines more : List Text} (h : lines <+: more) :
    commandsOf lines <+: commandsOf more := by
  obtain ⟨rest, rfl⟩ := h
  rw [commandsOf_append]
  exact List.prefix_append _ _

theorem obeyed_step (ho : Obeyed q) (hsep : Separate e q) (hs : terminalStep a e q = some q') :
    Obeyed q' := by
  rcases ho with ho | ⟨hover, hhandled⟩
  · cases e with
    | types line =>
      obtain ⟨-, rfl⟩ := types_inv hs
      exact .inl (ho.enqueue line)
    | inputs => exact .inl (ho.input_turned hsep (input_turn_inv hs))
    | mains => exact .inl (ho.main_turned (main_turn_inv hs))
    | processes k =>
      obtain ⟨hp, v, app, -, rfl⟩ := processes_inv hs
      by_cases hv : v = .returns
      · subst hv
        exact .inl (ho.returned hp hsep app)
      · refine .inr ⟨conclude_over hv app, ?_⟩
        have hhere := ho.handled hp hsep
        exact ⟨commandsOf q.inputBuffer, (List.append_assoc ..).trans hhere⟩
    | elsewhere k =>
      obtain ⟨app, -, rfl⟩ := elsewhere_inv hs
      exact .inl ⟨ho.runs, ho.stays, ho.loops, ho.gone, ho.found, ho.whole, ho.cut, ho.all⟩
    | acceptEnds =>
      obtain ⟨hp, -⟩ := acceptEnds_inv hs
      have hloops := ho.loops
      simp [hp, looping] at hloops
    | wakesInput | wakesMain | wakesBuffer =>
      rcases spurious_inv rfl hs with ⟨hp, rfl⟩ | ⟨hp, rfl⟩ | ⟨hp, rfl⟩
      · exact .inl (ho.moveInput (by simp [hp, plain]) rfl (by simp [past]))
      · exact .inl (ho.moveMain (by simp [hp, tidy]) rfl (by simp))
      · exact .inl (ho.moveInput (by simp [hp, plain]) rfl fun _ => ho.gone (by simp [hp, past]))
  · obtain ⟨hover', hsame, htyped⟩ := over_step hover hs
    exact .inr ⟨hover', hsame ▸ hhandled.trans (commandsOf_mono htyped)⟩

theorem start_orderly (queued : List Text) (app : σ) : Orderly (Terminal.start queued app) :=
  ⟨rfl, rfl, rfl, nofun, by simp [Terminal.start], nofun, .inr rfl, rfl⟩

theorem obeyed_run {queued : List Text} {app : σ} {es : List (TerminalEvent κ)}
    (hsep : Throughout (terminalStep a) Separate es (Terminal.start queued app))
    (hrun : runSteps (terminalStep a) es (Terminal.start queued app) = some q) : Obeyed q :=
  runSteps_invariant_along (I := fun _ q => Obeyed q) (.inl (start_orderly queued app))
    (fun _ _ _ _ ho hs hstep => obeyed_step ho hs hstep) hsep hrun

/-! ## A user who waits -/

/-- A line is typed when both threads are asleep, and only a notification wakes the main thread. -/
def Patient (e : TerminalEvent κ) (q : Terminal σ) : Prop :=
  match e with
  | .types _ => q.main = .asleep ∧ q.input = .bufferAsleep
  | .wakesMain => False
  | _ => True

structure OneLine (q : Terminal σ) : Prop where
  one : q.inputBuffer.length ≤ 1
  queued : q.inputBuffer ≠ [] → q.main = .asleep ∧
    (q.input = .bufferLocking ∨ q.input = .bufferChecking ∨ q.input = .taking)
  works : q.input = .taking ∨ plain q.input = false → q.main = .asleep
  takes : q.input = .taking → q.inputBuffer ≠ []
  runs : q.main = .deciding ∨ q.main = .asleep → q.runningApp = true

theorem OneLine.empty (ho : OneLine q)
    (hp : q.input ≠ .bufferLocking ∧ q.input ≠ .bufferChecking ∧ q.input ≠ .taking) :
    q.inputBuffer = [] := by
  by_contra hne
  obtain ⟨-, h | h | h⟩ := ho.queued hne
  exacts [hp.1 h, hp.2.1 h, hp.2.2 h]

theorem oneLine_of_empty (hb : q.inputBuffer = []) (hp : plain q.input = true)
    (ht : q.input ≠ .taking) (hr : q.main = .deciding ∨ q.main = .asleep → q.runningApp = true) :
    OneLine q := by
  refine ⟨by simp [hb], fun h => absurd hb h, ?_, fun h => absurd h ht, hr⟩
  rintro (h | h)
  · exact absurd h ht
  · exact absurd (hp.symm.trans h) (by decide)

theorem OneLine.input_turned (ho : OneLine q) (ht : InputTurn q q') : OneLine q' := by
  cases ht with
  | bufferLocks hp =>
    exact ⟨ho.one, fun h => ⟨(ho.queued h).1, .inr (.inl rfl)⟩, by simp [plain], nofun, ho.runs⟩
  | finds hp hb =>
    exact ⟨ho.one, fun h => ⟨(ho.queued h).1, .inr (.inr rfl)⟩, fun _ => (ho.queued hb).1, fun _ => hb,
      ho.runs⟩
  | @takes line lines hp hb =>
    have hnil : lines = [] := by
      have hone := ho.one
      rw [hb, List.length_cons] at hone
      exact List.length_eq_zero_iff.mp (by omega)
    subst hnil
    exact ⟨by simp, fun h => absurd rfl h, fun _ => ho.works (.inl hp), nofun, ho.runs⟩
  | takesNone hp hb => exact absurd hb (ho.takes hp)
  | writes hp | opens hp | pushes hp =>
    have hb := ho.empty (by simp [hp])
    exact ⟨ho.one, fun h => absurd hb h, fun _ => ho.works (.inr (by simp [hp, plain])), nofun, ho.runs⟩
  | calls hp => exact oneLine_of_empty (ho.empty (by simp [hp])) rfl (by simp) ho.runs
  | notifies hp | stops hp =>
    refine oneLine_of_empty (ho.empty (by simp [hp])) rfl (by simp [Terminal.notifyMain]) ?_
    unfold Terminal.notifyMain
    split_ifs with hm
    · simp
    · exact ho.runs
  | misses hp hb => exact oneLine_of_empty hb rfl (by simp) ho.runs
  | goesOn hp | leaves hp | locks hp | passes hp | decides hp | sleeps hp | quits hp | bufferSleeps hp
  | ends hp => exact oneLine_of_empty (ho.empty (by simp [hp])) rfl (by simp) ho.runs

theorem OneLine.idle (ho : OneLine q) (hm : q.main ≠ .asleep) :
    q.inputBuffer = [] ∧ plain q.input = true ∧ q.input ≠ .taking := by
  refine ⟨?_, ?_, ?_⟩
  · by_contra hne
    exact hm (ho.queued hne).1
  · by_contra hp
    exact hm (ho.works (.inr (by simpa using hp)))
  · exact fun hp => hm (ho.works (.inl hp))

theorem OneLine.main_turned (ho : OneLine q) (ht : MainTurn a q q') : OneLine q' := by
  have hm : q.main ≠ .asleep := by cases ht <;> simp_all
  obtain ⟨hb, hp, hn⟩ := ho.idle hm
  have hruns := ho.runs
  cases ht with
  | notifies | notifiesAll | gives =>
    unfold Terminal.notifyInput
    split_ifs
    · exact oneLine_of_empty hb rfl (by simp) (by simp)
    · exact oneLine_of_empty hb hp hn (by simp)
  | _ => exact oneLine_of_empty hb hp hn (by simp_all)

theorem oneLine_step (ho : OneLine q) (hpatient : Patient e q) (hs : terminalStep a e q = some q') :
    OneLine q' := by
  cases e with
  | types line =>
    obtain ⟨-, rfl⟩ := types_inv hs
    obtain ⟨hm, hp⟩ := hpatient
    have hb := ho.empty (by simp [hp])
    have hq : (q.enqueue line).input = .bufferLocking := if_pos hp
    refine ⟨by simp [Terminal.enqueue, hb], fun _ => ⟨hm, .inl hq⟩, fun _ => hm, ?_, ho.runs⟩
    rw [hq]
    simp
  | inputs => exact ho.input_turned (input_turn_inv hs)
  | mains => exact ho.main_turned (main_turn_inv hs)
  | processes k =>
    obtain ⟨hm, v, app, -, rfl⟩ := processes_inv hs
    obtain ⟨hb, hp, hn⟩ := ho.idle (by simp [hm])
    refine oneLine_of_empty hb hp hn ?_
    unfold Terminal.conclude
    cases v <;> cases a.stopsUi <;> simp
  | elsewhere k =>
    obtain ⟨app, -, rfl⟩ := elsewhere_inv hs
    exact ⟨ho.one, ho.queued, ho.works, ho.takes, ho.runs⟩
  | acceptEnds =>
    obtain ⟨hm, rfl⟩ := acceptEnds_inv hs
    obtain ⟨hb, hp, hn⟩ := ho.idle (by simp [hm])
    exact oneLine_of_empty hb hp hn (by simp)
  | wakesMain => exact hpatient.elim
  | wakesInput =>
    obtain ⟨hp, hq⟩ := Option.ite_none_right_eq_some.mp hs
    cases hq
    exact oneLine_of_empty (ho.empty (by simp [hp])) rfl (by simp) ho.runs
  | wakesBuffer =>
    obtain ⟨hp, hq⟩ := Option.ite_none_right_eq_some.mp hs
    cases hq
    exact oneLine_of_empty (ho.empty (by simp [hp])) rfl (by simp) ho.runs

theorem OneLine.separate (ho : OneLine q) (hs : terminalStep a e q = some q') : Separate e q := by
  have hcut (hc : cutting q.input = true) : q.main = .asleep := by
    refine ho.works (.inr ?_)
    cases hp : q.input <;> simp_all [cutting, plain]
  cases e with
  | inputs => exact fun hc => by simp [hcut hc]
  | processes k =>
    obtain ⟨hm, -⟩ := processes_inv hs
    by_contra hc
    rw [hcut (by simpa [Separate] using hc)] at hm
    cases hm
  | types line | mains | elsewhere k | acceptEnds | wakesInput | wakesMain | wakesBuffer => trivial

theorem patient_separate {es : List (TerminalEvent κ)} (ho : OneLine q)
    (hp : Throughout (terminalStep a) Patient es q) (hrun : runSteps (terminalStep a) es q = some q') :
    Throughout (terminalStep a) Separate es q := by
  induction es generalizing q with
  | nil => trivial
  | cons e es ih =>
    obtain ⟨t, ht, hrest⟩ := runSteps_cons_inv hrun
    refine ⟨ho.separate ht, fun t' ht' => ?_⟩
    obtain rfl := Option.some.inj (ht.symm.trans ht')
    exact ih (oneLine_step ho hp.1 ht) (hp.2 t ht) hrest

end Orderly

/-! ## Whole runs -/

def comesToRest : List (TerminalEvent ServerThread) :=
  List.replicate 5 .mains ++ List.replicate 7 .inputs

def lineRun (line : Text) : List (TerminalEvent ServerThread) :=
  .types line :: (List.replicate (7 + (lineWords line).length) .inputs ++
    (List.replicate 3 .mains ++ mainProcesses :: (List.replicate 3 .mains ++ comesToRest)))

def restfulRun (line : Text) : List (TerminalEvent ServerThread) := comesToRest ++ lineRun line

def restingServer : Terminal ServerProgram :=
  ⟨[], [], [], true, false, true, .bufferAsleep, .asleep, idleServer, [], [], []⟩

theorem start_rests : runSteps (terminalStep serverApplication) comesToRest
    (Terminal.start [] idleServer) = some restingServer := rfl

theorem restfulRun_patient (line : Text) : Throughout (terminalStep serverApplication) Patient
    (restfulRun line) (Terminal.start [] idleServer) := by
  have hrest : ∀ e ∈ comesToRest, ∀ q : Terminal ServerProgram, Patient e q := by
    simp [comesToRest, Patient]
  refine (throughout_append start_rests).mpr ⟨throughout_of_forall hrest _, ⟨rfl, rfl⟩, fun q _ => ?_⟩
  refine throughout_of_forall (fun e he s => ?_) q
  simp only [List.mem_append, List.mem_cons, List.mem_replicate] at he
  rcases he with ⟨-, rfl⟩ | ⟨-, rfl⟩ | rfl | ⟨-, rfl⟩ | he
  · trivial
  · trivial
  · trivial
  · trivial
  · exact hrest e he s

theorem rests_oneLine {σ : Type} (app : σ) : OneLine (Terminal.start [] app) :=
  oneLine_of_empty rfl rfl (by simp [Terminal.start]) (by simp [Terminal.start])

/-- A user who waits until the program is at rest is obeyed to the letter: when it is at rest again, the
commands that were handled are the lines that are not empty, each as a whole and in order. -/
theorem patient_user_obeyed {κ σ : Type} (a : Application κ σ) (app : σ) (es : List (TerminalEvent κ))
    (q : Terminal σ) (hpatient : Throughout (terminalStep a) Patient es (Terminal.start [] app))
    (hrun : runSteps (terminalStep a) es (Terminal.start [] app) = some q)
    (hrest : q.main = .asleep ∧ q.input = .bufferAsleep) :
    q.handled = commandsOf (es.filterMap TerminalEvent.line) := by
  have hstart := rests_oneLine app
  have hone : OneLine q := runSteps_invariant_along (I := fun _ q => OneLine q) hstart
    (fun _ _ _ _ ho hp hs => oneLine_step ho hp hs) hpatient hrun
  obtain ⟨hm, hp⟩ := hrest
  have htyped := typed_run hrun
  rcases obeyed_run (patient_separate hstart hpatient hrun) hrun with ho | ⟨hover, -⟩
  · have hall := ho.all
    have hempty := ho.gone (by simp [hp, past])
    have hline : inFlight q = [] := by simp [inFlight, hp, hempty]
    rw [hline, hone.empty (by simp [hp]), htyped] at hall
    simpa [commandsOf] using hall
  · have hruns := hone.runs (.inr hm)
    simp [Over, hm, hruns] at hover

theorem patient_user_obeyed_exactly :
    ∃ q, runSteps (terminalStep serverApplication) (restfulRun (txt "list"))
        (Terminal.start [] idleServer) = some q ∧ q.handled = commandsOf [txt "list"] :=
  ⟨_, rfl, patient_user_obeyed serverApplication idleServer (restfulRun (txt "list")) _
    (restfulRun_patient _) rfl ⟨rfl, rfl⟩⟩

example : (runSteps (terminalStep serverApplication) overlappingRun
    (Terminal.start [] idleServer)).map Terminal.handled =
      some [[txt "x"], [txt "list", txt "clients"]] := by rfl

end SyncWizard.Properties
