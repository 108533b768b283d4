import SyncWizard.Server.Program

/-! The words that the commands of a program are given. Whatever the threads do in between, they are
words that were typed, in the order in which they were typed and none of them twice. -/

namespace SyncWizard.Properties
open Foundation Common Server

section Queue
variable {κ σ : Type} {a : Application κ σ} {q q' : Terminal σ} {e : TerminalEvent κ}

structure QueueSafe (q : Terminal σ) : Prop where
  fifo : q.taken ++ q.inputBuffer = q.typed
  sleeps : q.input = .bufferDeciding ∨ q.input = .bufferAsleep → q.inputBuffer = []
  takes : q.input = .taking → q.inputBuffer ≠ []

theorem QueueSafe.input_turned (hq : QueueSafe q) (ht : InputTurn q q') : QueueSafe q' := by
  obtain ⟨hfifo, hsleeps, htakes⟩ := hq
  cases ht with
  | takes hp hb => exact ⟨by simpa [hb] using hfifo, by simp, by simp⟩
  | takesNone hp hb => exact absurd hb (htakes hp)
  | finds hp hb => exact ⟨hfifo, by simp, fun _ => hb⟩
  | misses hp hb => exact ⟨hfifo, fun _ => hb, by simp⟩
  | bufferSleeps hp => exact ⟨hfifo, fun _ => hsleeps (.inl hp), by simp⟩
  | _ => exact ⟨hfifo, by simp [Terminal.notifyMain], by simp [Terminal.notifyMain]⟩

theorem main_turned_queue (ht : MainTurn a q q') :
    q'.taken = q.taken ∧ q'.inputBuffer = q.inputBuffer ∧ q'.typed = q.typed ∧
      (q'.input = q.input ∨ q'.input = .locking) := by
  cases ht with
  | notifies hp | notifiesAll hp | gives hp =>
    refine ⟨rfl, rfl, rfl, ?_⟩
    unfold Terminal.notifyInput
    split_ifs
    · exact .inr rfl
    · exact .inl rfl
  | _ => exact ⟨rfl, rfl, rfl, .inl rfl⟩

theorem queueSafe_step (hq : QueueSafe q) (hs : terminalStep a e q = some q') : QueueSafe q' := by
  cases e with
  | types line =>
    obtain ⟨hm, rfl⟩ := types_inv hs
    refine ⟨?_, ?_, ?_⟩
    · rw [Terminal.enqueue, ← List.append_assoc, hq.fifo]
    · unfold Terminal.enqueue
      split_ifs with hp
      · simp
      · rintro (h | h)
        · have hp' : q.input = .bufferDeciding := h
          simp [hp', InputPlace.holdsInputMtx] at hm
        · exact absurd h hp
    · exact fun _ => List.concat_ne_nil _ _
  | inputs => exact hq.input_turned (input_turn_inv hs)
  | mains =>
    obtain ⟨htaken, hbuffer, htyped, hp | hp⟩ := main_turned_queue (main_turn_inv hs)
    · exact ⟨by rw [htaken, hbuffer, htyped, hq.fifo], by rw [hp, hbuffer]; exact hq.sleeps,
        by rw [hp, hbuffer]; exact hq.takes⟩
    · exact ⟨by rw [htaken, hbuffer, htyped, hq.fifo], by simp [hp], by simp [hp]⟩
  | processes k =>
    obtain ⟨-, v, app, -, rfl⟩ := processes_inv hs
    exact ⟨hq.fifo, hq.sleeps, hq.takes⟩
  | elsewhere k =>
    obtain ⟨app, -, rfl⟩ := elsewhere_inv hs
    exact ⟨hq.fifo, hq.sleeps, hq.takes⟩
  | acceptEnds =>
    obtain ⟨-, rfl⟩ := acceptEnds_inv hs
    exact ⟨hq.fifo, hq.sleeps, hq.takes⟩
  | wakesInput | wakesMain | wakesBuffer =>
    rcases spurious_inv rfl hs with ⟨-, rfl⟩ | ⟨-, rfl⟩ | ⟨-, rfl⟩
    · exact ⟨hq.fifo, by simp, by simp⟩
    · exact ⟨hq.fifo, hq.sleeps, hq.takes⟩
    · exact ⟨hq.fifo, by simp, by simp⟩

end Queue

def idleServer : ServerProgram :=
  ⟨ServerState.init ⟨3, 0, fun _ => [], fun _ => [], fun _ => true⟩ ⟨[], ∅, []⟩, []⟩

def mainProcesses : TerminalEvent ServerThread := .processes (.accepts pageHost.1 0 0)

/-- `x list clients` is read when only `x` is cut off. The other words stay, and are a command of their
own once a line with a blank in it is there. -/
def overlappingRun : List (TerminalEvent ServerThread) :=
  .types (txt "x list clients") :: (List.replicate 2 .mains ++ (List.replicate 10 .inputs ++
    (List.replicate 3 .mains ++ mainProcesses :: (List.replicate 3 .mains ++
      (List.replicate 11 .inputs ++ .types (txt " ") :: (List.replicate 7 .inputs ++
        (List.replicate 5 .mains ++ [mainProcesses])))))))

theorem parsing_run {κ σ : Type} (a : Application κ σ) {ws : List Text} {stream : Text}
    {q : Terminal σ} (hws : Spaced isspace ws stream) (hp : q.input = .parsing stream) :
    runSteps (terminalStep a) (List.replicate (ws.length + 1) .inputs) q =
      some { q with sanitizedCommands := q.sanitizedCommands ++ ws, input := .notifying } := by
  induction ws generalizing stream q with
  | nil =>
    have hnone : extract isspace stream = none := extract_none_of_spaced hws
    simp [runSteps, terminalStep, Terminal.inputTurn, hp, hnone]
  | cons w ws ih =>
    obtain ⟨rest, hsome, hrest⟩ := extract_of_spaced hws
    have hstep : terminalStep a .inputs q = some { q with
        sanitizedCommands := q.sanitizedCommands ++ [w], input := .parsing rest } := by
      simp [terminalStep, Terminal.inputTurn, hp, hsome]
    rw [List.length_cons, List.replicate_succ, runSteps_cons hstep, ih hrest rfl]
    simp

/-- From the string that it has just written, `input_loop` goes on to its notification with the words
of that string, the only ones that it can be made of. -/
theorem line_cut_up {κ σ : Type} (a : Application κ σ) (q : Terminal σ) (hq : q.input = .assigned) :
    ∃! ws, Spaced isspace ws q.commandBuffer ∧
      runSteps (terminalStep a) (List.replicate (ws.length + 2) .inputs) q =
        some { q with sanitizedCommands := q.sanitizedCommands ++ ws, input := .notifying } := by
  have hwords : Spaced isspace (lineWords q.commandBuffer) q.commandBuffer := wordsOf_eq_iff.mp rfl
  have hopen : terminalStep a .inputs q = some { q with input := .parsing q.commandBuffer } := by
    simp [terminalStep, Terminal.inputTurn, hq]
  refine ⟨lineWords q.commandBuffer, ⟨hwords, ?_⟩, ?_⟩
  · rw [List.replicate_succ, runSteps_cons hopen, parsing_run a hwords rfl]
  · rintro ws ⟨hws, -⟩
    exact (wordsOf_eq_iff.mpr hws).symm

theorem line_cut_up_listing :
    ∃! ws, Spaced isspace ws (txt "  list\tclients ") ∧
      runSteps (terminalStep serverApplication) (List.replicate (ws.length + 2) .inputs)
          { Terminal.start [] idleServer with
            commandBuffer := txt "  list\tclients ", input := .assigned } =
        some { Terminal.start [] idleServer with
          commandBuffer := txt "  list\tclients ", sanitizedCommands := [] ++ ws, input := .notifying } :=
  line_cut_up serverApplication { Terminal.start [] idleServer with
    commandBuffer := txt "  list\tclients ", input := .assigned } rfl

def spent : MainPlace → Bool
  | .stoppingUi | .requestingStop | .notifyingAll | .joiningAccept | .clearingBuffer | .clearingWords
  | .left | .joined => true
  | _ => false

section Remains
variable {κ σ : Type} {a : Application κ σ} {q q' : Terminal σ} {e : TerminalEvent κ}

def unread (q : Terminal σ) : List Text := if spent q.main then [] else q.sanitizedCommands

def uncut (q : Terminal σ) : List Text :=
  match q.input with
  | .holding line => lineWords line
  | .assigned => lineWords q.commandBuffer
  | .parsing stream => lineWords stream
  | _ => []

/-- The words that have been handled and those that still can be, in the order of the lines. -/
def remains (q : Terminal σ) : List Text :=
  q.handled.flatten ++ (unread q ++ (uncut q ++ q.inputBuffer.flatMap lineWords))

theorem remains_mono (hh : q'.handled = q.handled) (hu : (unread q').Sublist (unread q))
    (hc : (uncut q').Sublist (uncut q)) (hb : q'.inputBuffer = q.inputBuffer) :
    (remains q').Sublist (remains q) := by
  rw [remains, remains, hh, hb]
  exact (List.Sublist.refl _).append (hu.append (hc.append_right _))

theorem notifyMain_unread (q : Terminal σ) : unread q.notifyMain = unread q := by
  unfold unread Terminal.notifyMain
  split_ifs <;> simp_all [spent]

theorem notifyInput_uncut (q : Terminal σ) : uncut q.notifyInput = uncut q := by
  unfold uncut Terminal.notifyInput
  split_ifs with hp
  · simp [hp]
  · rfl

theorem input_turned_remains (ht : InputTurn q q') :
    (remains q').Sublist (remains q) := by
  cases ht with
  | @takes line lines hp hb =>
    have hsame : remains { q with inputBuffer := lines, taken := q.taken ++ [line], input := .holding line } =
        remains q := by
      simp [remains, unread, uncut, hp, hb]
    exact hsame ▸ List.Sublist.refl _
  | @pushes stream token rest hp he =>
    have hwords : uncut q = token :: lineWords rest := by
      rw [uncut, hp]
      exact wordsOf_extract he
    refine (List.Sublist.refl _).append ?_
    rw [hwords, ← List.append_assoc, ← List.append_assoc]
    refine List.Sublist.append_right ?_ _
    unfold unread
    split_ifs
    · exact List.sublist_cons_self _ _
    · simp [uncut]
  | notifies hp =>
    refine remains_mono rfl ?_ ?_ rfl
    · rw [notifyMain_unread]
      exact List.Sublist.refl _
    · exact List.nil_sublist _
  | stops hp =>
    refine remains_mono rfl ?_ ?_ rfl
    · rw [notifyMain_unread]
      exact List.Sublist.refl _
    · exact List.nil_sublist _
  | _ =>
    refine remains_mono rfl (List.Sublist.refl _) ?_ rfl
    simp [uncut, lineWords, *]

theorem main_turned_remains (ht : MainTurn a q q') :
    (remains q').Sublist (remains q) := by
  cases ht with
  | clearsBuffer hp =>
    refine remains_mono rfl ?_ ?_ rfl
    · simp [unread, hp, spent]
    · unfold uncut
      split <;> simp_all [lineWords]
  | notifies hp | notifiesAll hp | gives hp =>
    refine remains_mono rfl ?_ ?_ rfl
    · simp [unread, hp, spent, Terminal.notifyInput]
    · rw [notifyInput_uncut]
      exact List.Sublist.refl _
  | _ =>
    refine remains_mono rfl ?_ (List.Sublist.refl _) rfl
    simp [unread, spent, *]

theorem conclude_remains (hp : q.main = .processing) (v : Verdict) (app : σ) :
    remains (q.conclude a v app) = remains q := by
  have hspent : spent (q.conclude a v app).main = true := by
    unfold Terminal.conclude
    cases v with
    | exits =>
      cases a.stopsUi <;> rfl
    | returns | raises => rfl
  have hleft : unread (q.conclude a v app) = [] := if_pos hspent
  have hhere : unread q = q.sanitizedCommands := if_neg (by simp [hp, spent])
  have hgiven : (q.conclude a v app).handled.flatten = q.handled.flatten ++ q.sanitizedCommands :=
    List.flatten_append.trans (congrArg _ List.flatten_singleton)
  rw [remains, remains, hleft, hhere, hgiven, List.nil_append, List.append_assoc]
  rfl

theorem terminalStep_remains (hs : terminalStep a e q = some q') :
    (remains q').Sublist
      (remains q ++ ([e].filterMap TerminalEvent.line).flatMap lineWords) := by
  have hmono (h : (remains q').Sublist (remains q)) (more : List Text) :
      (remains q').Sublist (remains q ++ more) := h.trans (List.sublist_append_left _ _)
  cases e with
  | types line =>
    obtain ⟨-, rfl⟩ := types_inv hs
    have hcut : uncut (q.enqueue line) = uncut q := by
      unfold uncut Terminal.enqueue
      split_ifs with hp
      · simp [hp]
      · rfl
    have hread : unread (q.enqueue line) = unread q := rfl
    have hqueue : (q.enqueue line).inputBuffer.flatMap lineWords =
        q.inputBuffer.flatMap lineWords ++ [line].flatMap lineWords := List.flatMap_append
    have hdone : (q.enqueue line).handled = q.handled := rfl
    rw [remains, remains, hcut, hread, hqueue, hdone]
    simp [TerminalEvent.line]
  | inputs => exact hmono (input_turned_remains (input_turn_inv hs)) _
  | mains => exact hmono (main_turned_remains (main_turn_inv hs)) _
  | processes k =>
    obtain ⟨hp, v, app, -, rfl⟩ := processes_inv hs
    exact hmono (conclude_remains hp v app ▸ List.Sublist.refl _) _
  | elsewhere k =>
    obtain ⟨app, -, rfl⟩ := elsewhere_inv hs
    exact hmono (List.Sublist.refl _) _
  | acceptEnds =>
    obtain ⟨hp, rfl⟩ := acceptEnds_inv hs
    exact hmono (remains_mono rfl (by simp [unread, hp, spent]) (List.Sublist.refl _) rfl) _
  | wakesInput | wakesMain | wakesBuffer =>
    refine hmono ?_ _
    rcases spurious_inv rfl hs with ⟨hp, rfl⟩ | ⟨hp, rfl⟩ | ⟨hp, rfl⟩
    · exact remains_mono rfl (List.Sublist.refl _) (by simp [uncut, hp]) rfl
    · exact remains_mono rfl (by simp [unread, hp, spent]) (List.Sublist.refl _) rfl
    · exact remains_mono rfl (List.Sublist.refl _) (by simp [uncut, hp]) rfl

theorem sharedStep_remains {e : SharedEvent κ} (he : e.Apart) (hs : sharedStep a e q = some q') :
    (remains q').Sublist (remains q ++ ([e].filterMap SharedEvent.line).flatMap lineWords) := by
  cases e with
  | apart e => exact terminalStep_remains hs
  | overlaps lines string words => exact he.elim

end Remains

/-- In any order of the threads' instructions, as long as no two calls on one of the shared objects
overlap, the words that the commands are given, one command after the other, are a selection from the
words of the typed lines, in their order. -/
theorem handled_words_typed {κ σ : Type} (a : Application κ σ) (queued : List Text) (app : σ)
    (es : List (SharedEvent κ)) (q : Terminal σ) (hapart : ∀ e ∈ es, e.Apart)
    (hrun : runSteps (sharedStep a) es (Terminal.start queued app) = some q) :
    q.handled.flatten.Sublist ((queued ++ es.filterMap SharedEvent.line).flatMap lineWords) := by
  have hremains : (remains q).Sublist
      ((queued ++ es.filterMap SharedEvent.line).flatMap lineWords) := by
    refine runSteps_invariant_along (C := fun e _ => e.Apart) (I := fun es q => (remains q).Sublist
      ((queued ++ es.filterMap SharedEvent.line).flatMap lineWords)) ?_ ?_
      (throughout_of_forall (fun e he _ => hapart e he) _) hrun
    · rw [List.filterMap_nil, List.append_nil]
      exact List.Sublist.refl _
    · intro es e s s' hsub he hs
      refine (sharedStep_remains he hs).trans ?_
      rw [List.filterMap_append, ← List.append_assoc, List.flatMap_append]
      exact hsub.append_right _
  exact (List.sublist_append_left _ _).trans hremains

theorem handled_words_overlapping :
    ∃ q, runSteps (sharedStep serverApplication) (overlappingRun.map .apart)
        (Terminal.start [] idleServer) = some q ∧
      q.handled.flatten.Sublist ([txt "x list clients", txt " "].flatMap lineWords) :=
  ⟨_, rfl, handled_words_typed serverApplication [] idleServer (overlappingRun.map .apart) _
    (fun e he => by obtain ⟨e', -, rfl⟩ := List.mem_map.mp he; trivial) rfl⟩

/-- The push of the second word overlaps with the reading of the first, which is handled twice. -/
example : ∃ q, runSteps (sharedStep serverApplication)
      ((overlappingRun.take 16).map .apart ++ [.overlaps [] (txt "x list clients") [txt "x", txt "x"],
        .apart mainProcesses]) (Terminal.start [] idleServer) = some q ∧
    ¬ q.handled.flatten.Sublist ([txt "x list clients"].flatMap lineWords) :=
  ⟨_, rfl, by decide⟩

end SyncWizard.Properties
