import SyncWizard.Common.Packet
import SyncWizard.Foundation.Schedules

/-! The sender threads of both programs and the threads around them, one instruction after the other,
with what `send_cv_` does: a notification wakes the sender if it sleeps, and is lost if it does not. -/

namespace SyncWizard.Common
open Foundation

/-- `session_sender_loop` of the server or `sender_loop` of the client. The client also looks at its
inotify buffer, where it only finds something to print. -/
inductive SenderLoop where
  | session
  | client
  deriving DecidableEq

inductive LoopPlace where
  | entry
  | test
  | locking
  -- with the mutex, before the predicate of `send_cv_.wait`
  | waiting
  | deciding
  | asleep
  | roused
  | awake
  | sending
  | notifying
  | returned
  | raised
  deriving DecidableEq

inductive Owner (ι : Type) where
  | sender
  | thread (i : ι)
  deriving DecidableEq

inductive Instruction where
  | locks
  -- the packet is in the queue when the mutex is free again, and not before
  | pushes (p : Packet)
  | empties
  -- `connection_manager_.send_packet` under the mutex, which is free afterwards
  | forcesSend
  | tidies
  | notifies
  | clears
  | joins

def pushCode (p : Packet) : List Instruction := [.locks, .pushes p]

def produceCode (p : Packet) : List Instruction := pushCode p ++ [.notifies]

/-- An exception keeps `disconnect` from all that comes after it. -/
def disconnectCode (reason : Text) : List Instruction :=
  final ((do
    Packet.mountWith (fun p => modify fun code => code ++ produceCode p) (txt "exit") reason
    modify fun code => code ++ [.clears, .notifies] : Exec (List Instruction) Unit) [])

inductive Operation where
  | produces (p : Packet)
  -- the lists of files are queued without a notification
  | lists (p : Packet)
  | sessionStopSender
  | clientRequestedLogout
  | disconnect (reason : Text)
  | stopSender
  | exitCommand
  | serverExitCommand

namespace Operation

def code : Operation → List Instruction
  | .produces p => produceCode p
  | .lists p => pushCode p
  | .sessionStopSender => [.clears, .joins]
  | .clientRequestedLogout => [.clears]
  | .disconnect reason => disconnectCode reason
  | .stopSender => [.clears, .notifies, .joins]
  | .exitCommand => [.locks, .empties, .forcesSend, .tidies, .clears]
  | .serverExitCommand => [.tidies, .clears]

def within : Operation → SenderLoop → Bool
  | .produces _, _ => true
  | .lists _, l | .sessionStopSender, l | .clientRequestedLogout, l | .disconnect _, l => l == .session
  | .stopSender, l | .exitCommand, l | .serverExitCommand, l => l == .client

def Stops (o : Operation) : Prop := .clears ∈ o.code

end Operation

structure SenderState (ι : Type) where
  senderBuffer : List Packet
  runningSender : Bool
  sendMtx : Option (Owner ι)
  place : LoopPlace
  rest : ι → List Instruction

inductive SenderEvent (ι : Type) where
  | begins (i : ι) (o : Operation)
  | acts (i : ι)
  | breaks (i : ι)
  | turns
  | sends
  | fails
  | wakes

section Loop
variable {ι : Type}

namespace SenderState

def fresh : SenderState ι := ⟨[], true, none, .entry, fun _ => []⟩

def turn (q : SenderState ι) : Option (SenderState ι) :=
  match q.place with
  | .entry => some { q with runningSender := true, place := .test }
  | .test => some { q with place := if q.runningSender then .locking else .returned }
  | .locking | .roused =>
    if q.sendMtx.isNone then some { q with sendMtx := some .sender, place := .waiting } else none
  | .waiting => some { q with
      place := if !q.senderBuffer.isEmpty || !q.runningSender then .awake else .deciding }
  | .deciding => some { q with sendMtx := none, place := .asleep }
  | .awake =>
    if q.runningSender = false then some { q with sendMtx := none, place := .returned }
    else if q.senderBuffer.isEmpty then some { q with sendMtx := none, place := .notifying }
    else some { q with place := .sending }
  -- no other thread waits for `send_cv_`
  | .notifying => some { q with place := .test }
  | .asleep | .sending | .returned | .raised => none

def perform (i : ι) (q : SenderState ι) : Instruction → Option (SenderState ι)
  | .locks => if q.sendMtx.isNone then some { q with sendMtx := some (.thread i) } else none
  | .pushes p => some { q with senderBuffer := q.senderBuffer ++ [p], sendMtx := none }
  | .empties => some { q with senderBuffer := [] }
  | .forcesSend => some { q with sendMtx := none }
  | .tidies => some q
  | .notifies => some { q with place := if q.place = .asleep then .roused else q.place }
  | .clears => some { q with runningSender := false }
  | .joins => if q.place = .returned then some q else none

variable [DecidableEq ι]

def setRest (q : SenderState ι) (i : ι) (code : List Instruction) : SenderState ι :=
  { q with rest := Function.update q.rest i code }

section Fields
variable (q : SenderState ι) (i : ι) (code : List Instruction)

@[simp] theorem setRest_senderBuffer : (q.setRest i code).senderBuffer = q.senderBuffer := rfl

@[simp] theorem setRest_runningSender : (q.setRest i code).runningSender = q.runningSender := rfl

@[simp] theorem setRest_sendMtx : (q.setRest i code).sendMtx = q.sendMtx := rfl

@[simp] theorem setRest_place : (q.setRest i code).place = q.place := rfl

@[simp] theorem setRest_rest : (q.setRest i code).rest = Function.update q.rest i code := rfl

end Fields

def act (i : ι) (q : SenderState ι) : Option (SenderState ι) :=
  match q.rest i with
  | [] => none
  | a :: more => (q.setRest i more).perform i a

def breakOff (i : ι) (q : SenderState ι) : Option (SenderState ι) :=
  match q.rest i with
  | .forcesSend :: _ => some ({ q with sendMtx := none }.setRest i [])
  | .tidies :: _ => some (q.setRest i [])
  | _ => none

end SenderState

variable [DecidableEq ι] (l : SenderLoop)

def loopStep : SenderEvent ι → SenderState ι → Option (SenderState ι)
  | .begins i o, q => if (q.rest i).isEmpty && o.within l then some (q.setRest i o.code) else none
  | .acts i, q => q.act i
  | .breaks i, q => q.breakOff i
  | .turns, q => q.turn
  | .sends, q =>
    if q.place = .sending then
      some { q with senderBuffer := q.senderBuffer.tail, sendMtx := none, place := .notifying }
    else none
  | .fails, q => if q.place = .sending then some { q with sendMtx := none, place := .raised } else none
  | .wakes, q => if q.place = .asleep then some { q with place := .roused } else none

end Loop

/-! ## What one event does -/

inductive LoopTurn {ι : Type} (q : SenderState ι) : SenderState ι → Prop where
  | enters (hp : q.place = .entry) : LoopTurn q { q with runningSender := true, place := .test }
  | goesOn (hp : q.place = .test) (hr : q.runningSender = true) :
    LoopTurn q { q with place := .locking }
  | leaves (hp : q.place = .test) (hr : q.runningSender = false) :
    LoopTurn q { q with place := .returned }
  | locks (hp : q.place = .locking ∨ q.place = .roused) (hm : q.sendMtx = none) :
    LoopTurn q { q with sendMtx := some .sender, place := .waiting }
  | finds (hp : q.place = .waiting) (hw : q.senderBuffer ≠ [] ∨ q.runningSender = false) :
    LoopTurn q { q with place := .awake }
  | decides (hp : q.place = .waiting) (hq : q.senderBuffer = []) (hr : q.runningSender = true) :
    LoopTurn q { q with place := .deciding }
  | sleeps (hp : q.place = .deciding) : LoopTurn q { q with sendMtx := none, place := .asleep }
  | stops (hp : q.place = .awake) (hr : q.runningSender = false) :
    LoopTurn q { q with sendMtx := none, place := .returned }
  | rests (hp : q.place = .awake) (hq : q.senderBuffer = []) (hr : q.runningSender = true) :
    LoopTurn q { q with sendMtx := none, place := .notifying }
  | starts (hp : q.place = .awake) (hq : q.senderBuffer ≠ []) (hr : q.runningSender = true) :
    LoopTurn q { q with place := .sending }
  | notifies (hp : q.place = .notifying) : LoopTurn q { q with place := .test }

section Events
variable {ι : Type} [DecidableEq ι] {l : SenderLoop} {e : SenderEvent ι} {i : ι}
  {q q' : SenderState ι}

theorem act_inv (h : q.act i = some q') :
    ∃ a more, q.rest i = a :: more ∧ (q.setRest i more).perform i a = some q' := by
  unfold SenderState.act at h
  split at h
  · cases h
  · rename_i a more hrest
    exact ⟨a, more, hrest, h⟩

theorem loop_begins_inv {o : Operation} (h : loopStep l (.begins i o) q = some q') :
    q.rest i = [] ∧ o.within l = true ∧ q' = q.setRest i o.code := by
  rw [loopStep] at h
  split_ifs at h with hb
  rw [Bool.and_eq_true, List.isEmpty_iff] at hb
  exact ⟨hb.1, hb.2, (Option.some.inj h).symm⟩

theorem breakOff_inv (h : q.breakOff i = some q') :
    (∃ more, q.rest i = .forcesSend :: more ∨ q.rest i = .tidies :: more) ∧
      q'.rest = Function.update q.rest i [] ∧ q'.place = q.place ∧
      q'.runningSender = q.runningSender := by
  unfold SenderState.breakOff at h
  split at h
  · rename_i more hrest
    cases h
    exact ⟨⟨more, .inl hrest⟩, rfl, rfl, rfl⟩
  · rename_i more hrest
    cases h
    exact ⟨⟨more, .inr hrest⟩, rfl, rfl, rfl⟩
  · cases h

omit [DecidableEq ι] in
theorem perform_place {a : Instruction} (hn : a ≠ .notifies) (h : q.perform i a = some q') :
    q'.place = q.place ∧ q'.rest = q.rest ∧ (a ≠ .clears → q'.runningSender = q.runningSender) := by
  have hsame : q' = q ∨ q'.place = q.place ∧ q'.rest = q.rest ∧ q'.runningSender = q.runningSender ∨
      a = .clears ∧ q' = { q with runningSender := false } := by
    cases a with
    | locks =>
      obtain ⟨-, he⟩ := Option.ite_none_right_eq_some.mp h
      cases he
      exact .inr (.inl ⟨rfl, rfl, rfl⟩)
    | joins =>
      obtain ⟨-, he⟩ := Option.ite_none_right_eq_some.mp h
      exact .inl (Option.some.inj he).symm
    | notifies => exact absurd rfl hn
    | clears => exact .inr (.inr ⟨rfl, (Option.some.inj h).symm⟩)
    | pushes p | empties | forcesSend | tidies =>
      cases h
      exact .inr (.inl ⟨rfl, rfl, rfl⟩)
  rcases hsame with rfl | ⟨hp, hr, hf⟩ | ⟨rfl, rfl⟩
  · exact ⟨rfl, rfl, fun _ => rfl⟩
  · exact ⟨hp, hr, fun _ => hf⟩
  · exact ⟨rfl, rfl, fun hc => absurd rfl hc⟩

omit [DecidableEq ι] in
theorem turn_inv (h : q.turn = some q') : LoopTurn q q' := by
  unfold SenderState.turn at h
  split at h
  case h_1 hp =>
    cases h
    exact .enters hp
  case h_2 hp =>
    cases h
    by_cases hr : q.runningSender = true
    · rw [if_pos hr]
      exact .goesOn hp hr
    · rw [if_neg hr]
      exact .leaves hp (Bool.eq_false_iff.mpr hr)
  case h_3 hp =>
    obtain ⟨hm, he⟩ := Option.ite_none_right_eq_some.mp h
    cases he
    exact .locks (.inl hp) (Option.isNone_iff_eq_none.mp hm)
  case h_4 hp =>
    obtain ⟨hm, he⟩ := Option.ite_none_right_eq_some.mp h
    cases he
    exact .locks (.inr hp) (Option.isNone_iff_eq_none.mp hm)
  case h_5 hp =>
    cases h
    by_cases hw : (!q.senderBuffer.isEmpty || !q.runningSender) = true
    · rw [if_pos hw]
      simp only [Bool.or_eq_true, Bool.not_eq_true', List.isEmpty_eq_false_iff] at hw
      exact .finds hp hw
    · rw [if_neg hw]
      simp only [Bool.or_eq_true, Bool.not_eq_true', List.isEmpty_eq_false_iff, not_or, not_not,
        Bool.not_eq_false] at hw
      exact .decides hp hw.1 hw.2
  case h_6 hp =>
    cases h
    exact .sleeps hp
  case h_7 hp =>
    split_ifs at h with hr hq
    · cases h
      exact .stops hp hr
    · cases h
      exact .rests hp (List.isEmpty_iff.mp hq) (Bool.not_eq_false _ ▸ hr)
    · cases h
      exact .starts hp (mt List.isEmpty_iff.mpr hq) (Bool.not_eq_false _ ▸ hr)
  case h_8 hp =>
    cases h
    exact .notifies hp
  all_goals cases h

omit [DecidableEq ι] in
theorem turned_rest (h : LoopTurn q q') : q'.rest = q.rest := by
  cases h <;> rfl

theorem suffix_update {rest : ι → List Instruction} {code : List Instruction} (hc : code <:+ rest i)
    (j : ι) : Function.update rest i code j <:+ rest j := by
  by_cases hj : j = i
  · subst hj
    rw [Function.update_self]
    exact hc
  · simp [Function.update_of_ne hj]

theorem loopStep_rest (hs : loopStep l e q = some q') (j : ι) :
    q'.rest j <:+ q.rest j ∨
      ∃ o : Operation, e = .begins j o ∧ o.within l = true ∧ q'.rest j = o.code := by
  cases e with
  | begins i o =>
    obtain ⟨hrest, ho, rfl⟩ := loop_begins_inv hs
    rw [SenderState.setRest_rest]
    by_cases hj : j = i
    · subst hj
      exact .inr ⟨o, rfl, ho, Function.update_self ..⟩
    · rw [Function.update_of_ne hj]
      exact .inl List.suffix_rfl
  | acts i =>
    obtain ⟨a, more, hrest, hperform⟩ := act_inv hs
    have hcode : q'.rest = Function.update q.rest i more := by
      by_cases hn : a = .notifies
      · subst hn
        cases hperform
        rfl
      · exact (perform_place hn hperform).2.1
    rw [hcode]
    exact .inl (suffix_update (hrest ▸ List.suffix_cons a more) j)
  | breaks i =>
    obtain ⟨-, hcode, -⟩ := breakOff_inv hs
    rw [hcode]
    exact .inl (suffix_update List.nil_suffix j)
  | turns =>
    rw [turned_rest (turn_inv hs)]
    exact .inl List.suffix_rfl
  | sends | fails | wakes =>
    obtain ⟨-, he⟩ := Option.ite_none_right_eq_some.mp hs
    cases he
    exact .inl List.suffix_rfl

theorem loopStep_flag (hs : loopStep l e q = some q') (hf : q'.runningSender = false) :
    q.runningSender = false ∨ ∃ i more, e = .acts i ∧ q.rest i = .clears :: more := by
  cases e with
  | begins i o =>
    obtain ⟨-, -, rfl⟩ := loop_begins_inv hs
    exact .inl hf
  | acts i =>
    obtain ⟨a, more, hrest, hperform⟩ := act_inv hs
    by_cases ha : a = .clears
    · exact .inr ⟨i, more, rfl, ha ▸ hrest⟩
    · by_cases hn : a = .notifies
      · subst hn
        cases hperform
        exact .inl hf
      · obtain ⟨-, -, hflag⟩ := perform_place hn hperform
        exact .inl ((hflag ha).symm.trans hf)
  | breaks i =>
    obtain ⟨-, -, -, hflag⟩ := breakOff_inv hs
    exact .inl (hflag.symm.trans hf)
  | turns =>
    cases turn_inv hs with
    | enters hp => cases hf
    | _ => exact .inl hf
  | sends | fails | wakes =>
    obtain ⟨-, he⟩ := Option.ite_none_right_eq_some.mp hs
    cases he
    exact .inl hf

end Events

/-! ## Operations -/

theorem disconnectCode_nil : disconnectCode [] =
    produceCode (Packet.init.withCommand (Packet.commandArray (txt "exit"))) ++
      [.clears, .notifies] := by
  rw [disconnectCode, run_bind_ok (Packet.mountWith_nil (by decide))]
  rfl

theorem disconnectCode_reason {reason : Text} (hne : reason ≠ []) : disconnectCode reason = [] := by
  obtain ⟨what, hraise⟩ : ∃ what, (Packet.mountWith (fun p => modify fun code => code ++ produceCode p)
      (txt "exit") reason : Exec (List Instruction) Unit) [] = .error (.raised what) [] :=
    Packet.mountWith_raises hne
  rw [disconnectCode, run_bind_error hraise, final_error]

theorem code_unnotified {o : Operation} (h : .forcesSend ∈ o.code ∨ .tidies ∈ o.code) :
    .notifies ∉ o.code := by
  cases o with
  | disconnect reason =>
    rcases eq_or_ne reason [] with rfl | hne
    · simp [Operation.code, disconnectCode_nil, produceCode, pushCode] at h
    · simp [Operation.code, disconnectCode_reason hne]
  | _ => simp [Operation.code, produceCode, pushCode] at h ⊢

def Written {ι : Type} (l : SenderLoop) (q : SenderState ι) : Prop :=
  ∀ i, ∃ o : Operation, o.within l = true ∧ q.rest i <:+ o.code

section Writing
variable {ι : Type} {l : SenderLoop} {i : ι} {q q' : SenderState ι} {e : SenderEvent ι}

theorem fresh_written : Written l (SenderState.fresh : SenderState ι) :=
  fun _ => ⟨.produces .init, rfl, List.nil_suffix⟩

variable [DecidableEq ι]

theorem Written.step (hw : Written l q) (hs : loopStep l e q = some q') : Written l q' := by
  intro j
  rcases loopStep_rest hs j with hsuffix | ⟨o, -, ho, hcode⟩
  · obtain ⟨o, ho, hcode⟩ := hw j
    exact ⟨o, ho, hsuffix.trans hcode⟩
  · exact ⟨o, ho, hcode ▸ List.suffix_rfl⟩

end Writing

end SyncWizard.Common
