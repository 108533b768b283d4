import SyncWizard.Common.Transfer
import SyncWizard.Server.Effects

/-! Runs of the server once its sessions are registered: any order of rounds of their receiver
and sender threads, of the overseer's pings and disconnects, and of bytes that arrive. An
exception that leaves a thread ends the process and with it the run. -/

namespace SyncWizard.Server
open Foundation Common

inductive Activity where
  | arrives (fd : ℤ) (bytes : Text)
  | receives (s : SessionId)
  | sends (s : SessionId)
  | pings (s : SessionId)
  | disconnects (s : SessionId) (reason : Text)
  deriving DecidableEq, Repr

structure Event where
  host : Host
  fuel : ℕ
  depth : ℕ
  activity : Activity

def Event.Of (sessions : List SessionId) (e : Event) : Prop :=
  match e.activity with
  | .arrives _ _ => True
  | .receives s | .sends s | .pings s | .disconnects s _ => s ∈ sessions

def arrive (fd : ℤ) (bytes : Text) : ServerExec Unit :=
  modify fun w => { w with net :=
    { w.net with inbox := Function.update w.net.inbox fd (w.net.inbox fd ++ bytes) } }

def step (e : Event) : ServerExec Unit :=
  match e.activity with
  | .arrives fd bytes => arrive fd bytes
  | .receives s => sessionReceiverRound e.host e.depth s
  | .sends s => senderRound e.host e.fuel s
  | .pings s => sendPing s
  | .disconnects s reason => disconnect s reason

def run (es : List Event) (w : ServerState) : ServerState := final (forEach step es w)

/-! ## What all steps but the sending ones do to the queues -/

/-- Nothing is written, the sessions keep their identity and the queues only grow, by packets in
`packets`. -/
def OnlyQueues (packets : Packet → Prop) (w w' : ServerState) : Prop :=
  w'.net.outbox = w.net.outbox ∧ w'.net.sockfd = w.net.sockfd ∧
    ∀ s, (w'.session s).identity = (w.session s).identity ∧
      ∃ new, (w'.session s).senderBuffer = (w.session s).senderBuffer ++ new ∧ ∀ p ∈ new, packets p

section Queueing
variable {packets : Packet → Prop}

instance : Std.Refl (OnlyQueues packets) :=
  ⟨fun _ => ⟨rfl, rfl, fun _ => ⟨rfl, [], (List.append_nil _).symm, fun _ hp => nomatch hp⟩⟩⟩

instance : IsTrans ServerState (OnlyQueues packets) := ⟨by
  rintro w₁ w₂ w₃ ⟨ho₁, hf₁, hs₁⟩ ⟨ho₂, hf₂, hs₂⟩
  refine ⟨ho₂.trans ho₁, hf₂.trans hf₁, fun s => ?_⟩
  obtain ⟨hi₁, new₁, hq₁, hb₁⟩ := hs₁ s
  obtain ⟨hi₂, new₂, hq₂, hb₂⟩ := hs₂ s
  refine ⟨hi₂.trans hi₁, new₁ ++ new₂, by rw [hq₂, hq₁, List.append_assoc], fun p hp => ?_⟩
  rcases List.mem_append.mp hp with hp | hp
  exacts [hb₁ p hp, hb₂ p hp]⟩

theorem setSession_onlyQueues (w : ServerState) (s : SessionId) {c : ClientSession} {new : List Packet}
    (hi : c.identity = (w.session s).identity)
    (hq : c.senderBuffer = (w.session s).senderBuffer ++ new) (hb : ∀ p ∈ new, packets p) :
    OnlyQueues packets w (w.setSession s c) := by
  refine ⟨rfl, rfl, fun t => ?_⟩
  by_cases ht : t = s
  · subst ht
    have hsame : (w.setSession t c).session t = c := Function.update_self ..
    rw [hsame]
    exact ⟨hi, new, hq, hb⟩
  · have hother : (w.setSession s c).session t = w.session t := Function.update_of_ne ht ..
    rw [hother]
    exact ⟨rfl, [], (List.append_nil _).symm, fun _ hp => nomatch hp⟩

theorem onlyQueues_admits (s : SessionId) :
    Admits s (fun _ => True) packets (OnlyQueues packets) where
  files w _ _ := ⟨rfl, rfl, (refl_of (OnlyQueues packets) w).2.2⟩
  push w _ hp := setSession_onlyQueues w s rfl rfl fun _ hq => List.mem_singleton.mp hq ▸ hp
  lock w _ _ := setSession_onlyQueues w s rfl (List.append_nil _).symm fun _ hp => nomatch hp
  stop w := setSession_onlyQueues w s rfl (List.append_nil _).symm fun _ hp => nomatch hp

theorem receiveCallback_onlyQueues {h : Host} (me : Identity) :
    Kept (OnlyQueues packets) (receiveCallback h me) := by
  intro w
  obtain ⟨n, -, htook, -⟩ := receivePacket_took (h := h) me.socketFd w.net
  have hsame := refl_of (OnlyQueues packets) w
  rw [receiveCallback_state, htook]
  exact ⟨hsame.1, hsame.2.1, hsame.2.2⟩

theorem step_onlyQueues (hp : ∀ c p, Sends c → Packet.Carries c p → packets p) {e : Event}
    (hsend : ∀ s, e.activity ≠ .sends s) : Kept (OnlyQueues packets) (step e) := by
  unfold step
  split
  · exact Kept.modify fun w => ⟨rfl, rfl, (refl_of (OnlyQueues packets) w).2.2⟩
  · exact sessionReceiverRound_kept onlyQueues_admits hp receiveCallback_onlyQueues _ _
  · exact absurd ‹_› (hsend _)
  · exact sendPing_kept (onlyQueues_admits _) fun p => hp _ p (.inl rfl)
  · exact disconnect_kept (onlyQueues_admits _) (fun p => hp _ p (.inr (.inl rfl))) _

end Queueing

/-! ## What a sending step does -/

theorem senderRound_idle {h : Host} {fuel : ℕ} {s : SessionId} {w : ServerState}
    (hidle : (w.session s).runningSender = false ∨ (w.session s).senderBuffer = []) :
    senderRound h fuel s w = .ok () w := by
  rw [senderRound, run_bind_ok (run_get w)]
  rcases hidle with hr | hq
  · rw [if_neg (by rw [hr]; exact Bool.false_ne_true)]
    rfl
  · split_ifs
    · simp only [hq, run_pure]
    · rfl

theorem senderRound_sends {h : Host} {fuel : ℕ} {s : SessionId} {w : ServerState} {p : Packet}
    {q : List Packet} {m : ConnectionManager} (hr : (w.session s).runningSender = true)
    (hq : (w.session s).senderBuffer = p :: q) (hsend : sendPacket h fuel p (-1) w.net = .ok () m) :
    senderRound h fuel s w = .ok () ({ w with net := m }.setSession s
      { w.session s with senderBuffer := q }) := by
  have hcall : sendCallback h fuel p w = .ok () { w with net := m } := onNet_ok hsend
  rw [senderRound, run_bind_ok (run_get w), if_pos hr]
  simp only [hq]
  refine run_attempt_ok ((run_bind_ok hcall _).trans ?_) _
  rw [run_modify]
  simp only [hq, List.tail_cons]

theorem senderRound_error {h : Host} {fuel : ℕ} {s : SessionId} {w : ServerState} {p : Packet}
    {q : List Packet} {e : Fault Text Crash} {m : ConnectionManager}
    (hr : (w.session s).runningSender = true)
    (hq : (w.session s).senderBuffer = p :: q) (hsend : sendPacket h fuel p (-1) w.net = .error e m) :
    ∃ e', senderRound h fuel s w = .error e' { w with net := m } := by
  have hcall : sendCallback h fuel p w = .error e { w with net := m } := onNet_error hsend
  rw [senderRound, run_bind_ok (run_get w), if_pos hr]
  simp only [hq]
  cases e with
  | raised what => exact ⟨_, run_attempt_raised (run_bind_error hcall _) _⟩
  | crashed c => exact ⟨_, run_attempt_crashed (run_bind_error hcall _) _⟩

theorem senderRound_bare (h : Host) (fuel : ℕ) {s : SessionId} {w : ServerState} {p : Packet}
    {q : List Packet} (hr : (w.session s).runningSender = true)
    (hq : (w.session s).senderBuffer = p :: q)
    (hp : p.bytes = []) :
    ∃ out m, w.net.Sent w.net.sockfd out m ∧
      ((senderRound h fuel s w = .ok () ({ w with net := m }.setSession s
          { w.session s with senderBuffer := q }) ∧ out = p.wire) ∨
        (∃ e, senderRound h fuel s w = .error e { w with net := m }) ∧ out <+: p.wire) := by
  obtain ⟨out, hout, hsent, hret⟩ := sendPacket_bare (h := h) hp fuel (-1) w.net
  have hsock : w.net.socketOf (-1) = w.net.sockfd := if_pos rfl
  rw [hsock] at hsent
  refine ⟨out, _, hsent, ?_⟩
  cases hsend : sendPacket h fuel p (-1) w.net with
  | ok u m =>
    rw [hsend] at hret
    exact .inl ⟨senderRound_sends hr hq hsend, hret (returns_ok _ _)⟩
  | error e m =>
    exact .inr ⟨senderRound_error hr hq hsend, hout⟩

end SyncWizard.Server
