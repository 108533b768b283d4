import SyncWizard.Common.Packet
import SyncWizard.Server.Network

/-! Which command strings reach which handler of a session. The fields of a string determine it, so
the switches over the fields decide a language of command strings; every string outside of it is
dropped. -/

namespace SyncWizard.Properties
open Foundation Common Server

/-! ## Strings and their fields -/

theorem bar_notMem_splitScan {cur s : Text} (hcur : bar ∉ cur) : ∀ f ∈ splitScan cur s, bar ∉ f := by
  induction s generalizing cur with
  | nil => exact List.forall_mem_singleton.mpr hcur
  | cons c cs ih =>
    rw [splitScan]
    split_ifs with hc
    · exact List.forall_mem_cons.mpr ⟨hcur, ih List.not_mem_nil⟩
    · apply ih
      rw [List.mem_append, List.mem_singleton, not_or]
      exact ⟨hcur, Ne.symm hc⟩

theorem splitScan_iff {s : Text} {fields : List Text} (hne : fields ≠ []) :
    splitScan [] s = fields ↔ s = joinFields fields ∧ ∀ f ∈ fields, bar ∉ f := by
  constructor
  · rintro rfl
    refine ⟨?_, bar_notMem_splitScan List.not_mem_nil⟩
    rw [splitScan_nil, joinFields]
    exact (List.intercalate_splitOn bar).symm
  · rintro ⟨rfl, hbar⟩
    exact splitScan_join hbar hne

section Words
variable {word s : Text} (hw : bar ∉ word)
include hw

theorem splitScan_one : splitScan [] s = [word] ↔ s = word := by
  rw [splitScan_iff (List.cons_ne_nil _ _), List.forall_mem_singleton, joinFields,
    List.intercalate_singleton]
  exact and_iff_left hw

theorem splitScan_two {a : Text} : splitScan [] s = [word, a] ↔ s = word ++ txt "|" ++ a ∧ bar ∉ a := by
  have hjoin : joinFields [word, a] = word ++ txt "|" ++ a := by
    rw [joinFields, List.intercalate_cons_cons, List.intercalate_singleton]
    rfl
  rw [splitScan_iff (List.cons_ne_nil _ _), hjoin, List.forall_mem_cons, List.forall_mem_singleton]
  exact and_congr_right' (and_iff_right hw)

theorem splitScan_three {a b : Text} :
    splitScan [] s = [word, a, b] ↔ s = word ++ txt "|" ++ a ++ txt "|" ++ b ∧ bar ∉ a ∧ bar ∉ b := by
  have hjoin : joinFields [word, a, b] = word ++ txt "|" ++ a ++ txt "|" ++ b := by
    rw [joinFields, List.intercalate_cons_cons, List.intercalate_cons_cons, List.intercalate_singleton,
      ← List.append_assoc, ← List.append_assoc]
    rfl
  rw [splitScan_iff (List.cons_ne_nil _ _), hjoin, List.forall_mem_cons, List.forall_mem_cons,
    List.forall_mem_singleton]
  exact and_congr_right' (and_iff_right hw)

end Words

/-! ## The language of the switches -/

def Says : Route → Text → Prop
  | .malformed _, _ | .download, _ => False
  | .logout, s => s = txt "exit"
  | .ping, s => s = txt "ping"
  | .pong, s => s = txt "pong"
  | .slist, s => s = txt "slist"
  | .flist, s => s = txt "flist"
  | .clist a, s => s = txt "clist" ∧ a = [] ∨ s = txt "clist|" ++ a ∧ bar ∉ a
  | .delete f, s => s = txt "delete|" ++ f ∧ bar ∉ f
  | .adownload f, s => s = txt "adownload|" ++ f ∧ bar ∉ f
  | .sdownload f c, s => s = txt "sdownload|" ++ f ++ txt "|" ++ c ∧ bar ∉ f ∧ bar ∉ c
  | .supload f c, s => s = txt "supload|" ++ f ++ txt "|" ++ c ∧ bar ∉ f ∧ bar ∉ c

def Handled : Route → Prop
  | .malformed _ | .download => False
  | _ => True

/-- The fields for which a handler is called with these arguments. -/
def Fielded : Route → List Text → Prop
  | .malformed _, _ | .download, _ => False
  | .logout, fs => fs = [txt "exit"]
  | .ping, fs => fs = [txt "ping"]
  | .pong, fs => fs = [txt "pong"]
  | .slist, fs => fs = [txt "slist"]
  | .flist, fs => fs = [txt "flist"]
  | .clist a, fs => fs = [txt "clist"] ∧ a = [] ∨ fs = [txt "clist", a]
  | .delete f, fs => fs = [txt "delete", f]
  | .adownload f, fs => fs = [txt "adownload", f]
  | .sdownload f c, fs => fs = [txt "sdownload", f, c]
  | .supload f c, fs => fs = [txt "supload", f, c]

theorem says_iff (route : Route) (s : Text) : Says route s ↔ Fielded route (splitScan [] s) := by
  cases route with
  | malformed | download => exact Iff.rfl
  | logout | ping | pong | slist | flist => exact (splitScan_one (by decide)).symm
  | clist a =>
    apply or_congr
    · exact and_congr_left' (splitScan_one (by decide)).symm
    · exact (splitScan_two (show bar ∉ txt "clist" by decide)).symm
  | delete f => exact (splitScan_two (show bar ∉ txt "delete" by decide)).symm
  | adownload f => exact (splitScan_two (show bar ∉ txt "adownload" by decide)).symm
  | sdownload f c => exact (splitScan_three (show bar ∉ txt "sdownload" by decide)).symm
  | supload f c => exact (splitScan_three (show bar ∉ txt "supload" by decide)).symm

theorem routeOf_fielded {route : Route} {fields : List Text} (hf : Fielded route fields) :
    routeOf fields = route := by
  cases route with
  | malformed | download => exact hf.elim
  | clist a =>
    rcases hf with ⟨rfl, rfl⟩ | rfl
    all_goals rfl
  | _ =>
    cases hf
    rfl

theorem fielded_routeOf (fields : List Text) (hh : Handled (routeOf fields)) :
    Fielded (routeOf fields) fields := by
  unfold routeOf at hh ⊢
  split at hh
  · exact hh.elim
  · split_ifs at hh ⊢ with h₁ h₂ h₃ h₄ h₅ h₆
    all_goals first
      | exact hh.elim
      | skip
    · exact congrArg (fun c => [c]) h₁
    · exact congrArg (fun c => [c]) h₂
    · exact congrArg (fun c => [c]) h₃
    · exact congrArg (fun c => [c]) h₄
    · exact congrArg (fun c => [c]) h₅
    · exact .inl ⟨congrArg (fun c => [c]) h₆, rfl⟩
  · rename_i command args
    split_ifs at hh ⊢ with h₁ h₂ h₃ h₄
    all_goals first
      | exact hh.elim
      | skip
    · exact congrArg (fun c => [c, args]) h₁
    · exact .inr (congrArg (fun c => [c, args]) h₂)
    · exact congrArg (fun c => [c, args]) h₃
  · rename_i command args checksum
    split_ifs at hh ⊢ with h₁ h₂
    · exact congrArg (fun c => [c, args, checksum]) h₁
    · exact congrArg (fun c => [c, args, checksum]) h₂
    · exact hh.elim
  · exact hh.elim

theorem routeOf_iff {route : Route} (hh : Handled route) (fields : List Text) :
    routeOf fields = route ↔ Fielded route fields := by
  constructor
  · rintro rfl
    exact fielded_routeOf fields hh
  · exact routeOf_fielded

theorem broadcastRoute_eq (fields : List Text) : broadcastRoute fields = receiverRoute fields := by
  match fields with
  | [] | [_] | [_, _] | [_, _, _] | _ :: _ :: _ :: _ :: _ => rfl

/-! ## What a dispatcher does with a packet -/

def commandString (p : Packet) : Text := p.memory.takeWhile (· != nul)

/-- The handler that is called for the command string of `p`, with its arguments: `dispatched` is
what a dispatcher makes of the packet, and `w` the state in which it was read. -/
structure CallsHandler (h : Host) (bc : Broadcast) (self : SessionId) (me : Identity) (p : Packet)
    (w : ServerState) (dispatched : EStateM.Result (Fault Text Crash) ServerState Unit) : Prop where
  exit : commandString p = txt "exit" → dispatched = clientRequestedLogout self w
  ping : commandString p = txt "ping" → dispatched = clientRequestedPing self w
  pong : commandString p = txt "pong" → dispatched = clientRespondedPing w
  slist : commandString p = txt "slist" → dispatched = clientRequestedSlist h self me w
  flist : commandString p = txt "flist" → dispatched = clientRequestedFlist h self me w
  clist : commandString p = txt "clist" → dispatched = clientSentClist h self me p [] w
  clistArgs : ∀ a, bar ∉ a → commandString p = txt "clist|" ++ a →
    dispatched = clientSentClist h self me p a w
  delete : ∀ f, bar ∉ f → commandString p = txt "delete|" ++ f →
    dispatched = clientRequestedDelete h bc self me f p w
  adownload : ∀ f, bar ∉ f → commandString p = txt "adownload|" ++ f →
    dispatched = clientRequestedAdownload h self me f w
  sdownload : ∀ f c, bar ∉ f → bar ∉ c → commandString p = txt "sdownload|" ++ f ++ txt "|" ++ c →
    dispatched = clientSentSdownload h self me f p c w
  supload : ∀ f c, bar ∉ f → bar ∉ c → commandString p = txt "supload|" ++ f ++ txt "|" ++ c →
    dispatched = clientSentSupload f c w
  other : (∀ route, ¬ Says route (commandString p)) → dispatched = .ok () w

section Dispatching
variable {p : Packet}

theorem fields_eq (p : Packet) : p.fields = splitScan [] (commandString p) := rfl

theorem receiverRoute_iff {route : Route} (hh : Handled route) :
    receiverRoute p.fields = route ↔ Says route (commandString p) := by
  rw [says_iff, ← fields_eq]
  exact routeOf_iff hh p.fields

theorem perform_dropped {route : Route} (hh : ¬ Handled route) (h : Host) (bc : Broadcast)
    (self : SessionId) (me : Identity) (w : ServerState) :
      perform h bc self me p route w = .ok () w := by
  cases route with
  | malformed | download => rfl
  | _ => exact absurd trivial hh

theorem perform_unsaid (hno : ∀ route, ¬ Says route (commandString p)) (h : Host) (bc : Broadcast)
    (self : SessionId) (me : Identity) (w : ServerState) :
    perform h bc self me p (receiverRoute p.fields) w = .ok () w :=
  perform_dropped (fun hh => hno _ ((receiverRoute_iff hh).mp rfl)) h bc self me w

variable {h : Host} {bc : Broadcast} {self : SessionId} {me : Identity}
  {q : Packet} {w w' : ServerState}

theorem perform_calls (h : Host) (bc : Broadcast) (self : SessionId) (me : Identity) (w : ServerState) :
    CallsHandler h bc self me p w (perform h bc self me p (receiverRoute p.fields) w) := by
  have hcall (route : Route) (hh : Handled route) (hs : Says route (commandString p)) :
      perform h bc self me p (receiverRoute p.fields) w = perform h bc self me p route w := by
    rw [(receiverRoute_iff hh).mpr hs]
  constructor
  case exit => exact hcall .logout trivial
  case ping => exact hcall .ping trivial
  case pong => exact hcall .pong trivial
  case slist => exact hcall .slist trivial
  case flist => exact hcall .flist trivial
  case clist => exact fun hs => hcall (.clist []) trivial (.inl ⟨hs, rfl⟩)
  case clistArgs => exact fun a hbar hs => hcall (.clist a) trivial (.inr ⟨hs, hbar⟩)
  case delete => exact fun f hbar hs => hcall (.delete f) trivial ⟨hs, hbar⟩
  case adownload => exact fun f hbar hs => hcall (.adownload f) trivial ⟨hs, hbar⟩
  case sdownload => exact fun f c hf hc hs => hcall (.sdownload f c) trivial ⟨hs, hf, hc⟩
  case supload => exact fun f c hf hc hs => hcall (.supload f c) trivial ⟨hs, hf, hc⟩
  case other => exact fun hno => perform_unsaid hno h bc self me w

theorem receiveAndPerform_dispatches (bc : Broadcast) (self : SessionId) (hp : p.Terminated)
    (hr : receiveCallback h me w = .ok p w') :
    receiveAndPerform h bc self me w = perform h bc self me p (receiverRoute p.fields) w' := by
  rw [receiveAndPerform, run_bind_ok hr]
  exact run_bind_ok (Packet.splitBuffer_terminated hp w') _

theorem addPacketFromBroadcast_dispatches (hp : p.Terminated)
    (hr : receiveCallback h (w.session self).identity w = .ok p w') :
    addPacketFromBroadcast h bc self q w =
      perform h bc self (w.session self).identity p (broadcastRoute p.fields) w' := by
  rw [addPacketFromBroadcast, run_bind_ok (run_get w)]
  refine (run_bind_ok hr _).trans ?_
  exact run_bind_ok (Packet.splitBuffer_terminated hp w') _

end Dispatching

/-- Both dispatchers choose a route exactly on its own command strings, with the arguments in them,
and call that route's handler; every other string leaves all as it is. -/
theorem dispatcher_grammar (p : Packet) (hp : p.Terminated) :
    (∀ route, Handled route → (receiverRoute p.fields = route ↔ Says route (commandString p))) ∧
    broadcastRoute p.fields = receiverRoute p.fields ∧
    (∀ h bc self me w w', receiveCallback h me w = .ok p w' →
      receiveAndPerform h bc self me w = perform h bc self me p (receiverRoute p.fields) w' ∧
        CallsHandler h bc self me p w' (receiveAndPerform h bc self me w)) ∧
    (∀ h bc self q w w', receiveCallback h (w.session self).identity w = .ok p w' →
      addPacketFromBroadcast h bc self q w =
          perform h bc self (w.session self).identity p (broadcastRoute p.fields) w' ∧
        CallsHandler h bc self (w.session self).identity p w' (addPacketFromBroadcast h bc self q w)) := by
  refine ⟨fun route hh => receiverRoute_iff hh, broadcastRoute_eq p.fields,
    fun h bc self me w w' hr => ?_, fun h bc self q w w' hr => ?_⟩
  · have hrun := receiveAndPerform_dispatches bc self hp hr
    exact ⟨hrun, hrun ▸ perform_calls h bc self me w'⟩
  · have hrun : addPacketFromBroadcast h bc self q w = _ := addPacketFromBroadcast_dispatches hp hr
    refine ⟨hrun, ?_⟩
    rw [hrun, broadcastRoute_eq]
    exact perform_calls h bc self _ w'

theorem delete_dispatched :
    receiverRoute (Packet.ofCommand (txt "delete|/a")).fields = .delete (txt "/a") := by
  have hreads : (Packet.ofCommand (txt "delete|/a")).Reads (txt "delete|/a") :=
    (Packet.ofCommand_carries (by decide)).toReads
  obtain ⟨hterminated, hfields⟩ := hreads.fields (by decide)
  apply ((dispatcher_grammar _ hterminated).1 (.delete (txt "/a")) trivial).mpr
  rw [says_iff, ← fields_eq, hfields]
  show splitScan [] (txt "delete|/a") = [txt "delete", txt "/a"]
  decide

end SyncWizard.Properties
