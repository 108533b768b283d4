import SyncWizard.Properties.AcceptedLogins
import SyncWizard.Properties.FreedSlots
import SyncWizard.Properties.SeparateCommands

/-! What the server shows of its users. The group forgets nobody and no session, whatever the threads do:
a user is counted with the sessions that were ever made for him, and they are never more than two. -/

namespace SyncWizard.Properties
open Foundation Common Server

/-- The names that have come to the server, with the number of sessions that were made for each. -/
abbrev Roster := List (Text × ℕ)

namespace Roster

def count (r : Roster) (name : Text) : ℕ := ((r.find? fun e => e.1 = name).map Prod.snd).getD 0

def enter (r : Roster) (name : Text) : Roster :=
  if r.any fun e => e.1 = name then r else r ++ [(name, 0)]

def more (r : Roster) (name : Text) : Roster := r.map fun e => if e.1 = name then (e.1, e.2 + 1) else e

inductive Enters (r : Roster) : Option Text → Roster → Prop where
  | stays : Enters r none r
  | named {name : Text} (hv : isValidUsername name = true) : Enters r none (r.enter name)
  | registered {name : Text} (hv : isValidUsername name = true) (hfew : r.count name < 2) :
    Enters r (some name) ((r.enter name).more name)

structure Sound (r : Roster) : Prop where
  names : (r.map Prod.fst).Nodup
  valid : ∀ name ∈ r.map Prod.fst, isValidUsername name = true
  limit : ∀ name, r.count name ≤ 2

structure Grows (r r' : Roster) : Prop where
  names : r.map Prod.fst <+: r'.map Prod.fst
  counts : ∀ name, r.count name ≤ r'.count name

section Rosters
variable {r r' r'' : Roster} {name : Text} {o : Option Text}

theorem Grows.refl (r : Roster) : Grows r r := ⟨List.prefix_refl _, fun _ => le_refl _⟩

theorem Grows.trans (h : Grows r r') (h' : Grows r' r'') : Grows r r'' :=
  ⟨h.names.trans h'.names, fun name => (h.counts name).trans (h'.counts name)⟩

theorem any_name (r : Roster) (name : Text) :
    (r.any fun e => e.1 = name) = true ↔ name ∈ r.map Prod.fst := by simp

theorem enter_listed (hmem : name ∈ r.map Prod.fst) : r.enter name = r := if_pos ((any_name r name).mpr hmem)

theorem enter_new (hnew : name ∉ r.map Prod.fst) : r.enter name = r ++ [(name, 0)] :=
  if_neg fun h => hnew ((any_name r name).mp h)

theorem enter_names (r : Roster) (name : Text) : name ∈ (r.enter name).map Prod.fst := by
  by_cases hmem : name ∈ r.map Prod.fst
  · rwa [enter_listed hmem]
  · rw [enter_new hmem]
    simp

theorem more_names (r : Roster) (name : Text) : (r.more name).map Prod.fst = r.map Prod.fst := by
  rw [more, List.map_map]
  refine List.map_congr_left fun e _ => ?_
  simp only [Function.comp_apply]
  split_ifs <;> rfl

theorem count_enter (r : Roster) (name name' : Text) : (r.enter name).count name' = r.count name' := by
  by_cases hmem : name ∈ r.map Prod.fst
  · rw [enter_listed hmem]
  · rw [enter_new hmem]
    unfold count
    rw [List.find?_append]
    cases hfind : r.find? fun e => e.1 = name' with
    | some e => rfl
    | none => by_cases hname : name = name' <;> simp [hname]

theorem count_more (hmem : name ∈ r.map Prod.fst) (name' : Text) :
    (r.more name).count name' = r.count name' + (some name).toList.count name' := by
  let f : Text × ℕ → Text × ℕ := fun e => if e.1 = name then (e.1, e.2 + 1) else e
  have hsame : (fun e => decide (e.1 = name')) ∘ f = fun e => decide (e.1 = name') := by
    funext e
    simp only [f, Function.comp_apply]
    split_ifs <;> rfl
  have hfound : (r.more name).count name' =
      (((r.find? fun e => e.1 = name').map f).map Prod.snd).getD 0 := by
    rw [count, more, List.find?_map, hsame]
  rw [hfound, count]
  cases hfind : r.find? fun e => e.1 = name' with
  | some e =>
    have he : e.1 = name' := by simpa using List.find?_some hfind
    by_cases hname : name = name'
    · simp [f, he, hname]
    · simp [f, he, hname, Ne.symm hname]
  | none =>
    have hne : name ≠ name' := by
      rintro rfl
      obtain ⟨e, he, hname⟩ := List.mem_map.mp hmem
      simpa [hname] using List.find?_eq_none.mp hfind e he
    simp [hne]

theorem Enters.count (h : Enters r o r') (name : Text) :
    r'.count name = r.count name + o.toList.count name := by
  cases h with
  | stays => rfl
  | named hv => exact count_enter _ _ _
  | registered hv hfew => rw [count_more (enter_names r _), count_enter]

theorem Enters.grows (h : Enters r o r') : Grows r r' := by
  refine ⟨?_, fun name => (Nat.le_add_right _ _).trans (h.count name).ge⟩
  have henter (name : Text) : r.map Prod.fst <+: (r.enter name).map Prod.fst := by
    by_cases hmem : name ∈ r.map Prod.fst
    · exact (enter_listed hmem).symm ▸ List.prefix_refl _
    · rw [enter_new hmem, List.map_append]
      exact List.prefix_append _ _
  cases h with
  | stays => exact List.prefix_refl _
  | named hv => exact henter _
  | registered hv hfew =>
    rw [more_names]
    exact henter _

theorem Enters.session (h : Enters r (some name) r') : r' = (r.enter name).more name := by
  cases h
  rfl

theorem sound_nil : Sound [] := ⟨List.nodup_nil, by simp, fun _ => Nat.zero_le 2⟩

theorem Sound.enter (hr : Sound r) (hv : isValidUsername name = true) : Sound (r.enter name) := by
  by_cases hmem : name ∈ r.map Prod.fst
  · exact (enter_listed hmem).symm ▸ hr
  refine ⟨?_, ?_, fun name' => count_enter r name name' ▸ hr.limit name'⟩
  · rw [enter_new hmem, List.map_append]
    refine hr.names.append (List.nodup_singleton name) ?_
    simpa using hmem
  · rw [enter_new hmem, List.map_append, List.forall_mem_append]
    exact ⟨hr.valid, by simpa using hv⟩

theorem Sound.enters (hr : Sound r) (h : Enters r o r') : Sound r' := by
  have hcount := h.count
  cases h with
  | stays => exact hr
  | named hv => exact hr.enter hv
  | @registered name hv hfew =>
    have hentered := hr.enter hv
    refine ⟨?_, ?_, fun name' => ?_⟩
    · rw [more_names]
      exact hentered.names
    · rw [more_names]
      exact hentered.valid
    · rw [hcount name']
      by_cases hname : name = name'
      · subst hname
        rw [Option.toList_some, List.count_singleton_self]
        exact hfew
      · simpa [hname] using hr.limit name'

end Rosters

end Roster

def roster (w : ServerState) : Roster :=
  w.users.map fun u => ((w.user u).username, (w.user u).sessions.length)

namespace Roster

def line (e : Text × ℕ) : Text :=
  txt "\n\t\t-> " ++ (e.1 ++ txt " (" ++ toText e.2 ++ txt " sessions)")

def listing (r : Roster) : Text := txt "Currently these users are connected:" ++ r.flatMap line

end Roster

theorem connectedUsers_eq (w : ServerState) : connectedUsers w = (roster w).listing := by
  rw [connectedUsers, Roster.listing, listUsers, roster, List.flatMap_map, List.flatMap_map]
  rfl

/-! ## What a listing says -/

theorem run_unique {p : Byte → Bool} {a a' x x' : Text} {d d' : Byte} (ha : ∀ c ∈ a, p c = true)
    (ha' : ∀ c ∈ a', p c = true) (hd : p d = false) (hd' : p d' = false)
    (h : a ++ d :: x = a' ++ d' :: x') : a = a' ∧ d :: x = d' :: x' := by
  have htake {a x : Text} {d : Byte} (ha : ∀ c ∈ a, p c = true) (hd : p d = false) :
      (a ++ d :: x).takeWhile p = a := by
    rw [List.takeWhile_append_of_pos ha, List.takeWhile_cons_of_neg (by simp [hd]), List.append_nil]
  have hfirst : a = a' := by
    rw [← htake (x := x) ha hd, h, htake ha' hd']
  subst hfirst
  exact ⟨rfl, List.append_cancel_left h⟩

theorem line_append (e : Text × ℕ) (x : Text) : Roster.line e ++ x =
    txt "\n\t\t-> " ++ (e.1 ++ 32 :: (40 :: (toText e.2 ++ 32 :: (txt "sessions)" ++ x)))) := by
  simp [Roster.line, txt]

theorem line_unique {e e' : Text × ℕ} {x x' : Text} (he : isValidUsername e.1 = true)
    (he' : isValidUsername e'.1 = true) (h : Roster.line e ++ x = Roster.line e' ++ x') :
    e = e' ∧ x = x' := by
  rw [line_append, line_append] at h
  obtain ⟨h₁, hrest⟩ := run_unique (List.all_eq_true.mp he) (List.all_eq_true.mp he') (by decide)
    (by decide) (List.append_cancel_left h)
  obtain ⟨hcount, htail⟩ := run_unique (isdigit_toText e.2) (isdigit_toText e'.2) (by decide)
    (by decide) (List.cons.inj (List.cons.inj hrest).2).2
  have h₂ : e.2 = e'.2 := by
    rw [← digitsValue_toText e.2, hcount, digitsValue_toText]
  exact ⟨Prod.ext h₁ h₂, List.append_cancel_left (List.cons.inj htail).2⟩

theorem lines_unique {r r' : Roster} (hr : ∀ e ∈ r, isValidUsername e.1 = true)
    (hr' : ∀ e ∈ r', isValidUsername e.1 = true) (h : r.flatMap Roster.line = r'.flatMap Roster.line) :
    r = r' := by
  induction r generalizing r' with
  | nil =>
    cases r' with
    | nil => rfl
    | cons e' r' => simp [Roster.line, txt] at h
  | cons e r ih =>
    cases r' with
    | nil => simp [Roster.line, txt] at h
    | cons e' r' =>
      rw [List.forall_mem_cons] at hr hr'
      obtain ⟨rfl, hrest⟩ := line_unique hr.1 hr'.1 h
      rw [ih hr.2 hr'.2 hrest]

/-! ## The registry as a roster -/

section Registry
variable {w w' : ServerState} {username : Text}

theorem SameRegistry.roster (hs : SameRegistry w w') : roster w' = Properties.roster w := by
  rw [hs]
  rfl

theorem roster_names (w : ServerState) :
    (roster w).map Prod.fst = w.users.map fun u => (w.user u).username := by
  rw [roster, List.map_map]
  rfl

theorem roster_count (w : ServerState) (name : Text) : (roster w).count name = sessionCount w name := by
  have hfound : (roster w).count name =
      ((knownUser w name).map fun u => (w.user u).sessions.length).getD 0 := by
    rw [Roster.count, roster, List.find?_map, Option.map_map]
    rfl
  rw [hfound, sessionCount]
  cases knownUser w name <;> rfl

theorem load_roster (hi : Invariant w) {c : User} (hname : c.username = username)
    (hsessions : c.sessions = []) (hnew : ∀ u ∈ w.users, (w.user u).username ≠ username) :
    roster (w.load c) = (roster w).enter username := by
  have hunknown : username ∉ (roster w).map Prod.fst := by
    rw [roster_names]
    intro hmem
    obtain ⟨u, hu, hname⟩ := List.mem_map.mp hmem
    exact hnew u hu hname
  rw [Roster.enter_new hunknown, roster, show (w.load c).users = w.users ++ [w.nextUser] from rfl,
    List.map_append, List.map_singleton, load_user_new, hname, hsessions]
  refine congrArg (· ++ [(username, 0)]) (List.map_congr_left fun u hu => ?_)
  rw [load_user_old c (Nat.ne_of_lt (hi.knownUsers u hu))]

theorem append_roster (hi : Invariant w) {u : UserId} (hu : u ∈ w.users) (me : Identity) :
    roster ((w.allocate me).appendSession u w.nextSession) =
      (roster w).more (w.user u).username := by
  have huser : (w.allocate me).user = w.user := rfl
  rw [roster, Roster.more, roster, List.map_map]
  refine List.map_congr_left fun v hv => ?_
  rcases eq_or_ne v u with rfl | hne
  · simp [appendSession_user_self, huser]
  · have hname : (w.user v).username ≠ (w.user u).username := fun h =>
      hne (List.inj_on_of_nodup_map hi.names hv hu h)
    simp [appendSession_user_ne _ hne, huser, hname]

def Named (name : Text) (w v : ServerState) : Prop :=
  Invariant v ∧ (roster v = roster w ∨ roster v = (roster w).enter name)

theorem Named.same {v v' : ServerState} (hv : Named username w v) (hs : SameRegistry v v') :
    Named username w v' :=
  ⟨SameRegistry.invariant hs hv.1, by rw [SameRegistry.roster hs]; exact hv.2⟩

theorem enter_enter (r : Roster) (name : Text) : (r.enter name).enter name = r.enter name :=
  Roster.enter_listed (Roster.enter_names r name)

theorem registerSession_roster (hi : Invariant w) (hv : isValidUsername username = true) (h : Host)
    (fuel : ℕ) (fd : ℤ) (machine : Text) :
    (∃ e v, registerSession h fuel fd username machine w = .error e v ∧ Invariant v ∧
        (roster w).Enters none (roster v)) ∨
      ∃ v, registerSession h fuel fd username machine w = .ok () v ∧ Invariant v ∧
        (roster w).Enters (some username) (roster v) := by
  have hnamed {v : ServerState} (hn : Named username w v) : (roster w).Enters none (roster v) := by
    rcases hn.2 with hr | hr
    · rw [hr]
      exact .stays
    · rw [hr]
      exact .named hv
  apply registerSession_stages h fuel fd username machine hi (P := Named username w) ⟨hi, .inl rfl⟩
  · exact fun v v' hn hs => hn.same hs
  · intro v c hiv hn hunknown hname hsessions _
    refine ⟨load_invariant hiv hsessions (hname ▸ hunknown), .inr ?_⟩
    rw [load_roster hiv hname hsessions hunknown]
    rcases hn.2 with hr | hr
    · rw [hr]
    · rw [hr, enter_enter]
  · exact fun v hn => ⟨hn.1, hnamed hn⟩
  · intro v u hiv hn
    have hkept := hnamed hn
    exact ⟨allocate_invariant hiv _, hkept⟩
  · intro v u hiv hn hu hname hfew hfree
    refine ⟨append_invariant hiv hu hfew hfree hname.symm, ?_⟩
    have hentered : roster v = (roster w).enter username := by
      have hmem : username ∈ (roster v).map Prod.fst := by
        rw [roster_names, ← hname]
        exact List.mem_map_of_mem hu
      rcases hn.2 with hr | hr
      · rw [hr] at hmem
        rw [hr, Roster.enter_listed hmem]
      · exact hr
    have hcount : (roster w).count username < 2 := by
      rw [← Roster.count_enter _ username, ← hentered, roster_count, sessionCount, ← hname,
        knownUser_eq hiv hu]
      exact hfew
    rw [append_roster hiv hu, hname, hentered]
    exact .registered hv hcount

end Registry

/-! ## One step of a thread -/

structure SameUsers (w w' : ServerState) : Prop where
  users : w'.users = w.users
  user : w'.user = w.user
  nextUser : w'.nextUser = w.nextUser
  nextSession : w'.nextSession = w.nextSession
  identity : ∀ s, (w'.session s).identity = (w.session s).identity

instance : Std.Refl SameUsers := ⟨fun _ => ⟨rfl, rfl, rfl, rfl, fun _ => rfl⟩⟩

instance : IsTrans ServerState SameUsers := ⟨fun _ _ _ h₁ h₂ =>
  ⟨h₂.users.trans h₁.users, h₂.user.trans h₁.user, h₂.nextUser.trans h₁.nextUser,
    h₂.nextSession.trans h₁.nextSession, fun s => (h₂.identity s).trans (h₁.identity s)⟩⟩

section Steps
variable {w w' : ServerState}

theorem setSession_sameUsers (w : ServerState) (s : SessionId) {c : ClientSession}
    (hc : c.identity = (w.session s).identity) : SameUsers w (w.setSession s c) := by
  refine ⟨rfl, rfl, rfl, rfl, fun t => ?_⟩
  rcases eq_or_ne t s with rfl | hne
  · have hself : (w.setSession t c).session t = c := Function.update_self ..
    rw [hself, hc]
  · have hother : (w.setSession s c).session t = w.session t := Function.update_of_ne hne ..
    rw [hother]

theorem sameUsers_admits (s : SessionId) :
    Server.Admits s (fun _ => True) (fun _ => True) SameUsers where
  files _ _ _ := ⟨rfl, rfl, rfl, rfl, fun _ => rfl⟩
  push w _ _ := setSession_sameUsers w s rfl
  lock w _ _ := setSession_sameUsers w s rfl
  stop w := setSession_sameUsers w s rfl

theorem onNet_sameUsers {α : Type} (p : Exec ConnectionManager α) : Kept SameUsers (onNet p) :=
  (onNet_same p).mono fun w w' hs => by
    rw [hs]
    exact ⟨rfl, rfl, rfl, rfl, fun _ => rfl⟩

theorem senderRound_sameUsers (h : Host) (fuel : ℕ) (s : SessionId) :
    Kept SameUsers (senderRound h fuel s) := by
  refine Kept.bind Kept.get fun w => ?_
  split_ifs
  · split
    · exact Kept.pure ()
    · refine Kept.attempt ?_ fun what => Kept.raise _
      exact Kept.bind (onNet_sameUsers _) fun _ =>
        Kept.modify fun v => setSession_sameUsers v s rfl
  · exact Kept.pure ()

theorem step_sameUsers (e : Event) : Kept SameUsers (step e) := by
  unfold step
  split
  · exact Kept.modify fun w => ⟨rfl, rfl, rfl, rfl, fun _ => rfl⟩
  · exact sessionReceiverRound_kept sameUsers_admits (fun _ _ _ _ => trivial)
      (fun me => onNet_sameUsers _) _ _
  · exact senderRound_sameUsers _ _ _
  · exact sendPing_kept (sameUsers_admits _) fun _ _ => trivial
  · exact disconnect_kept (sameUsers_admits _) (fun _ _ => trivial) _

theorem SameUsers.invariant (hs : SameUsers w w') (hi : Invariant w) : Invariant w' := by
  obtain ⟨husers, huser, hnext, hsession, hidentity⟩ := hs
  refine invariant_of ?_ ?_ ?_
  · rw [husers, huser]
    exact hi.names
  · rw [husers, hnext]
    exact hi.knownUsers
  · rw [husers, huser, hsession]
    refine fun u hu => ⟨hi.limit u hu, ?_, ?_, hi.knownSessions u hu⟩
    · simpa only [hidentity] using hi.sockets u hu
    · simpa only [hidentity] using hi.holders u hu

theorem SameUsers.roster (hs : SameUsers w w') : roster w' = Properties.roster w := by
  rw [Properties.roster, hs.users, hs.user]
  rfl

def loginOn (h : Host) (fuel : ℕ) (newSocket : ℤ) : ServerExec Text := do
  let acceptPacket ← onNet (receivePacket h newSocket)
  match ← splitBuffer acceptPacket.memory with
  | [_, username, machine] =>
    if isValidUsername username then do
      registerSession h fuel newSocket username machine
      pure username
    else raise []
  | _ => raise []

theorem refuse_same (h : Host) (fuel : ℕ) (fd : ℤ) (reason : Text) :
    Kept SameRegistry (refuse h fuel fd reason) :=
  refuse_kept (fun _ => onNet_same _) (Kept.modify fun _ => rfl) reason

theorem acceptConnection_leads {R : ServerState → ServerState → Prop} [Std.Refl R] [IsTrans ServerState R]
    {h : Host} {fuel : ℕ} {fd : ℤ} (hrefuse : ∀ reason, Kept R (refuse h fuel fd reason))
    (happrove : Kept R (approve h fuel fd)) (hclose : Kept R (closeSocket fd)) :
    Leads R (loginOn h fuel fd) (acceptConnection h fuel fd) := by
  refine Leads.attempt_kept ?_ fun _ => hclose
  refine Leads.bind _ fun p => Leads.bind _ fun fields => ?_
  have hrefused (reason : Text) : Leads R (raise [] : ServerExec Text) (refuse h fuel fd reason) :=
    Leads.raise _ (hrefuse reason)
  match fields with
  | [] | [_] | [_, _] | _ :: _ :: _ :: _ :: _ => exact hrefused _
  | [command, username, machine] =>
    by_cases hv : isValidUsername username = true
    · simp only [hv, if_true]
      refine Leads.attempt_kept (Leads.before_pure ?_ _) fun what => hrefuse _
      refine Leads.bind_kept ?_ fun _ => happrove
      exact Leads.attempt_kept (Leads.refl _) fun what => Kept.raise _
    · simp only [hv]
      exact hrefused _

/-- The user for whom a step of a thread registers a session. -/
def registers (t : ServerThread) (w : ServerState) : Option Text :=
  match t with
  | .session _ => none
  | .accepts h fuel newSocket =>
    match loginOn h fuel newSocket w with
    | .ok username _ => some username
    | .error _ _ => none

theorem loginOn_cases (hi : Invariant w) (h : Host) (fuel : ℕ) (fd : ℤ) :
    (∃ e v, loginOn h fuel fd w = .error e v ∧ Invariant v ∧ (roster w).Enters none (roster v)) ∨
      ∃ name v, loginOn h fuel fd w = .ok name v ∧ Invariant v ∧
        (roster w).Enters (some name) (roster v) := by
  have hstays {v : ServerState} (hs : SameRegistry w v) :
      Invariant v ∧ (roster w).Enters none (roster v) :=
    ⟨SameRegistry.invariant hs hi, SameRegistry.roster hs ▸ .stays⟩
  have hreceived := onNet_same (receivePacket h fd) w
  cases hr : onNet (receivePacket h fd) w with
  | error e v =>
    rw [hr] at hreceived
    exact .inl ⟨e, v, run_bind_error hr _, hstays hreceived⟩
  | ok p v =>
    rw [hr, final_ok] at hreceived
    rw [loginOn, run_bind_ok hr]
    have hsplit := splitBuffer_kept (R := SameRegistry) p.memory v
    cases hf : splitBuffer p.memory v with
    | error e v' =>
      rw [hf] at hsplit
      exact .inl ⟨e, v', run_bind_error hf _, hstays (trans_of _ hreceived hsplit)⟩
    | ok fields v' =>
      rw [hf, final_ok] at hsplit
      have hs := trans_of _ hreceived hsplit
      rw [run_bind_ok hf]
      match fields with
      | [] | [_] | [_, _] | _ :: _ :: _ :: _ :: _ => exact .inl ⟨_, v', rfl, hstays hs⟩
      | [command, username, machine] =>
        by_cases hv : isValidUsername username = true
        · simp only [hv, if_true]
          have hlogin := registerSession_roster (SameRegistry.invariant hs hi) hv h fuel fd machine
          rw [SameRegistry.roster hs] at hlogin
          rcases hlogin with ⟨e, t, hrun, hentered⟩ | ⟨t, hrun, hentered⟩
          · exact .inl ⟨e, t, run_bind_error hrun _, hentered⟩
          · exact .inr ⟨username, t, run_bind_ok hrun _, hentered⟩
        · simp only [hv]
          exact .inl ⟨_, v', rfl, hstays hs⟩

theorem perform_enters (hi : Invariant w) (t : ServerThread) :
    Invariant (final (t.perform w)) ∧ (roster w).Enters (registers t w) (roster (final (t.perform w))) := by
  cases t with
  | session e =>
    have hsame := step_sameUsers e w
    refine ⟨hsame.invariant hi, ?_⟩
    rw [ServerThread.perform, hsame.roster]
    exact .stays
  | accepts h fuel fd =>
    have hleads := acceptConnection_leads (R := SameRegistry) (refuse_same h fuel fd)
      (approve_same h fuel fd) (Kept.modify fun _ => rfl) w
    rw [ServerThread.perform, SameRegistry.roster hleads, registers]
    rcases loginOn_cases hi h fuel fd with ⟨e, v, hrun, hv, henters⟩ | ⟨name, v, hrun, hv, henters⟩
    all_goals
      rw [hrun] at hleads ⊢
      exact ⟨SameRegistry.invariant hleads hv, henters⟩

end Steps

/-! ## What is shown -/

inductive Answer where
  | unknown (uiBuffer : Text)
  | listing (r : Roster)

namespace Answer

def text : Answer → Text
  | .unknown uiBuffer => unknownCommand uiBuffer
  | .listing r => r.listing

def roster : Answer → Option Roster
  | .unknown _ => none
  | .listing r => some r

end Answer

/-- No two answers look the same, as long as the names in them are names that a login may have. -/
theorem answers_readable (a a' : Answer)
    (ha : ∀ r ∈ a.roster, ∀ e ∈ r, isValidUsername e.1 = true)
    (ha' : ∀ r ∈ a'.roster, ∀ e ∈ r, isValidUsername e.1 = true) (h : a.text = a'.text) : a = a' := by
  cases a with
  | unknown b =>
    cases a' with
    | unknown b' =>
      have hb : b = b' := List.append_cancel_left (List.append_cancel_right h)
      rw [hb]
    | listing r' => simp [Answer.text, unknownCommand, Roster.listing, txt] at h
  | listing r =>
    cases a' with
    | unknown b' => simp [Answer.text, unknownCommand, Roster.listing, txt] at h
    | listing r' =>
      have hr : r = r' := lines_unique (ha r rfl) (ha' r' rfl) (List.append_cancel_left h)
      rw [hr]

theorem answers_readable_listing :
    (Answer.listing [(txt "ana", 2)]).text ≠ (Answer.listing [(txt "ana", 1), (txt "bob", 1)]).text := by
  intro h
  have hsame := answers_readable (.listing [(txt "ana", 2)]) (.listing [(txt "ana", 1), (txt "bob", 1)])
    (by decide) (by decide) h
  simp at hsame

def registered (e : TerminalEvent ServerThread) (q : Terminal ServerProgram) : Option Text :=
  match e with
  | .elsewhere t => registers t q.app.server
  | _ => none

/-- What has been shown are these answers, and each listing has all that the ones before it had. -/
structure Told (s : ServerProgram) (as : List Answer) : Prop where
  shown : s.shown = as.map Answer.text
  sound : ∀ r ∈ as.filterMap Answer.roster, r.Sound
  ordered : (as.filterMap Answer.roster).Pairwise Roster.Grows
  past : ∀ r ∈ as.filterMap Answer.roster, r.Grows (roster s.server)

section Telling
variable {s s' : ServerProgram} {as : List Answer}

theorem told_unknown (ht : Told s as) (b : Text) :
    Told (s.aprint (unknownCommand b)) (as ++ [.unknown b]) := by
  obtain ⟨hshown, hsound, hordered, hpast⟩ := ht
  have hsame : (as ++ [Answer.unknown b]).filterMap Answer.roster = as.filterMap Answer.roster := by
    rw [List.filterMap_append]
    exact List.append_nil _
  refine ⟨?_, hsame ▸ hsound, hsame ▸ hordered, hsame ▸ hpast⟩
  rw [ServerProgram.aprint, hshown, List.map_append]
  rfl

theorem told_listing (ht : Told s as) (hr : (roster s.server).Sound) :
    Told (s.aprint (connectedUsers s.server)) (as ++ [.listing (roster s.server)]) := by
  obtain ⟨hshown, hsound, hordered, hpast⟩ := ht
  have hmore : (as ++ [Answer.listing (roster s.server)]).filterMap Answer.roster =
      as.filterMap Answer.roster ++ [roster s.server] := List.filterMap_append
  refine ⟨?_, ?_, ?_, ?_⟩
  · rw [ServerProgram.aprint, hshown, List.map_append, connectedUsers_eq]
    rfl
  all_goals rw [hmore]
  · exact List.forall_mem_append.mpr ⟨hsound, by simpa using hr⟩
  · rw [List.pairwise_append]
    exact ⟨hordered, List.pairwise_singleton _ _, by simpa using hpast⟩
  · exact List.forall_mem_append.mpr ⟨hpast, List.forall_mem_singleton.mpr (Roster.Grows.refl _)⟩

theorem processInput_server (b : Text) (ws : List Text) (s : ServerProgram) :
    (processInput b ws s).2.server = s.server := by
  unfold processInput
  split <;> try split_ifs
  all_goals rfl

theorem processInput_told (ht : Told s as) (hr : (roster s.server).Sound) (b : Text) (ws : List Text) :
    ∃ as, Told (processInput b ws s).2 as := by
  unfold processInput
  split
  · exact ⟨as, ht⟩
  · split_ifs
    exacts [⟨as, ht⟩, ⟨_, told_unknown ht b⟩]
  · split_ifs
    exacts [⟨_, told_listing ht hr⟩, ⟨_, told_unknown ht b⟩, ⟨_, told_unknown ht b⟩]
  · exact ⟨_, told_unknown ht b⟩

theorem elsewhere_server {t : ServerThread} (h : serverApplication.elsewhere t s = some s') :
    s'.shown = s.shown ∧ s'.server = final (t.perform s.server) := by
  simp only [serverApplication] at h
  cases hr : t.perform s.server with
  | ok u w =>
    rw [hr] at h
    cases h
    exact ⟨rfl, rfl⟩
  | error e w =>
    rw [hr] at h
    cases h

end Telling

structure Counted (names : List Text) (q : Terminal ServerProgram) : Prop where
  registry : Invariant q.app.server
  sound : (roster q.app.server).Sound
  counts : ∀ name, (roster q.app.server).count name = names.count name
  told : ∃ as, Told q.app as

theorem counted_step {names : List Text} {e : TerminalEvent ServerThread} {q q' : Terminal ServerProgram}
    (hq : Counted names q) (hs : terminalStep serverApplication e q = some q') :
    Counted (names ++ (registered e q).toList) q' := by
  obtain ⟨hregistry, hsound, hcounts, as, htold⟩ := hq
  rcases terminalStep_app hs with ⟨k, v, rfl, happ⟩ | ⟨t, rfl, happ⟩ | ⟨hne, happ⟩
  · have hserver := processInput_server q.commandBuffer q.sanitizedCommands q.app
    have htold' := processInput_told htold hsound q.commandBuffer q.sanitizedCommands
    have hq' : q'.app = (processInput q.commandBuffer q.sanitizedCommands q.app).2 :=
      (congrArg Prod.snd (Option.some.inj happ)).symm
    rw [← hq'] at hserver htold'
    have hnone : registered (.processes k) q = none := rfl
    rw [hnone, Option.toList_none, List.append_nil]
    exact ⟨hserver ▸ hregistry, hserver ▸ hsound, hserver ▸ hcounts, htold'⟩
  · obtain ⟨hshown, hserver⟩ := elsewhere_server happ
    obtain ⟨hregistry', henters⟩ := perform_enters hregistry t
    rw [← hserver] at hregistry' henters
    refine ⟨hregistry', hsound.enters henters, fun name => ?_, as, ?_⟩
    · rw [henters.count, hcounts, registered, List.count_append]
    · exact ⟨hshown.trans htold.shown, htold.sound, htold.ordered,
        fun r hr => (htold.past r hr).trans henters.grows⟩
  · have hnone : registered e q = none := by
      cases e with
      | elsewhere t => exact absurd rfl (hne t)
      | types | inputs | mains | processes | acceptEnds | wakesInput | wakesMain | wakesBuffer => rfl
    rw [hnone, Option.toList_none, List.append_nil]
    exact ⟨happ ▸ hregistry, happ ▸ hsound, happ ▸ hcounts, as, happ ▸ htold⟩

theorem counted_start {w : ServerState} (hw : w.users = []) (queued : List Text) :
    Counted [] (Terminal.start queued ⟨w, []⟩) := by
  have hnobody : roster w = [] := by
    rw [roster, hw]
    rfl
  refine ⟨invariant_empty hw, ?_, fun name => ?_, [], rfl, by simp, by simp, by simp⟩
  · exact hnobody ▸ Roster.sound_nil
  · exact congrArg (fun r : Roster => r.count name) hnobody

section Logins
variable {limit : BitVec 32} {w : ServerState} {fd : ℤ}

def hostWith (limit : BitVec 32) : Host := { pageHost.1 with uninitialised := limit }

def anaArrives (limit : BitVec 32) (fd : ℤ) : ServerThread :=
  .session ⟨hostWith limit, 0, 0, .arrives fd loginPacket.wire⟩

def anaAccepted (limit : BitVec 32) (fd : ℤ) : ServerThread :=
  .accepts (hostWith limit) (headerSize + 1) fd

def loginSent (fd : ℤ) (w : ServerState) : ServerState := final (arrive fd loginPacket.wire w)

def loginRead (fd : ℤ) (w : ServerState) : ServerState :=
  { loginSent fd w with net := (loginSent fd w).net.tick.tick.take fd headerSize }

theorem loginSent_received (h0 : 0 ≤ fd) (hinbox : w.net.inbox fd = []) :
    receivePacket (hostWith limit) fd (loginSent fd w).net = .ok loginPacket (loginRead fd w).net := by
  have hsocket : (loginSent fd w).net.socketOf fd = fd := socketOf_new h0 _
  have hsent : (loginSent fd w).net.inbox fd = headerBytes loginPacket.toHeader := by
    have hall : (loginSent fd w).net.inbox fd = w.net.inbox fd ++ loginPacket.wire :=
      Function.update_self fd _ w.net.inbox
    rw [hall, hinbox, List.nil_append]
    exact List.append_nil _
  have hinbox : (loginSent fd w).net.inbox ((loginSent fd w).net.socketOf fd) =
      headerBytes loginPacket.toHeader := by rw [hsocket, hsent]
  have hreceived : receivePacket (hostWith limit) fd (loginSent fd w).net = _ :=
    receivePacket_atOnce rfl hinbox rfl rfl
  rwa [hsocket] at hreceived

theorem loginRead_inbox {fd' : ℤ} (hne : fd' ≠ fd) :
    (loginRead fd w).net.inbox fd' = w.net.inbox fd' := by
  have htaken : (loginRead fd w).net.inbox fd' = (loginSent fd w).net.inbox fd' :=
    ConnectionManager.take_inbox_ne _ _ hne
  rw [htaken]
  exact Function.update_of_ne hne _ w.net.inbox

theorem login_taken (h0 : 0 ≤ fd) (h9 : fd ≤ 9) (hi : Invariant w) (hinbox : w.net.inbox fd = [])
    (hl : Returns (handleNewSession (hostWith limit) (headerSize + 1) fd (txt "ana") (txt "laptop")
      (loginRead fd w))) :
    ∃ v m, handleNewSession (hostWith limit) (headerSize + 1) fd (txt "ana") (txt "laptop")
        (loginRead fd w) = .ok () v ∧
      (anaAccepted limit fd).perform (loginSent fd w) = .ok () { v with net := m } ∧
      registers (anaAccepted limit fd) (loginSent fd w) = some (txt "ana") ∧
      ∀ fd', fd' ≠ fd → m.inbox fd' = w.net.inbox fd' := by
  obtain ⟨hterminated, hfields⟩ := loginPacket_fields
  have hreceived : receivePacket (hostWith limit) fd _ = _ := loginSent_received h0 hinbox
  obtain ⟨_, v, hregistered⟩ := handleNewSession_returns.mp hl
  have hread : Invariant (loginRead fd w) :=
    SameRegistry.invariant (show SameRegistry w (loginRead fd w) from rfl) hi
  obtain ⟨-, hnet, -⟩ := confirmed_outbox h0 hread hregistered
  obtain ⟨m, hsent, hout⟩ : ∃ m, sendPacket (hostWith limit) (headerSize + 1)
      (Packet.ofCommand ((txt "login|ok|").drop fd.toNat)) fd v.net = .ok () m ∧ m.inbox = v.net.inbox :=
    ⟨_, sendPacket_atOnce rfl rfl rfl (headerSize - 1), rfl⟩
  have hfits : Packet.Fits ((txt "login|ok|").drop fd.toNat) := by
    have hlength : (txt "login|ok|").length = 9 := by decide
    rw [Packet.Fits, List.length_drop]
    omega
  have happroved : approve (hostWith limit) (headerSize + 1) fd v = .ok () { v with net := m } :=
    (approve_run (approvalText_inside h0 h9) hfits v).trans (onNet_ok hsent)
  have hconfirmed : confirmAndApprove (hostWith limit) fd (txt "ana") (txt "laptop") (loginRead fd w) =
      .ok () { v with net := m } := (run_bind_ok (handleNewSession_ok hregistered) _).trans happroved
  have hlogin : loginOn (hostWith limit) (headerSize + 1) fd (loginSent fd w) = .ok (txt "ana") v := by
    refine (run_bind_ok (onNet_ok hreceived) _).trans ?_
    refine (run_bind_ok (Packet.splitBuffer_terminated hterminated (loginRead fd w)) _).trans ?_
    rw [hfields]
    exact run_bind_ok hregistered _
  refine ⟨v, m, handleNewSession_ok hregistered, ?_, ?_, fun fd' hne => ?_⟩
  · exact (acceptConnection_received hreceived).trans
      (answered_confirmed ⟨hterminated, hfields, by decide⟩ hconfirmed)
  · rw [anaAccepted, registers, hlogin]
  · obtain ⟨out, -, hconfirmation, -⟩ := sendPacket_bare (h := hostWith limit)
      (p := confirmationPacket (sessionCount (loginRead fd w) (txt "ana"))) rfl (headerSize + 1) fd
      (loginRead fd w).net
    rw [hout, hnet, confirmedNet, hconfirmation.inbox]
    exact loginRead_inbox hne

theorem hostWith_sends (limit : BitVec 32) (n : ℕ) (fd : ℤ) (m : ConnectionManager) :
    Returns (sendPacket (hostWith limit) (headerSize + 1) (confirmationPacket n) fd m) :=
  ⟨(), _, sendPacket_atOnce rfl rfl rfl (headerSize - 1)⟩

theorem first_returns (limit : BitVec 32) : Returns (handleNewSession (hostWith limit) (headerSize + 1) 4
    (txt "ana") (txt "laptop") (loginRead 4 emptyServer)) :=
  (accepted_of_slots (invariant_empty rfl) (slots_empty rfl) (hostWith limit) (headerSize + 1) 4 _ _
    (by decide) (fun _ hu => by cases hu) (hostWith_sends _ _ _ _)).mpr
      ⟨rfl, rfl, fun _ => ⟨emptyServer_folder rfl rfl, rfl⟩⟩

theorem login_twice : ∃ w₁ w₂,
    (anaAccepted 2 4).perform (loginSent 4 emptyServer) = .ok () w₁ ∧
    (anaAccepted 2 5).perform (loginSent 5 w₁) = .ok () w₂ ∧
    registers (anaAccepted 2 4) (loginSent 4 emptyServer) = some (txt "ana") ∧
    registers (anaAccepted 2 5) (loginSent 5 w₁) = some (txt "ana") := by
  obtain ⟨v₁, m₁, hlogin, hperform₁, hregisters₁, hinbox⟩ :=
    login_taken (by decide) (by decide) (invariant_empty (w := emptyServer) rfl) rfl (first_returns 2)
  have hin : FirstLogin 4 (txt "ana") 0 v₁ :=
    firstLogin rfl (show (hostWith 2).uninitialised ≠ 0 by decide) hlogin
  let w₁ : ServerState := { v₁ with net := m₁ }
  have hread : FirstLogin 4 (txt "ana") 0 (loginRead 5 w₁) :=
    SameRegistry.firstLogin (show SameRegistry v₁ (loginRead 5 w₁) from rfl) hin
  have hsecond : Returns (handleNewSession (hostWith 2) (headerSize + 1) 5 (txt "ana") (txt "laptop")
      (loginRead 5 w₁)) :=
    (accepted_of_slots hread.registry hread.slots (hostWith 2) (headerSize + 1) 5 _ _ hread.few
      (hread.unused (by decide)) (hostWith_sends _ _ _ _)).mpr (hread.supplied rfl rfl)
  obtain ⟨v₂, m₂, -, hperform₂, hregisters₂, -⟩ := login_taken (w := w₁) (by decide) (by decide)
    (SameRegistry.invariant (show SameRegistry v₁ w₁ from rfl) hin.registry) (hinbox 5 (by decide)) hsecond
  exact ⟨w₁, _, hperform₁, hperform₂, hregisters₁, hregisters₂⟩

end Logins

def anaLogsIn (fd : ℤ) : List (TerminalEvent ServerThread) :=
  [.elsewhere (anaArrives 2 fd), .elsewhere (anaAccepted 2 fd)]

def twoLogins : List (TerminalEvent ServerThread) :=
  comesToRest ++ (anaLogsIn 4 ++ (lineRun (txt "list clients") ++
    (anaLogsIn 5 ++ lineRun (txt "list clients"))))

def atRest (w : ServerState) (shown typed taken : List Text) (handled : List (List Text)) :
    Terminal ServerProgram :=
  ⟨[], [], [], true, false, true, .bufferAsleep, .asleep, ⟨w, shown⟩, typed, taken, handled⟩

section Rest
variable (w : ServerState) (shown typed taken : List Text) (handled : List (List Text))

theorem lists_run : runSteps (terminalStep serverApplication) (lineRun (txt "list clients"))
    (atRest w shown typed taken handled) = some (atRest w (shown ++ [connectedUsers w])
      (typed ++ [txt "list clients"]) (taken ++ [txt "list clients"])
        (handled ++ [[txt "list", txt "clients"]])) := rfl

theorem lists_silent : outputs (terminalStep serverApplication) registered (lineRun (txt "list clients"))
    (atRest w shown typed taken handled) = [] := rfl

variable {w} in
theorem logsIn_run {fd : ℤ} {w' : ServerState}
    (hp : (anaAccepted 2 fd).perform (loginSent fd w) = .ok () w')
    (hr : registers (anaAccepted 2 fd) (loginSent fd w) = some (txt "ana")) :
    runSteps (terminalStep serverApplication) (anaLogsIn fd) (atRest w shown typed taken handled) =
        some (atRest w' shown typed taken handled) ∧
      outputs (terminalStep serverApplication) registered (anaLogsIn fd)
        (atRest w shown typed taken handled) = [txt "ana"] := by
  have harrives : terminalStep serverApplication (.elsewhere (anaArrives 2 fd))
      (atRest w shown typed taken handled) = some (atRest (loginSent fd w) shown typed taken handled) := rfl
  have haccepts : terminalStep serverApplication (.elsewhere (anaAccepted 2 fd))
      (atRest (loginSent fd w) shown typed taken handled) = some (atRest w' shown typed taken handled) := by
    simp only [terminalStep, serverApplication, atRest, hp, Option.map_some]
  refine ⟨(runSteps_cons harrives).trans (runSteps_cons haccepts), ?_⟩
  rw [anaLogsIn, outputs, harrives, Option.elim_some, outputs, haccepts]
  have hout : registered (.elsewhere (anaAccepted 2 fd))
      (atRest (loginSent fd w) shown typed taken handled) = some (txt "ana") := hr
  rw [hout]
  rfl

end Rest

theorem logsIn_roster {w w' : ServerState} {fd : ℤ} (hi : Invariant w)
    (hp : (anaAccepted 2 fd).perform (loginSent fd w) = .ok () w')
    (hr : registers (anaAccepted 2 fd) (loginSent fd w) = some (txt "ana")) :
    Invariant w' ∧ roster w' = ((roster w).enter (txt "ana")).more (txt "ana") := by
  have hsent : SameRegistry w (loginSent fd w) := rfl
  obtain ⟨hi', henters⟩ := perform_enters (SameRegistry.invariant hsent hi) (anaAccepted 2 fd)
  rw [hr, hp, final_ok, SameRegistry.roster hsent] at henters
  rw [hp] at hi'
  exact ⟨hi', henters.session⟩

theorem twoLogins_run : ∃ w₁ w₂ q,
    runSteps (terminalStep serverApplication) twoLogins (Terminal.start [] ⟨emptyServer, []⟩) = some q ∧
      outputs (terminalStep serverApplication) registered twoLogins
        (Terminal.start [] ⟨emptyServer, []⟩) = [txt "ana", txt "ana"] ∧
      q.app = ⟨w₂, [connectedUsers w₁, connectedUsers w₂]⟩ ∧
      roster w₁ = [(txt "ana", 1)] ∧ roster w₂ = [(txt "ana", 2)] := by
  obtain ⟨w₁, w₂, hp₁, hp₂, hr₁, hr₂⟩ := login_twice
  have hrest : runSteps (terminalStep serverApplication) comesToRest
      (Terminal.start [] ⟨emptyServer, []⟩) = some (atRest emptyServer [] [] [] []) := rfl
  have hquiet : outputs (terminalStep serverApplication) registered comesToRest
      (Terminal.start [] ⟨emptyServer, []⟩) = [] := rfl
  obtain ⟨hlogin₁, hout₁⟩ := logsIn_run [] [] [] [] hp₁ hr₁
  have hlists₁ : runSteps (terminalStep serverApplication) (lineRun (txt "list clients"))
      (atRest w₁ [] [] [] []) = some (atRest w₁ [connectedUsers w₁] [txt "list clients"]
        [txt "list clients"] [[txt "list", txt "clients"]]) := lists_run w₁ [] [] [] []
  obtain ⟨hlogin₂, hout₂⟩ := logsIn_run [connectedUsers w₁] [txt "list clients"] [txt "list clients"]
    [[txt "list", txt "clients"]] hp₂ hr₂
  obtain ⟨hi, hroster₁⟩ := logsIn_roster (invariant_empty rfl) hp₁ hr₁
  have hroster₂ := (logsIn_roster hi hp₂ hr₂).2
  have hlists₂ := lists_run w₂ [connectedUsers w₁] [txt "list clients"] [txt "list clients"]
    [[txt "list", txt "clients"]]
  rw [hroster₁] at hroster₂
  have hrun := (runSteps_append _ hrest).trans ((runSteps_append _ hlogin₁).trans
    ((runSteps_append _ hlists₁).trans ((runSteps_append _ hlogin₂).trans hlists₂)))
  refine ⟨w₁, w₂, _, hrun, ?_, rfl, hroster₁.trans (by decide), hroster₂.trans (by decide)⟩
  rw [twoLogins, outputs_append _ _ hrest, outputs_append _ _ hlogin₁, outputs_append _ _ hlists₁,
    outputs_append _ _ hlogin₂, hquiet, hout₁, lists_silent, hout₂]
  rfl

end SyncWizard.Properties
