import SyncWizard.Common.Transfer
import SyncWizard.Properties.SenderSockets
import SyncWizard.Server.Effects
import SyncWizard.Server.Outcomes
import SyncWizard.Server.Sessions

/-! Which files the handlers of a session touch. Every session is given the server's whole storage
directory instead of its user's folder in it, so a command stays inside the folder only when the
name in it happens to lead there. -/

namespace SyncWizard.Properties
open Foundation Common Server

def newAccesses (w w' : ServerState) : List Access :=
  w'.files.accesses.drop w.files.accesses.length

def muted (bc : Broadcast) : Broadcast := fun fd p w =>
  match bc fd p w with
  | .ok u w' => .ok u { w' with files := { w'.files with accesses := w.files.accesses } }
  | .error e w' => .error e { w' with files := { w'.files with accesses := w.files.accesses } }

section Handling
variable (h : Host) (bc : Broadcast) (self : SessionId) (me : Identity)

def handle (p : Packet) : ServerExec Unit := do
  let fields ← splitBuffer p.memory
  perform h bc self me p (receiverRoute fields)

theorem receiveAndPerform_eq :
    receiveAndPerform h bc self me = receiveCallback h me >>= handle h bc self me := rfl

end Handling

def InFolder (w : ServerState) (username path : Text) : Prop :=
  PathStep.StrictlyInside (w.files.resolved (syncDir ++ txt "/" ++ username)) (w.files.resolved path)

instance (w : ServerState) (username path : Text) : Decidable (InFolder w username path) :=
  inferInstanceAs (Decidable (PathStep.StrictlyInside _ _))

/-- Listing a directory apart, every path that is accessed on the way from `w` to `w'` lies in the
folder of the user. -/
def StaysIn (username : Text) (w w' : ServerState) : Prop :=
  ∀ a ∈ newAccesses w w', a.kind ≠ .list → InFolder w username a.path

def Completes (h : Host) (self : SessionId) (w : ServerState) (args : Text) (p : Packet) : Prop :=
  p.isLast = true ∧ (w.session self).fileMtx args = some .live ∧
    h.mayDigest (syncDir ++ args ++ temporarySuffix) = true ∧
    ∃ q, FileSystem.Opens h w.files (syncDir ++ args ++ temporarySuffix) q

def RouteInFolder (h : Host) (self : SessionId) (username : Text) (w : ServerState)
    (p : Packet) : Route → Prop
  | .delete args | .adownload args => InFolder w username (syncDir ++ args)
  | .sdownload args checksum => checksum ≠ txt "fail" →
      InFolder w username (syncDir ++ args ++ temporarySuffix) ∧
        (Completes h self w args p → InFolder w username (syncDir ++ args))
  | _ => True

/-! ## The accesses of a program -/

def Logs (S : Access → Prop) (w w' : ServerState) : Prop :=
  ∃ new, w'.files.accesses = w.files.accesses ++ new ∧ ∀ a ∈ new, S a

section Logging
variable {S : Access → Prop} {w w' v : ServerState} {a : Access}

instance : Std.Refl (Logs S) := ⟨fun _ => ⟨[], (List.append_nil _).symm, fun _ h => nomatch h⟩⟩

instance : IsTrans ServerState (Logs S) := ⟨by
  rintro w₁ w₂ w₃ ⟨as, h₁, has⟩ ⟨bs, h₂, hbs⟩
  refine ⟨as ++ bs, by rw [h₂, h₁, List.append_assoc], fun a ha => ?_⟩
  rcases List.mem_append.mp ha with ha | ha
  exacts [has a ha, hbs a ha]⟩

theorem Logs.all (hl : Logs S w w') : ∀ a ∈ newAccesses w w', S a := by
  obtain ⟨new, hnew, hS⟩ := hl
  rw [newAccesses, hnew, List.drop_left]
  exact hS

theorem logs_of_eq {as : List Access} (he : w'.files.accesses = w.files.accesses ++ as)
    (hS : ∀ a ∈ as, S a) : Logs S w w' := ⟨as, he, hS⟩

theorem mem_newAccesses (as : List Access)
    (he : v.files.accesses = w.files.accesses ++ as) (ha : a ∈ as)
    (hl : Logs (fun _ => True) v w') : a ∈ newAccesses w w' := by
  obtain ⟨new, hnew, -⟩ := hl
  rw [newAccesses, hnew, he, List.append_assoc, List.drop_left]
  exact List.mem_append_left _ ha

theorem logs_admits (self : SessionId) : Admits self S (fun _ => True) (Logs S) where
  files _ _ ht := ht.2
  push w _ _ := refl_of (Logs S) w
  lock w _ _ := refl_of (Logs S) w
  stop w := refl_of (Logs S) w

theorem muted_kept (bc : Broadcast) (fd : ℤ) (p : Packet) : Kept (Logs S) (muted bc fd p) := by
  intro w
  unfold muted
  cases bc fd p w <;> exact ⟨[], (List.append_nil _).symm, fun _ h => nomatch h⟩

end Logging

section Routes
variable {h : Host} {bc : Broadcast} {self : SessionId} {me : Identity} {username : Text}
variable {p : Packet} {w : ServerState} {args checksum : Text}

variable (bc) in
theorem perform_logs (route : Route) (w : ServerState) :
    Logs (Reaches me route) w (final (perform h (muted bc) self me p route w)) :=
  (logs_admits self).perform_kept (muted_kept bc) (fun _ ha => ha) (fun _ _ _ _ => trivial) w

theorem staysIn_of_logs {w' : ServerState} {S : Access → Prop} (hl : Logs S w w')
    (hS : ∀ a, S a → a.kind = .list ∨ InFolder w username a.path) : StaysIn username w w' :=
  fun a ha hk => (hS a (hl.all a ha)).resolve_left hk

theorem tested_mem {path : Text} {f : Bool → ServerExec Unit}
    (hf : ∀ found, Kept (Logs fun _ => True) (f found)) :
    ⟨.test, path⟩ ∈ newAccesses w (final ((onFiles (isValidPath h path) >>= f) w)) := by
  have hmem : (⟨.test, path⟩ : Access) ∈ [(⟨.test, path⟩ : Access)] := List.mem_singleton_self _
  cases hstat : h.statError path with
  | some what =>
    have hrun : onFiles (isValidPath h path) w =
        .error (.raised what) { w with files := w.files.record .test path } :=
      onFiles_error (by simp only [isValidPath, hstat])
    rw [run_bind_error hrun]
    exact mem_newAccesses _ rfl hmem (refl_of (Logs _) _)
  | none =>
    have hrun : onFiles (isValidPath h path) w =
        .ok (w.files.lookup path).isSome { w with files := w.files.record .test path } :=
      onFiles_ok (by simp only [isValidPath, hstat])
    rw [run_bind_ok hrun]
    exact mem_newAccesses _ rfl hmem (hf _ _)

theorem delete_iff (hdir : me.directoryPath = syncDir) :
    StaysIn username w (final (perform h (muted bc) self me p (.delete args) w)) ↔
      InFolder w username (syncDir ++ args) := by
  constructor
  · intro hs
    refine hs ⟨.test, syncDir ++ args⟩ ?_ (fun hk => nomatch hk)
    rw [← hdir]
    refine tested_mem fun found => ?_
    split_ifs
    · exact Kept.bind (muted_kept bc _ _) fun _ =>
        Kept.attempt ((logs_admits self).deleteLocked_kept trivial) fun _ => Kept.raise _
    · exact (logs_admits self).answerWith_kept fun _ _ _ => trivial
  · intro hin
    refine staysIn_of_logs (perform_logs bc (.delete args) w) fun a ha => .inr ?_
    rcases ha with rfl | rfl <;> rwa [hdir]

theorem adownload_iff (hdir : me.directoryPath = syncDir) :
    StaysIn username w (final (perform h (muted bc) self me p (.adownload args) w)) ↔
      InFolder w username (syncDir ++ args) := by
  have hanswer (reason : Text) :
      Kept (Logs fun _ => True) (answerWith self (txt "aupload|" ++ args ++ txt "|fail") reason) :=
    (logs_admits self).answerWith_kept fun _ _ _ => trivial
  constructor
  · intro hs
    refine hs ⟨.test, syncDir ++ args⟩ ?_ (fun hk => nomatch hk)
    rw [← hdir]
    refine tested_mem fun found => ?_
    have hsend : Kept (Logs fun _ => True) (sendLocked h self me (txt "aupload|") args
        (answerWith self (txt "aupload|" ++ args ++ txt "|fail")
          (txt "Server could not bufferize file to send!"))) :=
      (logs_admits self).sendLocked_kept trivial (fun _ _ _ => trivial) (hanswer _)
    split_ifs
    exacts [Kept.bind (hanswer _) fun _ => hsend, hsend]
  · intro hin
    refine staysIn_of_logs (perform_logs bc (.adownload args) w) fun a ha => .inr ?_
    rcases ha with rfl | rfl <;> rwa [hdir]

theorem clist_staysIn (hdir : me.directoryPath = syncDir) :
    StaysIn username w (final (perform h (muted bc) self me p (.clist args) w)) := by
  have hn : nul ∉ me.directoryPath := by
    rw [hdir]
    decide
  have hkept : Kept (Logs fun a => a.kind = .list) (clientSentClist h self me p args) := by
    refine Kept.bind (splitPayload_kept p) fun sessionNames => ?_
    refine Kept.bindOf ((logs_admits self).listFiles_kept (fun _ => rfl) _) fun output hy => ?_
    obtain ⟨v, v', hrun⟩ := hy
    rw [listFiles_yields hn hrun]
    refine Kept.bind (Kept.pure ()) fun _ => Kept.forEach fun file _ => ?_
    exact (logs_admits self).answer_kept fun _ _ => trivial
  exact staysIn_of_logs (hkept w) fun a ha => .inl ha

/-! ## Uploads -/

theorem finishUpload_kept : Kept (Logs fun _ => True) (finishUpload h self me args p) := by
  unfold finishUpload
  split_ifs
  · have hchecksum : ([] : Text) ≠ txt "fail" := by decide
    exact (logs_admits self).completeTransfer_kept hchecksum fun _ _ => trivial
  · exact Kept.pure _

theorem appended_mem (hc : checksum ≠ txt "fail") (hb : p.Exact) :
    ⟨.append, me.directoryPath ++ args ++ temporarySuffix⟩ ∈
      newAccesses w (final (clientSentSdownload h self me args p checksum w)) := by
  by_cases ho : ∃ q, FileSystem.Opens h w.files (me.directoryPath ++ args ++ temporarySuffix) q
  · obtain ⟨q, ho⟩ := ho
    obtain ⟨f, hrun, -, hacc, -⟩ := clientSentSdownload_opened self hc hb ho
    rw [hrun]
    exact mem_newAccesses _ hacc (List.mem_singleton_self _) (finishUpload_kept _)
  · obtain ⟨what, hrun⟩ := clientSentSdownload_unopened self p hc (not_exists.mp ho)
    rw [hrun]
    exact mem_newAccesses _ rfl (List.mem_singleton_self _) (refl_of (Logs _) _)

theorem renamed_mem (hc : checksum ≠ txt "fail") (hb : p.Exact) (hdir : me.directoryPath = syncDir)
    (hcompl : Completes h self w args p) :
    ⟨.rename, me.directoryPath ++ args⟩ ∈
      newAccesses w (final (clientSentSdownload h self me args p checksum w)) := by
  obtain ⟨hlast, hlock, hdigest, q, ho⟩ := hcompl
  rw [← hdir] at ho hdigest
  obtain ⟨f, hrun, hcwd, hacc, hnode⟩ := clientSentSdownload_opened self hc hb ho
  obtain ⟨-, hcontent⟩ := ho.content hcwd hnode
  rw [hrun, finishUpload, if_pos hlast,
    completeTransfer_live (w := { w with files := f }) hlock hcontent hdigest]
  let g := f.record .read (me.directoryPath ++ args ++ temporarySuffix)
  let oldPath := me.directoryPath ++ args ++ temporarySuffix
  have hlog := FileSystem.renameReplacing_accesses h g oldPath (me.directoryPath ++ args)
  have hstate : (final (onFiles (renameReplacing h oldPath (me.directoryPath ++ args))
      { w with files := g })).files =
        final (renameReplacing h oldPath (me.directoryPath ++ args) g) := by
    unfold onFiles zoom
    cases renameReplacing h oldPath (me.directoryPath ++ args) g <;> rfl
  refine mem_newAccesses
    (v := { w with files := final (renameReplacing h oldPath (me.directoryPath ++ args) g) })
    [⟨.append, oldPath⟩, ⟨.read, oldPath⟩, ⟨.rename, oldPath⟩, ⟨.rename, me.directoryPath ++ args⟩]
    ?_ (by simp) ?_
  · rw [hlog, show g.accesses = f.accesses ++ [⟨.read, oldPath⟩] from rfl, hacc,
      List.append_assoc, List.append_assoc]
    rfl
  · exact ⟨[], by rw [hstate, List.append_nil], fun _ h => nomatch h⟩

theorem incomplete_logs (hc : checksum ≠ txt "fail") (hb : p.Exact) (hdir : me.directoryPath = syncDir)
    (hcompl : ¬ Completes h self w args p) :
    Logs (fun a => a.path = syncDir ++ args ++ temporarySuffix) w
      (final (clientSentSdownload h self me args p checksum w)) := by
  by_cases ho : ∃ q, FileSystem.Opens h w.files (me.directoryPath ++ args ++ temporarySuffix) q
  · obtain ⟨q, ho⟩ := ho
    obtain ⟨f, hrun, -, hacc, -⟩ := clientSentSdownload_opened self hc hb ho
    have hopen : Logs (fun a => a.path = syncDir ++ args ++ temporarySuffix) w
        { w with files := f } := by
      refine logs_of_eq hacc fun a ha => ?_
      rw [List.mem_singleton.mp ha, hdir]
    refine trans_of (Logs _) hopen ?_
    rw [hrun, finishUpload]
    by_cases hlast : p.isLast = true
    · rw [if_pos hlast]
      cases hlock : (w.session self).fileMtx args with
      | none =>
        obtain ⟨what, hend⟩ := completeTransfer_none h me (w := { w with files := f }) hlock
        rw [hend]
        exact refl_of (Logs _) _
      | some l =>
        cases l with
        | null =>
          rw [completeTransfer_null (w := { w with files := f }) hlock]
          exact refl_of (Logs _) _
        | live =>
          have hdigest : h.mayDigest (me.directoryPath ++ args ++ temporarySuffix) = false := by
            rw [hdir] at ho ⊢
            rw [← Bool.not_eq_true]
            exact fun hd => hcompl ⟨hlast, hlock, hd, q, ho⟩
          obtain ⟨what, hend⟩ := completeTransfer_undigested (w := { w with files := f }) hlock hdigest
          rw [hend]
          refine logs_of_eq rfl fun a ha => ?_
          rw [List.mem_singleton.mp ha, hdir]
    · rw [if_neg hlast]
      exact refl_of (Logs _) _
  · obtain ⟨what, hrun⟩ := clientSentSdownload_unopened self p hc (not_exists.mp ho)
    rw [hrun]
    refine logs_of_eq rfl fun a ha => ?_
    rw [List.mem_singleton.mp ha, hdir]

theorem sdownload_iff (hb : p.Exact) (hdir : me.directoryPath = syncDir) :
    StaysIn username w (final (perform h (muted bc) self me p (.sdownload args checksum) w)) ↔
      RouteInFolder h self username w p (.sdownload args checksum) := by
  change StaysIn username w (final (clientSentSdownload h self me args p checksum w)) ↔ _
  constructor
  · intro hs hc
    refine ⟨?_, fun hcompl => ?_⟩
    · have hin := hs _ (appended_mem hc hb) (fun hk => nomatch hk)
      rwa [hdir] at hin
    · have hin := hs _ (renamed_mem hc hb hdir hcompl) (fun hk => nomatch hk)
      rwa [hdir] at hin
  · intro hr
    by_cases hc : checksum = txt "fail"
    · rw [clientSentSdownload, if_pos hc]
      exact staysIn_of_logs (S := fun _ => False) (refl_of (Logs _) w) fun _ ha => ha.elim
    obtain ⟨htemporary, hlocal⟩ := hr hc
    by_cases hcompl : Completes h self w args p
    · refine staysIn_of_logs (perform_logs bc (.sdownload args checksum) w) fun a ha => .inr ?_
      obtain ⟨-, rfl | rfl | rfl | rfl⟩ := ha <;> rw [hdir]
      exacts [htemporary, htemporary, htemporary, hlocal hcompl]
    · refine staysIn_of_logs (incomplete_logs hc hb hdir hcompl) fun a ha => .inr ?_
      rw [ha]
      exact htemporary

theorem perform_staysIn_iff (hb : p.Exact) (hdir : me.directoryPath = syncDir) (route : Route) :
    StaysIn username w (final (perform h (muted bc) self me p route w)) ↔
      RouteInFolder h self username w p route := by
  have hnothing {route : Route} (hr : ∀ a, Reaches me route a → a.kind = .list) :
      StaysIn username w (final (perform h (muted bc) self me p route w)) :=
    staysIn_of_logs (perform_logs bc route w) fun a ha => .inl (hr a ha)
  cases route with
  | delete args => exact delete_iff hdir
  | adownload args => exact adownload_iff hdir
  | sdownload args checksum => exact sdownload_iff hb hdir
  | clist args => exact iff_of_true (clist_staysIn hdir) trivial
  | slist => exact iff_of_true (hnothing fun _ ha => ha) trivial
  | flist => exact iff_of_true (hnothing fun _ ha => ha) trivial
  | _ => exact iff_of_true (hnothing fun _ ha => ha.elim) trivial

end Routes

/-- A session reads the command within the header of its packet, and what it touches lies in the folder of
its user. -/
structure Confined (h : Host) (bc : Broadcast) (self : SessionId) (me : Identity) (username : Text)
    (w : ServerState) (p : Packet) : Prop where
  scanned : p.Terminated
  stays : StaysIn username w (final (handle h (muted bc) self me p w))

/-- A registered session stays in the folder of its user exactly when the names in the command
lead there, whatever is received. -/
theorem handle_staysIn_iff (h : Host) (bc : Broadcast) (self : SessionId) (fd : ℤ)
    (username machine : Text)
    (owner : UserId) (w : ServerState) {p : Packet} (hb : p.Exact) :
    Confined h bc self (registeredAs fd username machine owner) username w p ↔
      p.Terminated ∧ RouteInFolder h self username w p (receiverRoute p.fields) := by
  have hroute (ht : p.Terminated) : StaysIn username w
      (final (handle h (muted bc) self (registeredAs fd username machine owner) p w)) ↔
        RouteInFolder h self username w p (receiverRoute p.fields) := by
    rw [handle, run_bind_ok (Packet.splitBuffer_terminated ht w)]
    exact perform_staysIn_iff hb rfl _
  constructor
  · exact fun ⟨ht, hs⟩ => ⟨ht, (hroute ht).mp hs⟩
  · exact fun ⟨ht, hr⟩ => ⟨ht, (hroute ht).mpr hr⟩

def request (command : String) : Packet := Packet.ofCommand (txt command)

theorem ana_confined : Confined pageHost.1 (fun _ _ => pure ()) 0
    (registeredAs 4 (txt "ana") (txt "laptop") 0) (txt "ana") (oneDevice 4) (request "delete|/ana/f") := by
  obtain ⟨hterminated, hfields⟩ :=
    (Packet.ofCommand_carries (show Packet.Fits (txt "delete|/ana/f") by decide)).toReads.fields
      (by decide)
  refine (handle_staysIn_iff _ _ _ _ _ _ _ _ (p := request "delete|/ana/f") rfl).mpr ⟨hterminated, ?_⟩
  have hroute : receiverRoute (request "delete|/ana/f").fields = .delete (txt "/ana/f") := by
    rw [request, hfields]
    decide
  rw [hroute]
  show InFolder (oneDevice 4) (txt "ana") (syncDir ++ txt "/ana/f")
  decide

/-- A session of one user looks for a file of another. -/
theorem tests_in_other_folder :
    ¬ ∀ (h : Host) (bc : Broadcast) (self : SessionId) (fd : ℤ) (username machine : Text)
      (owner : UserId) (w : ServerState) (p : Packet), p.Exact → p.Terminated →
        StaysIn username w (final
          (handle h (muted bc) self (registeredAs fd username machine owner) p w)) := by
  intro hall
  have hcarries : Packet.Carries (txt "delete|/bob/notes") (request "delete|/bob/notes") :=
    Packet.ofCommand_carries (by decide)
  obtain ⟨hterminated, hfields⟩ := hcarries.fields (by decide)
  have hs := hall pageHost.1 (fun _ _ => pure ()) 0 4 (txt "ana") (txt "laptop") 0
    (oneDevice 4) (request "delete|/bob/notes") rfl hterminated
  have hroute : receiverRoute (request "delete|/bob/notes").fields = .delete (txt "/bob/notes") := by
    rw [hfields]
    decide
  rw [handle, run_bind_ok (Packet.splitBuffer_terminated hterminated _), hroute] at hs
  exact absurd ((delete_iff rfl).mp hs) (by decide)

end SyncWizard.Properties
