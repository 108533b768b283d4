import SyncWizard.Server.Reconciliation

/-! The two readers of lists of names in `client_sent_clist_`. The list of no names is the text that only
one of them takes for it. -/

namespace SyncWizard.Properties
open Foundation Common Server

structure Joinable (name : Text) : Prop where
  ne : name ≠ []
  bar : bar ∉ name
  nul : nul ∉ name

/-- The session's list is a C string in the payload, the server's own is at hand as a `std::string`. -/
structure ReadersAgree (names : List Text) : Prop where
  session : ∀ (p : Packet) (rest : Text) (w : ServerState),
    p.payload = some (joinFields names ++ nul :: rest) → splitPayload p w = .ok names w
  server : getlineSplit (joinFields names) = names

section Lists
variable {names : List Text}

theorem joinFields_noNul (hnames : ∀ n ∈ names, nul ∉ n) : nul ∉ joinFields names := by
  induction names with
  | nil => decide
  | cons name names ih =>
    obtain ⟨hname, hrest⟩ := List.forall_mem_cons.mp hnames
    cases names with
    | nil => simpa [joinFields] using hname
    | cons next names =>
      have htail := ih hrest
      rw [joinFields] at htail ⊢
      rw [List.intercalate_cons_cons, List.append_assoc, List.mem_append, List.mem_append, not_or,
        not_or]
      exact ⟨hname, by decide, htail⟩

theorem splitPayload_joined (hnames : ∀ n ∈ names, Joinable n) {p : Packet} {rest : Text}
    (hp : p.payload = some (joinFields names ++ nul :: rest)) (w : ServerState) :
    splitPayload p w = .ok (splitScan [] (joinFields names)) w := by
  have hnul : nul ∉ joinFields names := joinFields_noNul fun n hn => (hnames n hn).nul
  have hend : nul ∈ joinFields names ++ nul :: rest := List.mem_append_right _ List.mem_cons_self
  have htext : (joinFields names ++ nul :: rest).takeWhile (· != nul) = joinFields names := by
    rw [List.takeWhile_append, takeWhile_ne_nul hnul, if_pos rfl,
      List.takeWhile_cons_of_neg (by simp), List.append_nil]
  rw [splitPayload, hp]
  simp only [splitBuffer, if_pos hend, htext]
  rfl

theorem readers_read (hnames : ∀ n ∈ names, Joinable n) (hne : names ≠ []) : ReadersAgree names := by
  have hscan : splitScan [] (joinFields names) = names :=
    splitScan_join (fun n hn => (hnames n hn).bar) hne
  constructor
  · intro p rest w hp
    rw [splitPayload_joined hnames hp, hscan]
  · have hlast : names.getLast? ≠ some [] := fun hlast =>
      (hnames [] (List.mem_of_getLast? hlast)).ne rfl
    rw [getlineSplit_scan, getlineScan_eq, hscan, closedTokens, if_neg hlast]

def noNames : Packet := { Packet.init with payload := some [nul] }

theorem noNames_read (w : ServerState) : splitPayload noNames w = .ok [[]] w := by
  have hpayload : noNames.payload = some (joinFields [] ++ nul :: []) := rfl
  exact splitPayload_joined (fun n hn => absurd hn List.not_mem_nil) hpayload w

theorem nameless_requested {server : List Text} (hname : [] ∉ server)
    (htemporary : temporarySuffix ∉ server) :
    [] ∈ (reconcile server [[]]).filesNotInCurrentServer :=
  mem_filesNotInCurrentServer.mpr ⟨List.mem_singleton_self _,
    fun hmem => absurd (isTemporary_iff.mpr hmem) (by decide), hname, htemporary⟩

end Lists

def listlessServer : ServerState :=
  .init ⟨3, 0, fun _ => [], fun _ => [], fun _ => true⟩ ⟨[], ∅, []⟩

theorem not_agree_nil : ¬ ReadersAgree [] := by
  intro ha
  have hread := ha.session noNames [] listlessServer rfl
  rw [noNames_read] at hread
  cases hread

theorem readers_agree_iff {names : List Text} (hnames : ∀ n ∈ names, Joinable n) :
    ReadersAgree names ↔ names ≠ [] := by
  constructor
  · rintro ha rfl
    exact not_agree_nil ha
  · exact readers_read hnames

theorem memos_agree : ReadersAgree [txt "memo.txt", txt "todo"] :=
  (readers_agree_iff (List.forall_mem_cons.mpr ⟨⟨by decide, by decide, by decide⟩,
    List.forall_mem_singleton.mpr ⟨by decide, by decide, by decide⟩⟩)).mpr (List.cons_ne_nil _ _)

theorem no_names_misread : getlineSplit (joinFields []) = [] ∧ ¬ ReadersAgree [] :=
  ⟨by decide, not_agree_nil⟩

end SyncWizard.Properties
