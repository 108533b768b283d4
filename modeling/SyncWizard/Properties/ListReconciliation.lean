import SyncWizard.Server.Reconciliation

/-! The two vectors of `client_sent_clist_`. They are what each side owes the other, and one exchange
settles it; but a transfer is looked for under a name that only a file without an extension gets. -/

namespace SyncWizard.Properties
open Foundation Common Server

/-- The vectors `d` for a server and a session that list these names, in any order and any number of
times. -/
structure Reconciled (server session : List Text) (d : Difference) : Prop where
  disjoint : ∀ f ∈ d.filesNotInSession, f ∉ d.filesNotInCurrentServer
  plain : ∀ f, f ∈ d.filesNotInSession ∨ f ∈ d.filesNotInCurrentServer → ¬ temporarySuffix <:+: f
  notInSession : ∀ f, f ∈ d.filesNotInSession ↔
    f ∈ server ∧ f ∉ session ∧ ¬ temporarySuffix <:+: f ∧ temporaryName f ∉ session
  notInServer : ∀ f, f ∈ d.filesNotInCurrentServer ↔
    f ∈ session ∧ f ∉ server ∧ ¬ temporarySuffix <:+: f ∧ temporaryName f ∉ server
  converges : (∀ f ∈ server, ¬ temporarySuffix <:+: f) → (∀ f ∈ session, ¬ temporarySuffix <:+: f) →
    ∀ server' session' : List Text,
      (∀ f, f ∈ server' ↔ f ∈ server ∨ f ∈ d.filesNotInCurrentServer) →
      (∀ f, f ∈ session' ↔ f ∈ session ∨ f ∈ d.filesNotInSession) →
      (∀ f, f ∈ server' ↔ f ∈ session') ∧ reconcile server' session' = ⟨[], []⟩

section Exchange
variable {server session server' session' : List Text}

theorem disjoint_temporaries {names : List Text} (hn : ∀ f ∈ names, ¬ temporarySuffix <:+: f) :
    Disjoint {f | f ∈ names} temporaries := Set.disjoint_left.mpr hn

theorem reconcile_nil
    (howed : owed temporaries temporaryName {f | f ∈ server} {f | f ∈ session} = ∅)
    (howed' : owed temporaries temporaryName {f | f ∈ session} {f | f ∈ server} = ∅) :
    reconcile server session = ⟨[], []⟩ := by
  have hsession : (reconcile server session).filesNotInSession = [] := by
    apply List.eq_nil_iff_forall_not_mem.mpr
    intro f hf
    have hmem := mem_filesNotInSession.mp hf
    rw [howed] at hmem
    exact hmem
  have hserver : (reconcile server session).filesNotInCurrentServer = [] := by
    apply List.eq_nil_iff_forall_not_mem.mpr
    intro f hf
    have hmem := mem_filesNotInCurrentServer.mp hf
    rw [howed'] at hmem
    exact hmem
  exact (Difference.mk.injEq _ _ _ _).mpr ⟨hsession, hserver⟩

theorem exchanged (hserver : ∀ f ∈ server, ¬ temporarySuffix <:+: f)
    (hsession : ∀ f ∈ session, ¬ temporarySuffix <:+: f)
    (hadd : ∀ f, f ∈ server' ↔ f ∈ server ∨ f ∈ (reconcile server session).filesNotInCurrentServer)
    (hadd' : ∀ f, f ∈ session' ↔ f ∈ session ∨ f ∈ (reconcile server session).filesNotInSession) :
    (∀ f, f ∈ server' ↔ f ∈ session') ∧ reconcile server' session' = ⟨[], []⟩ := by
  have hs := disjoint_temporaries hserver
  have hs' := disjoint_temporaries hsession
  have hset : {f | f ∈ server'} = {f | f ∈ server} ∪
      owed temporaries temporaryName {f | f ∈ session} {f | f ∈ server} := by
    apply Set.ext
    intro f
    rw [Set.mem_ofPred_eq, hadd, mem_filesNotInCurrentServer]
    rfl
  have hset' : {f | f ∈ session'} = {f | f ∈ session} ∪
      owed temporaries temporaryName {f | f ∈ server} {f | f ∈ session} := by
    apply Set.ext
    intro f
    rw [Set.mem_ofPred_eq, hadd', mem_filesNotInSession]
    rfl
  obtain ⟨hall, hall'⟩ := exchange_union hs hs' temporaryName_mem
  refine ⟨fun f => ?_, reconcile_nil ?_ ?_⟩
  · have hsame : {f | f ∈ server'} = {f | f ∈ session'} := by rw [hset, hset', hall, hall']
    exact Set.ext_iff.mp hsame f
  · rw [hset, hset', exchange_settles hs hs' temporaryName_mem]
  · rw [hset, hset', exchange_settles hs' hs temporaryName_mem]

end Exchange

/-- Whatever the two sides list, the vectors are the exact difference, and one exchange settles it. -/
theorem lists_reconciled (server session : List Text) :
    Reconciled server session (reconcile server session) where
  disjoint f hf hf' := Set.disjoint_left.mp owed_disjoint (mem_filesNotInSession.mp hf)
    (mem_filesNotInCurrentServer.mp hf')
  plain f hf := by
    rcases hf with hf | hf
    · exact (mem_filesNotInSession.mp hf).2.1
    · exact (mem_filesNotInCurrentServer.mp hf).2.1
  notInSession f := by
    rw [mem_filesNotInSession]
    exact and_congr_right fun _ => and_left_comm
  notInServer f := by
    rw [mem_filesNotInCurrentServer]
    exact and_congr_right fun _ => and_left_comm
  converges hserver hsession _ _ := exchanged hserver hsession

/-! ## Transfers in progress -/

/-- A file of one side is left out exactly if the other side has the temporary that its receiver
writes to. -/
structure SkipsStarted (server session : List Text) (f : Text) : Prop where
  toSession : f ∈ server → f ∉ session →
    (f ∉ (reconcile server session).filesNotInSession ↔ f ++ temporarySuffix ∈ session)
  toServer : f ∈ session → f ∉ server →
    (f ∉ (reconcile server session).filesNotInCurrentServer ↔ f ++ temporarySuffix ∈ server)

def lackingSide (server session : List Text) (f : Text) : List Text :=
  if f ∈ server then session else server

section Started
variable {server session : List Text} {f : Text}

theorem skipped_iff (hf : ¬ temporarySuffix <:+: f) {ours theirs : List Text} (hours : f ∈ ours)
    (htheirs : f ∉ theirs) :
    f ∉ owed temporaries temporaryName {n | n ∈ ours} {n | n ∈ theirs} ↔ temporaryName f ∈ theirs := by
  constructor
  · intro hnot
    by_contra hname
    exact hnot ⟨hours, hf, htheirs, hname⟩
  · exact fun hname hmem => hmem.2.2.2 hname

theorem fileWithoutExtension_length (hdot : 46 ∈ f) : (fileWithoutExtension f).length < f.length := by
  have hne : f.reverse.dropWhile (· != 46) ≠ [] := by
    rw [Ne, List.dropWhile_eq_nil_iff, not_forall]
    refine ⟨46, fun hall => ?_⟩
    exact absurd (hall (List.mem_reverse.mpr hdot)) (by decide)
  have hshort := List.length_dropWhile_le (· != 46) f.reverse
  have hpos := List.length_pos_iff.mpr hne
  rw [fileWithoutExtension, if_pos hdot, List.length_reverse, List.length_tail]
  rw [List.length_reverse] at hshort
  omega

theorem temporaryName_eq_iff : temporaryName f = f ++ temporarySuffix ↔ 46 ∉ f := by
  constructor
  · intro he hdot
    have hlen := congrArg List.length (List.append_cancel_right he)
    exact absurd hlen (fileWithoutExtension_length hdot).ne
  · intro hdot
    rw [temporaryName, fileWithoutExtension, if_neg hdot]

end Started

/-- The two names of the temporary have to be listed together or not at all. -/
theorem started_iff {server session : List Text} {f : Text} (hf : ¬ temporarySuffix <:+: f)
    (hone : f ∈ server ∧ f ∉ session ∨ f ∈ session ∧ f ∉ server) :
    SkipsStarted server session f ↔
      (temporaryName f ∈ lackingSide server session f ↔
        f ++ temporarySuffix ∈ lackingSide server session f) := by
  rcases hone with ⟨hserver, hsession⟩ | ⟨hsession, hserver⟩
  · have hskip := skipped_iff hf hserver hsession
    rw [← mem_filesNotInSession] at hskip
    rw [lackingSide, if_pos hserver]
    constructor
    · exact fun hs => hskip.symm.trans (hs.toSession hserver hsession)
    · exact fun hnames => ⟨fun _ _ => hskip.trans hnames, fun hs => absurd hs hsession⟩
  · have hskip := skipped_iff hf hsession hserver
    rw [← mem_filesNotInCurrentServer] at hskip
    rw [lackingSide, if_neg hserver]
    constructor
    · exact fun hs => hskip.symm.trans (hs.toServer hsession hserver)
    · exact fun hnames => ⟨fun hs => absurd hs hserver, fun _ _ => hskip.trans hnames⟩

theorem textFile_restarted :
    ¬ ∀ (server session : List Text) (f : Text), ¬ temporarySuffix <:+: f →
      (f ∈ server ∧ f ∉ session ∨ f ∈ session ∧ f ∉ server) → SkipsStarted server session f := by
  intro hall
  have hskips := hall [txt "a.txt"] [txt "a.txt.swizdownload"] (txt "a.txt") (by decide) (by decide)
  exact absurd (hskips.toSession (by decide) (by decide)) (by decide)

theorem plainFile_skipped : SkipsStarted [txt "notes"] [txt "notes.swizdownload"] (txt "notes") :=
  (started_iff (by decide) (by decide)).mpr (by decide)

theorem started_always_iff {f : Text} (hf : ¬ temporarySuffix <:+: f) :
    (∀ server session : List Text, (f ∈ server ∧ f ∉ session ∨ f ∈ session ∧ f ∉ server) →
      (temporaryName f ∈ lackingSide server session f ↔
        f ++ temporarySuffix ∈ lackingSide server session f)) ↔ 46 ∉ f := by
  rw [← temporaryName_eq_iff]
  constructor
  · intro hall
    have hother : f ∉ [f ++ temporarySuffix] := by
      rw [List.mem_singleton]
      intro he
      exact hf (he ▸ (List.suffix_append f temporarySuffix).isInfix)
    have hnames := hall [f] [f ++ temporarySuffix] (.inl ⟨List.mem_singleton_self f, hother⟩)
    rw [lackingSide, if_pos (List.mem_singleton_self f)] at hnames
    exact List.mem_singleton.mp (hnames.mpr (List.mem_singleton_self _))
  · intro he server session _
    rw [he]

end SyncWizard.Properties
