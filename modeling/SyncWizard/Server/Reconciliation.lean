import SyncWizard.Foundation.Exchange
import SyncWizard.Server.Commands

/-! The loops of `client_sent_clist_`: the one that reads the server's list, the four that compare the
two lists of names, and the sets of names that come out of them. -/

namespace SyncWizard.Server
open Foundation Common

/-- The rounds of `std::getline` on `|`, `cur` being the token that is under way. At the end of the text
the call fails unless it has read something. -/
def getlineScan : Text → Text → List Text
  | cur, [] => if cur = [] then [] else [cur]
  | cur, c :: cs => if c = bar then cur :: getlineScan [] cs else getlineScan (cur ++ [c]) cs

def closedTokens (tokens : List Text) : List Text :=
  if tokens.getLast? = some [] then tokens.dropLast else tokens

theorem closedTokens_cons (token : Text) {tokens : List Text} (hne : tokens ≠ []) :
    closedTokens (token :: tokens) = token :: closedTokens tokens := by
  unfold closedTokens
  rw [List.getLast?_cons_of_ne_nil hne, List.dropLast_cons_of_ne_nil hne]
  split_ifs <;> rfl

theorem splitScan_ne_nil (cur s : Text) : splitScan cur s ≠ [] := by
  induction s generalizing cur with
  | nil => exact List.cons_ne_nil _ _
  | cons c cs ih =>
    rw [splitScan]
    split_ifs
    · exact List.cons_ne_nil _ _
    · exact ih _

theorem getlineScan_eq (cur s : Text) : getlineScan cur s = closedTokens (splitScan cur s) := by
  induction s generalizing cur with
  | nil =>
    rw [getlineScan, splitScan, closedTokens, List.getLast?_singleton, List.dropLast_singleton]
    exact if_congr Option.some_inj.symm rfl rfl
  | cons c cs ih =>
    rw [getlineScan, splitScan]
    split_ifs
    · rw [ih, closedTokens_cons cur (splitScan_ne_nil [] cs)]
    · exact ih _

theorem getlineSplit_scan (s : Text) : getlineSplit s = getlineScan [] s := by
  rw [getlineScan_eq, splitScan_nil]
  rfl

/-- The loop that moves temporaries: `passed` is in front of the iterator, which an `erase` leaves
where it is. -/
def moveTemporaries : List Text → List Text → List Text → List Text × List Text
  | passed, [], moved => (passed, moved)
  | passed, name :: rest, moved =>
    if isTemporary name then moveTemporaries passed rest (moved ++ [name])
    else moveTemporaries (passed ++ [name]) rest moved

def temporaryName (file : Text) : Text := fileWithoutExtension file ++ temporarySuffix

def collectMissing (theirs theirTemporaries : List Text) : List Text → List Text → List Text
  | [], missing => missing
  | file :: files, missing =>
    if theirs.contains file then collectMissing theirs theirTemporaries files missing
    else if theirTemporaries.contains (temporaryName file) then
      collectMissing theirs theirTemporaries files missing
    else collectMissing theirs theirTemporaries files (missing ++ [file])

structure Difference where
  filesNotInSession : List Text
  filesNotInCurrentServer : List Text
  deriving DecidableEq

def reconcile (currentServerFiles sessionFiles : List Text) : Difference :=
  let server := moveTemporaries [] currentServerFiles []
  let session := moveTemporaries [] sessionFiles []
  { filesNotInSession := collectMissing session.1 session.2 server.1 []
    filesNotInCurrentServer := collectMissing server.1 server.2 session.1 [] }

/-! ## The loops as filters -/

theorem moveTemporaries_eq (names passed moved : List Text) :
    moveTemporaries passed names moved =
      (passed ++ names.filter (fun n => !isTemporary n), moved ++
        names.filter (fun n => isTemporary n)) := by
  induction names generalizing passed moved with
  | nil => simp only [moveTemporaries, List.filter_nil, List.append_nil]
  | cons name names ih =>
    rw [moveTemporaries]
    split_ifs with ht
    · rw [ih, List.filter_cons_of_pos (p := fun n => isTemporary n) ht,
        List.filter_cons_of_neg (by simp [ht]), List.append_assoc, List.singleton_append]
    · rw [ih, List.filter_cons_of_neg (p := fun n => isTemporary n) ht,
        List.filter_cons_of_pos (by simp [ht]), List.append_assoc, List.singleton_append]

theorem collectMissing_eq (theirs theirTemporaries files missing : List Text) :
    collectMissing theirs theirTemporaries files missing =
      missing ++ missingFrom theirs theirTemporaries files := by
  induction files generalizing missing with
  | nil => simp only [collectMissing, missingFrom, List.filter_nil, List.append_nil]
  | cons file files ih =>
    rw [collectMissing, missingFrom]
    split_ifs with hfile htemporary
    · rw [ih, missingFrom, List.filter_cons_of_neg]
      rw [hfile]
      exact Bool.false_ne_true
    · rw [temporaryName] at htemporary
      rw [ih, missingFrom, List.filter_cons_of_neg]
      rw [htemporary, Bool.not_true, Bool.and_false]
      exact Bool.false_ne_true
    · rw [temporaryName, Bool.not_eq_true] at htemporary
      rw [Bool.not_eq_true] at hfile
      rw [ih, missingFrom, List.filter_cons_of_pos, List.append_assoc, List.singleton_append]
      rw [hfile, htemporary]
      rfl

theorem clientSentClist_reconciles (h : Host) (self : SessionId) (me : Identity) (buffer : Packet)
    (args : Text) : clientSentClist h self me buffer args =
      (do
        let sessionNames ← splitPayload buffer
        let listed ← slist h me
        let difference := reconcile (getlineSplit listed) sessionNames
        forEach (sendMissing h self me) difference.filesNotInSession
        forEach (fun file => answer self (txt "sdownload|" ++ file))
          difference.filesNotInCurrentServer) := by
  simp only [reconcile, moveTemporaries_eq, collectMissing_eq, List.nil_append]
  rfl

/-! ## What they collect -/

def temporaries : Set Text := {name | temporarySuffix <:+: name}

theorem temporaryName_mem (file : Text) : temporaryName file ∈ temporaries :=
  (List.suffix_append _ _).isInfix

theorem isTemporary_iff {name : Text} : isTemporary name = true ↔ name ∈ temporaries :=
  decide_eq_true_iff

theorem mem_missingFrom {theirs ours : List Text} {file : Text} :
    file ∈ missingFrom (theirs.filter fun n => !isTemporary n) (theirs.filter fun n => isTemporary n)
      (ours.filter fun n => !isTemporary n) ↔
        file ∈ owed temporaries temporaryName {n | n ∈ ours} {n | n ∈ theirs} := by
  have hmark : isTemporary (temporaryName file) = true := isTemporary_iff.mpr (temporaryName_mem file)
  have hplain : (!isTemporary file) = true ↔ file ∉ temporaries := by
    rw [Bool.not_eq_true', ← Bool.not_eq_true, isTemporary_iff]
  have habsent (names : List Text) (name : Text) : (!names.contains name) = true ↔ name ∉ names := by
    rw [Bool.not_eq_true', ← Bool.not_eq_true, List.contains_iff_mem]
  rw [missingFrom, List.mem_filter, List.mem_filter, Bool.and_eq_true, habsent, habsent,
    List.mem_filter, List.mem_filter, ← temporaryName, hmark, hplain]
  constructor
  · rintro ⟨⟨hours, hfile⟩, htheirs, hmarked⟩
    exact ⟨hours, hfile, fun hm => htheirs ⟨hm, hfile⟩, fun hm => hmarked ⟨hm, rfl⟩⟩
  · rintro ⟨hours, hfile, htheirs, hmarked⟩
    exact ⟨⟨hours, hfile⟩, fun hm => htheirs hm.1, fun hm => hmarked hm.1⟩

section Names
variable {server session : List Text} {file : Text}

theorem mem_filesNotInSession : file ∈ (reconcile server session).filesNotInSession ↔
    file ∈ owed temporaries temporaryName {n | n ∈ server} {n | n ∈ session} := by
  rw [← mem_missingFrom]
  simp only [reconcile, moveTemporaries_eq, collectMissing_eq, List.nil_append]

theorem mem_filesNotInCurrentServer : file ∈ (reconcile server session).filesNotInCurrentServer ↔
    file ∈ owed temporaries temporaryName {n | n ∈ session} {n | n ∈ server} := by
  rw [← mem_missingFrom]
  simp only [reconcile, moveTemporaries_eq, collectMissing_eq, List.nil_append]

end Names

end SyncWizard.Server
