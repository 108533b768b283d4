import SyncWizard.Common.Command

/-! The command field as memory. `strcharray` fills the array byte by byte, `split_buffer` walks over it
with `strchr`; both do what the functions on whole texts say. -/

namespace SyncWizard.Common
open Foundation

variable {σ : Type} {n : ℕ}

def Chars.set (a : Chars n) (i : ℕ) (c : Byte) : Chars n :=
  ⟨a.1.set i c, by
    rw [List.length_set]
    exact a.2⟩

def strcharrayInto (input : Text) : Exec (Chars n) Unit :=
  if sizeLess n < input.length then
    raise (txt "[UTILS] Given string \"" ++ input ++ txt "\" exceeds vector maximum size!")
  else do
    let copiedSize := min input.length (sizeLess n)
    modify fun a => a.overwrite (strncpy input copiedSize)
    forEach (fun i => modify fun a => a.set i nul) (List.range' copiedSize (n - copiedSize))

/-- `strchr(pointer, '|')`: how far the separator is, null if the text ends before one. -/
def strchr : Text → Exec σ (Option ℕ)
  | [] => crash .outOfBounds
  | c :: cs =>
    if c = bar then pure (some 0)
    else if c = nul then pure none
    else do return (← strchr cs).map (· + 1)

def stringAt (memory : Text) : Exec σ Text :=
  if nul ∈ memory then pure (memory.takeWhile (· != nul)) else crash .outOfBounds

def splitLoop : ℕ → Text → Exec σ (List Text)
  | 0, _ => crash .hang
  | rounds + 1, start => do
    match ← strchr start with
    | some distance => do
      let tokens ← splitLoop rounds (start.drop (distance + 1))
      return start.take distance :: tokens
    | none => do
      let last ← stringAt start
      return [last]

def splitWalk (memory : Text) : Exec σ (List Text) := splitLoop (memory.length + 1) memory

/-! ## Filling the array -/

theorem fill_run (a : Chars n) (k : ℕ) : ∀ start, start + k ≤ n → ∃ b : Chars n,
    forEach (fun i => (modify fun a => a.set i nul : Exec (Chars n) PUnit)) (List.range' start k) a =
      .ok () b ∧ b.1 = a.1.take start ++ List.replicate k nul ++ a.1.drop (start + k) := by
  induction k generalizing a with
  | zero =>
    intro start _
    refine ⟨a, rfl, ?_⟩
    rw [List.replicate_zero, List.append_nil, Nat.add_zero, List.take_append_drop]
  | succ k ih =>
    intro start hbound
    obtain ⟨b, hrun, hb⟩ := ih (a.set start nul) (start + 1) (by omega)
    have hlt : start < a.1.length := by
      rw [a.2]
      omega
    refine ⟨b, hrun, hb.trans ?_⟩
    have htake : (a.1.set start nul).take (start + 1) = a.1.take start ++ [nul] := by
      rw [List.take_add_one, List.take_set_of_le (le_refl start), List.getElem?_set_self hlt]
      rfl
    have hdrop : (a.1.set start nul).drop (start + 1 + k) = a.1.drop (start + (k + 1)) := by
      rw [List.drop_set_of_lt (by omega), Nat.add_right_comm, Nat.add_assoc]
    change (a.1.set start nul).take (start + 1) ++ _ ++ (a.1.set start nul).drop _ = _
    rw [htake, hdrop, List.append_assoc (a.1.take start), List.replicate_succ]
    rfl

theorem strcharrayInto_run (hn : 0 < n) (input : Text) (a : Chars n) :
    strcharrayInto input a = match strcharray input n with
      | .error what => .error (.raised what) a
      | .ok bs => .ok () (a.overwrite bs) := by
  by_cases hlong : sizeLess n < input.length
  · rw [strcharrayInto, strcharray, if_pos hlong, if_pos hlong]
    rfl
  rw [strcharrayInto, strcharray, if_neg hlong, if_neg hlong]
  generalize hsize : min input.length (sizeLess n) = size
  have hle : size ≤ n := by
    have := sizeLess_lt hn
    omega
  have hcopied := strncpy_length input size
  obtain ⟨b, hrun, hb⟩ := fill_run (a.overwrite (strncpy input size)) (n - size) size (by omega)
  have hfirst : (a.overwrite (strncpy input size)).1.take size = strncpy input size := by
    change ((strncpy input size ++ _).take n).take size = _
    rw [List.take_take, Nat.min_eq_left hle, List.take_left' hcopied]
  have hrest : (a.overwrite (strncpy input size)).1.drop (size + (n - size)) = [] := by
    apply List.drop_of_length_le
    rw [(a.overwrite _).2]
    omega
  rw [hfirst, hrest, List.append_nil] at hb
  refine (run_bind_ok (run_modify _ _) _).trans (hrun.trans ?_)
  refine congrArg (EStateM.Result.ok ()) (Subtype.ext (hb.trans ?_))
  symm
  apply Chars.overwrite_full
  rw [List.length_append, hcopied, List.length_replicate]
  omega

/-! ## Walking over it -/

theorem strchr_skips {before : Text} (hbar : bar ∉ before) (hnul : nul ∉ before) (rest : Text) (s : σ) :
    strchr (before ++ rest) s =
      (do return (← strchr rest).map (· + before.length) : Exec σ (Option ℕ)) s := by
  induction before with
  | nil =>
    rw [List.nil_append, run_bind]
    cases strchr rest s with
    | ok i s' => simp [run_pure]
    | error e s' => rfl
  | cons c before ih =>
    rw [List.mem_cons, not_or] at hbar hnul
    rw [List.cons_append, strchr, if_neg (Ne.symm hbar.1), if_neg (Ne.symm hnul.1), run_bind,
      ih hbar.2 hnul.2, run_bind, run_bind]
    cases strchr rest s with
    | ok i s' => simp [run_pure, Function.comp_def, Nat.add_assoc]
    | error e s' => rfl

theorem strchr_found {before : Text} (hbar : bar ∉ before) (hnul : nul ∉ before) (rest : Text) (s : σ) :
    strchr (before ++ bar :: rest) s = .ok (some before.length) s := by
  rw [strchr_skips hbar hnul, strchr, if_pos rfl]
  simp [run_bind, run_pure]

theorem strchr_ends {before : Text} (hbar : bar ∉ before) (hnul : nul ∉ before) (rest : Text) (s : σ) :
    strchr (before ++ nul :: rest) s = .ok none s := by
  have hne : nul ≠ bar := by decide
  rw [strchr_skips hbar hnul, strchr, if_neg hne, if_pos rfl]
  rfl

theorem strchr_leaves {memory : Text} (hbar : bar ∉ memory) (hnul : nul ∉ memory) (s : σ) :
    strchr memory s = .error (.crashed .outOfBounds) s := by
  rw [← List.append_nil memory, strchr_skips hbar hnul]
  rfl

theorem memory_cases (memory : Text) : ∃ before, bar ∉ before ∧ nul ∉ before ∧
    (memory = before ∨ (∃ rest, memory = before ++ bar :: rest) ∨
      ∃ rest, memory = before ++ nul :: rest) := by
  induction memory with
  | nil => exact ⟨[], List.not_mem_nil, List.not_mem_nil, .inl rfl⟩
  | cons c memory ih =>
    by_cases hbar : c = bar
    · exact ⟨[], List.not_mem_nil, List.not_mem_nil, .inr (.inl ⟨memory, by rw [hbar]; rfl⟩)⟩
    by_cases hnul : c = nul
    · exact ⟨[], List.not_mem_nil, List.not_mem_nil, .inr (.inr ⟨memory, by rw [hnul]; rfl⟩)⟩
    obtain ⟨before, hb, hn, hcases⟩ := ih
    refine ⟨c :: before, ?_, ?_, ?_⟩
    · rw [List.mem_cons, not_or]
      exact ⟨Ne.symm hbar, hb⟩
    · rw [List.mem_cons, not_or]
      exact ⟨Ne.symm hnul, hn⟩
    · rcases hcases with rfl | ⟨rest, rfl⟩ | ⟨rest, rfl⟩
      exacts [.inl rfl, .inr (.inl ⟨rest, rfl⟩), .inr (.inr ⟨rest, rfl⟩)]

theorem splitBuffer_terminated {text : Text} (hnul : nul ∉ text) (rest : Text) :
    splitBuffer (σ := σ) (text ++ nul :: rest) = pure (text.splitOn bar) := by
  rw [splitBuffer, if_pos (List.mem_append_right _ List.mem_cons_self), takeWhile_ended hnul,
    splitScan_nil]

theorem splitBuffer_bar {before : Text} (hbar : bar ∉ before) (hnul : nul ∉ before) (rest : Text) :
    splitBuffer (σ := σ) (before ++ bar :: rest) =
      (do return before :: (← splitBuffer rest)) := by
  have hmem : nul ∈ before ++ bar :: rest ↔ nul ∈ rest := by
    rw [List.mem_append, List.mem_cons]
    constructor
    · rintro (h | h | h)
      exacts [absurd h hnul, absurd h (by decide), h]
    · exact fun h => .inr (.inr h)
  funext s
  rw [splitBuffer, splitBuffer]
  by_cases hterminated : nul ∈ rest
  · rw [if_pos hterminated, if_pos (hmem.mpr hterminated), takeWhile_before hnul,
      List.takeWhile_cons_of_pos (by decide), splitScan_nil, splitScan_nil,
      List.splitOn_append_cons_self_of_not_mem hbar]
    rfl
  · rw [if_neg hterminated, if_neg (mt hmem.mp hterminated)]
    rfl

theorem splitLoop_eq (rounds : ℕ) : ∀ memory : Text, memory.length < rounds → ∀ s : σ,
    splitLoop rounds memory s = splitBuffer memory s := by
  induction rounds with
  | zero => exact fun memory hm => absurd hm (Nat.not_lt_zero _)
  | succ rounds ih =>
    intro memory hm s
    obtain ⟨before, hbar, hnul, rfl | ⟨rest, rfl⟩ | ⟨rest, rfl⟩⟩ := memory_cases memory
    · rw [splitLoop, run_bind_error (strchr_leaves hbar hnul s), splitBuffer, if_neg hnul]
      rfl
    · have htake : (before ++ bar :: rest).take before.length = before := List.take_left
      have hdrop : (before ++ bar :: rest).drop (before.length + 1) = rest := by
        rw [← List.drop_drop, List.drop_left]
        rfl
      have hshort : rest.length < rounds := by
        rw [List.length_append, List.length_cons] at hm
        omega
      rw [splitLoop, run_bind_ok (strchr_found hbar hnul rest s), splitBuffer_bar hbar hnul]
      dsimp only
      rw [hdrop, htake, run_bind, run_bind, ih rest hshort s]
    · have hlast : stringAt (before ++ nul :: rest) s = .ok before s := by
        rw [stringAt, if_pos (List.mem_append_right _ List.mem_cons_self), takeWhile_ended hnul]
        rfl
      rw [splitLoop, run_bind_ok (strchr_ends hbar hnul rest s), splitBuffer_terminated hnul,
        List.splitOn_eq_singleton hbar]
      exact run_bind_ok hlast _

theorem splitWalk_eq (memory : Text) : splitWalk (σ := σ) memory = splitBuffer memory := by
  funext s
  exact splitLoop_eq (memory.length + 1) memory (Nat.lt_succ_self _) s

end SyncWizard.Common
