import SyncWizard.Client.Login
import SyncWizard.Common.Transfer

/-! What a client makes of the reply to its login. The fields of the reply are taken by their number,
and not counted before. -/

namespace SyncWizard.Properties
open Foundation Common Client

/-- The reply approves of the session `n`; whatever follows the number is not looked at. -/
def Grants (q : Packet) (n : ℤ) : Prop :=
  ∃ number rest, q.fields = txt "login" :: txt "ok" :: number :: rest ∧ stoi number = some n

def GrantsOnly (q : Packet) (n : ℤ) : Prop :=
  ∃ number, q.fields = [txt "login", txt "ok", number] ∧ stoi number = some n

/-- The number that was granted is returned, and if there is none an exception is raised. No field is
read that is not there. -/
def Handles {σ : Type} (granted : ℤ → Prop) (r : EStateM.Result (Fault Text Crash) σ ℤ) : Prop :=
  (∃ n s, granted n ∧ r = .ok n s) ∨ (∀ n, ¬ granted n) ∧ ∃ what s, r = .error (.raised what) s

section Replies
variable {σ : Type} {q : Packet} {granted : ℤ → Prop} {s : σ}

theorem handles_ok {n : ℤ} : Handles granted (.ok n s : EStateM.Result (Fault Text Crash) σ ℤ) ↔
    granted n := by
  constructor
  · rintro (⟨_, _, hn, hr⟩ | ⟨-, _, _, hr⟩)
    · cases hr
      exact hn
    · cases hr
  · exact fun hn => .inl ⟨n, s, hn, rfl⟩

theorem handles_raised {what : Text} :
    Handles granted (.error (.raised what) s : EStateM.Result (Fault Text Crash) σ ℤ) ↔
      ∀ n, ¬ granted n := by
  constructor
  · rintro (⟨_, _, -, hr⟩ | ⟨hno, -⟩)
    · cases hr
    · exact hno
  · exact fun hno => .inr ⟨hno, what, s, rfl⟩

theorem not_handles_crashed {c : Crash} :
    ¬ Handles granted (.error (.crashed c) s : EStateM.Result (Fault Text Crash) σ ℤ) := by
  rintro (⟨_, _, -, hr⟩ | ⟨-, _, _, hr⟩) <;> cases hr

theorem handles_attempt {p : Exec σ ℤ} {f : Text → Text} :
    Handles granted (attempt p (fun what => raise (f what)) s) ↔ Handles granted (p s) := by
  cases hr : p s with
  | ok n s' => rw [run_attempt_ok hr]
  | error e s' =>
    cases e with
    | raised what =>
      rw [run_attempt_raised hr, run_raise, handles_raised, handles_raised]
    | crashed c =>
      rw [run_attempt_crashed hr]

theorem fieldAt_some {fields : List Text} {i : ℕ} {field : Text} (hf : fields[i]? = some field) :
    fieldAt fields i s = .ok field s := by
  rw [fieldAt, hf]
  rfl

theorem fieldAt_none {fields : List Text} {i : ℕ} (hf : fields[i]? = none) :
    fieldAt fields i s = .error (.crashed .outOfBounds) s := by
  rw [fieldAt, hf]
  rfl

theorem readConfirmation_short (ht : q.Terminated) (hshort : q.fields.length < 2) :
    readConfirmation q s = .error (.crashed .outOfBounds) s := by
  rw [readConfirmation, run_bind_ok (Packet.splitBuffer_terminated ht s)]
  match hfields : q.fields with
  | [] => exact run_bind_error (fieldAt_none rfl) _
  | [command] => exact (run_bind_ok (fieldAt_some rfl) _).trans (run_bind_error (fieldAt_none rfl) _)
  | _ :: _ :: _ =>
    rw [hfields, List.length_cons, List.length_cons] at hshort
    omega

theorem readConfirmation_bare (ht : q.Terminated) (hfields : q.fields = [txt "login", txt "ok"]) :
    readConfirmation q s = .error (.crashed .outOfBounds) s := by
  rw [readConfirmation, run_bind_ok (Packet.splitBuffer_terminated ht s), hfields,
    run_bind_ok (fieldAt_some rfl), run_bind_ok (fieldAt_some rfl), if_pos rfl, if_pos rfl]
  exact run_bind_error (fieldAt_none rfl) _

theorem readConfirmation_numbered {number : Text} {rest : List Text} (ht : q.Terminated)
    (hfields : q.fields = txt "login" :: txt "ok" :: number :: rest) :
    readConfirmation q s = match stoi number with
      | some n => .ok n s
      | none => .error (.raised (txt "stoi")) s := by
  rw [readConfirmation, run_bind_ok (Packet.splitBuffer_terminated ht s), hfields,
    run_bind_ok (fieldAt_some rfl), run_bind_ok (fieldAt_some rfl), if_pos rfl, if_pos rfl,
    run_bind_ok (fieldAt_some rfl)]
  cases stoi number with
  | some n => rfl
  | none => rfl

theorem readConfirmation_refused (ht : q.Terminated) (hq : q.Exact) {command status : Text}
    {rest : List Text} (hfields : q.fields = command :: status :: rest)
    (hno : ¬ (command = txt "login" ∧ status = txt "ok")) :
    ∃ what, readConfirmation q s = .error (.raised what) s := by
  rw [readConfirmation, run_bind_ok (Packet.splitBuffer_terminated ht s), hfields,
    run_bind_ok (fieldAt_some rfl), run_bind_ok (fieldAt_some rfl)]
  by_cases hlogin : command = txt "login"
  · rw [if_pos hlogin, if_neg fun hok => hno ⟨hlogin, hok⟩]
    by_cases hfail : status = txt "fail"
    · rw [if_pos hfail]
      rw [Packet.Exact, Packet.bytes] at hq
      cases hpayload : q.payload with
      | none =>
        rw [hpayload] at hq
        have hread : charraystr (σ := σ) none q.payloadSize.toNat s = .ok [] s := by
          rw [← hq]
          rfl
        exact ⟨_, run_bind_ok hread _⟩
      | some bytes =>
        rw [hpayload, Option.getD_some] at hq
        have hread : charraystr (some bytes) q.payloadSize.toNat s =
            .ok (bytes.take q.payloadSize.toNat) s := by
          rw [charraystr, if_neg (Nat.not_lt.mpr hq.ge)]
          rfl
        exact ⟨_, run_bind_ok hread _⟩
    · rw [if_neg hfail]
      exact ⟨_, rfl⟩
  · rw [if_neg hlogin]
    exact ⟨_, rfl⟩

theorem grants_numbered {number : Text} {rest : List Text} {n : ℤ}
    (hfields : q.fields = txt "login" :: txt "ok" :: number :: rest) :
    Grants q n ↔ stoi number = some n := by
  constructor
  · rintro ⟨number', rest', hfields', hn⟩
    rw [hfields] at hfields'
    cases hfields'
    exact hn
  · exact fun hn => ⟨number, rest, hfields, hn⟩

theorem grantsOnly_iff {n : ℤ} : GrantsOnly q n ↔ Grants q n ∧ q.fields.length = 3 := by
  constructor
  · rintro ⟨number, hfields, hn⟩
    exact ⟨⟨number, [], hfields, hn⟩, by rw [hfields]; rfl⟩
  · rintro ⟨⟨number, rest, hfields, hn⟩, hlength⟩
    rw [hfields] at hlength
    obtain rfl := List.length_eq_zero_iff.mp (by simpa using hlength : rest.length = 0)
    exact ⟨number, hfields, hn⟩

def Approving (q : Packet) : Prop := q.fields.take 2 = [txt "login", txt "ok"]

theorem grants_approving {n : ℤ} (hg : Grants q n) : Approving q := by
  obtain ⟨number, rest, hfields, -⟩ := hg
  rw [Approving, hfields]
  rfl

theorem approving_iff {command status : Text} {rest : List Text}
    (hfields : q.fields = command :: status :: rest) :
    Approving q ↔ command = txt "login" ∧ status = txt "ok" := by
  rw [Approving, hfields]
  constructor
  · intro htake
    obtain ⟨hcommand, hrest⟩ := List.cons.inj htake
    exact ⟨hcommand, (List.cons.inj hrest).1⟩
  · rintro ⟨rfl, rfl⟩
    rfl

theorem readConfirmation_handles_iff (ht : q.Terminated) (hq : q.Exact)
    (hgranted : ∀ n, granted n → Grants q n) :
    Handles granted (readConfirmation q s) ↔ 2 ≤ q.fields.length ∧
      (Approving q → 3 ≤ q.fields.length ∧ ∀ n, Grants q n → granted n) := by
  match hfields : q.fields with
  | [] | [_] =>
    have hshort : q.fields.length < 2 := by simp [hfields]
    rw [readConfirmation_short ht hshort, ← hfields]
    exact iff_of_false not_handles_crashed fun hle => absurd hle.1 (Nat.not_le.mpr hshort)
  | command :: status :: rest =>
    by_cases hyes : command = txt "login" ∧ status = txt "ok"
    · obtain ⟨rfl, rfl⟩ := hyes
      have happroving : Approving q := (approving_iff hfields).mpr ⟨rfl, rfl⟩
      cases rest with
      | nil =>
        rw [readConfirmation_bare ht hfields]
        exact iff_of_false not_handles_crashed fun hle =>
          absurd (hle.2 happroving).1 (by decide : ¬ 3 ≤ 2)
      | cons number rest =>
        have hlong : 3 ≤ (txt "login" :: txt "ok" :: number :: rest).length := Nat.le_add_left _ _
        rw [readConfirmation_numbered ht hfields]
        cases hnumber : stoi number with
        | some n =>
          rw [handles_ok]
          constructor
          · intro hn
            refine ⟨Nat.le_of_succ_le hlong, fun _ => ⟨hlong, fun k hk => ?_⟩⟩
            rw [grants_numbered hfields, hnumber] at hk
            cases hk
            exact hn
          · exact fun hle => (hle.2 happroving).2 n ((grants_numbered hfields).mpr hnumber)
        | none =>
          have hno (n : ℤ) : ¬ Grants q n := by
            rw [grants_numbered hfields, hnumber]
            exact Option.some_ne_none n ∘ Eq.symm
          rw [handles_raised]
          exact iff_of_true (fun n hn => hno n (hgranted n hn))
            ⟨Nat.le_of_succ_le hlong, fun _ => ⟨hlong, fun n hn => absurd hn (hno n)⟩⟩
    · obtain ⟨what, hraises⟩ := readConfirmation_refused (s := s) ht hq hfields hyes
      have hno : ¬ Approving q := mt (approving_iff hfields).mp hyes
      rw [hraises, handles_raised]
      refine iff_of_true (fun n hn => hno (grants_approving (hgranted n hn)))
        ⟨?_, fun hy => absurd hy hno⟩
      exact Nat.le_add_left _ _

end Replies

/-! ## The login -/

section Login
variable {h : Host} {fuel : ℕ} {username machine : Text} {m m₁ m₂ : ConnectionManager} {q : Packet}

theorem login_handles_iff {granted : ℤ → Prop}
    (hs : sendLogin h fuel username machine m = .ok () m₁)
    (hr : receivePacket h m₁.sockfd m₁ = .ok q m₂) :
    Handles granted (login h fuel username machine m) ↔ Handles granted (readConfirmation q m₂) := by
  have hreceive : receiveConfirmation h m₁ = readConfirmation q m₂ := by
    rw [receiveConfirmation, run_bind_ok (run_get m₁), run_bind_ok hr]
  rw [login, run_bind_ok (run_attempt_ok hs _), handles_attempt, hreceive]

theorem strict_iff : (3 ≤ q.fields.length ∧ ∀ n, Grants q n → GrantsOnly q n) ↔
    q.fields.length = 3 ∨ 3 < q.fields.length ∧ ∀ n, ¬ Grants q n := by
  constructor
  · rintro ⟨hle, honly⟩
    rcases hle.eq_or_lt with heq | hlt
    · exact .inl heq.symm
    · exact .inr ⟨hlt, fun n hn => hlt.ne' (grantsOnly_iff.mp (honly n hn)).2⟩
  · rintro (heq | ⟨hlt, hno⟩)
    · exact ⟨heq.ge, fun n hn => grantsOnly_iff.mpr ⟨hn, heq⟩⟩
    · exact ⟨hlt.le, fun n hn => absurd hn (hno n)⟩

/-- A reply is handled if it has at least two fields, and a third one where it approves of a session. Where
nothing may follow the number it must have no fourth, or no number either. -/
theorem reply_handled_iff (hs : sendLogin h fuel username machine m = .ok () m₁)
    (hr : receivePacket h m₁.sockfd m₁ = .ok q m₂) (ht : q.Terminated) :
    (Handles (Grants q) (login h fuel username machine m) ↔
      2 ≤ q.fields.length ∧ (Approving q → 3 ≤ q.fields.length)) ∧
    (Handles (GrantsOnly q) (login h fuel username machine m) ↔
      2 ≤ q.fields.length ∧
        (Approving q → q.fields.length = 3 ∨ 3 < q.fields.length ∧ ∀ n, ¬ Grants q n)) := by
  have hq := receivePacket_exact hr
  rw [login_handles_iff hs hr, login_handles_iff hs hr,
    readConfirmation_handles_iff ht hq fun n hn => hn,
    readConfirmation_handles_iff ht hq fun n hn => (grantsOnly_iff.mp hn).1, strict_iff]
  exact ⟨and_congr_right' (imp_congr_right fun _ => and_iff_left fun n hn => hn), Iff.rfl⟩

end Login

def replying (reply : Text) : ConnectionManager :=
  ⟨4, 0, fun _ => headerBytes (Packet.ofCommand reply).toHeader, fun _ => [], fun _ => true⟩

theorem login_exchanged (reply : Text) : ∃ m₁ m₂,
    sendLogin pageHost.1 2 (txt "ana") (txt "laptop") (replying reply) = .ok () m₁ ∧
      receivePacket pageHost.1 m₁.sockfd m₁ = .ok (Packet.ofCommand reply) m₂ := by
  let command := txt "login|" ++ txt "ana" ++ txt "|" ++ txt "laptop"
  let m₁ := (replying reply).tick.tick.put 4 (headerBytes (Packet.ofCommand command).toHeader)
  have hset := Packet.setCommand_fits (p := Packet.init) (s := command) (by decide) (replying reply)
  have hsend : sendPacket pageHost.1 2 (Packet.ofCommand command) 4 (replying reply) = .ok () m₁ :=
    sendPacket_atOnce rfl rfl rfl 0
  have hreceive : receivePacket pageHost.1 4 m₁ = .ok (Packet.ofCommand reply)
      (m₁.tick.tick.take 4 headerSize) := receivePacket_atOnce rfl rfl rfl rfl
  refine ⟨m₁, _, ?_, hreceive⟩
  rw [sendLogin, run_bind_ok hset, run_bind_ok (run_get _)]
  exact hsend

theorem approval_handled : ∃ m, Handles (GrantsOnly (Packet.ofCommand (txt "login|ok|1")))
    (login pageHost.1 2 (txt "ana") (txt "laptop") m) := by
  obtain ⟨m₁, m₂, hs, hr⟩ := login_exchanged (txt "login|ok|1")
  obtain ⟨ht, hfields⟩ := (Packet.ofCommand_carries (by decide)).toReads.fields
    (show nul ∉ txt "login|ok|1" by decide)
  obtain ⟨-, hstrict⟩ := reply_handled_iff hs hr ht
  rw [hfields] at hstrict
  exact ⟨_, hstrict.mpr ⟨by decide, fun _ => .inl (by decide)⟩⟩

theorem approval_without_number : ¬ ∀ (h : Host) (fuel : ℕ) (username machine : Text)
    (m m₁ m₂ : ConnectionManager) (q : Packet), sendLogin h fuel username machine m = .ok () m₁ →
      receivePacket h m₁.sockfd m₁ = .ok q m₂ → q.Terminated →
        Handles (Grants q) (login h fuel username machine m) := by
  intro hall
  obtain ⟨m₁, m₂, hs, hr⟩ := login_exchanged (txt "login|ok")
  obtain ⟨ht, hfields⟩ := (Packet.ofCommand_carries (by decide)).toReads.fields
    (show nul ∉ txt "login|ok" by decide)
  have hhandles := hall _ _ _ _ _ m₁ m₂ _ hs hr ht
  rw [login_handles_iff hs hr, readConfirmation_bare ht (hfields.trans (by decide))] at hhandles
  exact not_handles_crashed hhandles

end SyncWizard.Properties
