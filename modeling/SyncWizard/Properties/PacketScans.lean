import SyncWizard.Client.Network
import SyncWizard.Common.CommandArray
import SyncWizard.Common.Lockless
import SyncWizard.Common.Transfer
import SyncWizard.Server.Network

/-! The scans of `split_buffer` over a packet from the network. A scan ends at a separator or at a NUL,
and nothing on the way of a packet puts one there. -/

namespace SyncWizard.Properties
open Foundation Common

/-- The program has read through a null pointer or past the end of an array. -/
def Leaves {σ α : Type} (r : EStateM.Result (Fault Text Crash) σ α) : Prop :=
  ∃ s, r = .error (.crashed .nullRead) s ∨ r = .error (.crashed .outOfBounds) s

structure ServerScansStay (p : Packet) : Prop where
  command : ∀ (σ : Type) (s : σ), ¬ Leaves (splitWalk p.command.1 s)
  payload : ∀ (h : Host) (self : Server.SessionId) (me : Server.Identity) (args : Text)
    (w : Server.ServerState), Server.receiverRoute p.fields = .clist args →
      ¬ Leaves (Server.clientSentClist h self me p args w)

structure ClientScansStay (p : Packet) : Prop where
  command : ∀ (σ : Type) (s : σ), ¬ Leaves (splitWalk p.command.1 s)
  payload : ∀ (args : Text) (w : Client.ClientState), Client.receiverRoute p.fields = .list args →
    ¬ Leaves (Client.serverListCommand args p w)

def Listed (p : Packet) : Prop := ∃ bytes, p.payload = some bytes ∧ nul ∈ bytes

section Leaving
variable {σ α : Type} {I : σ → Prop} {s : σ}

theorem not_leaves_ok (a : α) (s : σ) : ¬ Leaves (.ok a s : EStateM.Result (Fault Text Crash) σ α) := by
  rintro ⟨s', hr | hr⟩ <;> cases hr

theorem not_leaves_raised (what : Text) (s : σ) :
    ¬ Leaves (.error (.raised what) s : EStateM.Result (Fault Text Crash) σ α) := by
  rintro ⟨s', hr | hr⟩ <;> cases hr

theorem not_leaves_of_sane {r : EStateM.Result (Fault Text Crash) σ α}
    (hr : ∀ bad, bad = .nullRead ∨ bad = .outOfBounds → Sane bad I r) : ¬ Leaves r := by
  rintro ⟨s, he | he⟩
  exacts [(hr _ (.inl rfl)).2 s he, (hr _ (.inr rfl)).2 s he]

theorem commandScan_iff (p : Packet) :
    (∀ (σ : Type) (s : σ), ¬ Leaves (splitWalk p.command.1 s)) ↔ nul ∈ p.command.1 := by
  constructor
  · intro hstay
    by_contra hno
    refine hstay Unit () ⟨(), .inr ?_⟩
    rw [splitWalk_eq, splitBuffer, if_neg hno]
    rfl
  · intro ht σ s
    rw [splitWalk_eq, splitBuffer, if_pos ht]
    exact not_leaves_ok _ _

theorem splitPayload_listed {p : Packet} (hp : Listed p) (s : σ) :
    ∃ names, splitPayload p s = .ok names s := by
  obtain ⟨bytes, hpayload, hend⟩ := hp
  rw [splitPayload, hpayload]
  simp only [splitBuffer, if_pos hend]
  exact ⟨_, rfl⟩

theorem splitPayload_leaves {p : Packet} (hp : ¬ Listed p) (s : σ) :
    splitPayload p s = .error (.crashed .nullRead) s ∨
      splitPayload p s = .error (.crashed .outOfBounds) s := by
  rw [splitPayload]
  cases hpayload : p.payload with
  | none => exact .inl rfl
  | some bytes =>
    have hend : nul ∉ bytes := fun hend => hp ⟨bytes, hpayload, hend⟩
    simp only [splitBuffer, if_neg hend]
    exact .inr rfl

theorem leaves_bind {β : Type} {p : Exec σ α} {f : α → Exec σ β}
    (hp : p s = .error (.crashed .nullRead) s ∨ p s = .error (.crashed .outOfBounds) s) :
    Leaves ((p >>= f) s) := by
  rcases hp with hp | hp
  exacts [⟨s, .inl (run_bind_error hp f)⟩, ⟨s, .inr (run_bind_error hp f)⟩]

end Leaving

/-! ## The handlers of lists -/

section Lists
variable {p : Packet} {args : Text}

section Server
open Server
variable {h : Host} {self : SessionId} {me : Identity} {bad : Crash}

theorem onFiles_stays {α : Type} {q : Exec FileSystem α} (hq : Safe bad (fun _ => True) q) :
    Safe bad (fun _ => True) (Server.onFiles q) := Safe.zoom hq fun _ _ _ => trivial

theorem pushed_stays (q : Packet) : Safe bad (fun _ => True) (Server.pushPacket self q) :=
  Safe.modify fun _ _ => trivial

theorem sendMissing_stays (hbad : bad = .nullRead ∨ bad = .outOfBounds) (file : Text) :
    Safe bad (fun _ => True) (sendMissing h self me file) := by
  have hlock : .nullLock ≠ bad := by
    rintro rfl
    exact absurd hbad (by decide)
  have hhang : .hang ≠ bad := by
    rintro rfl
    exact absurd hbad (by decide)
  refine Safe.bind (Safe.bind Safe.get fun _ => Safe.pure _) fun entry => ?_
  cases entry with
  | none => exact Safe.pure ()
  | some lock =>
    refine Safe.bind (lockIn_safe hlock fun _ _ _ => trivial) fun _ =>
      Safe.bind (onFiles_stays calculateMd5Checksum_safe) fun checksum =>
        Safe.bind (onFiles_stays openRead_safe) fun content => ?_
    cases content with
    | none => exact Safe.pure ()
    | some content => exact chunkLoop_safe hhang (fun _ => Safe.pure ()) pushed_stays _ content

theorem clist_stays_iff (w : ServerState) :
    ¬ Leaves (clientSentClist h self me p args w) ↔ Listed p := by
  constructor
  · intro hstay
    by_contra hno
    exact hstay (leaves_bind (splitPayload_leaves hno w))
  · intro hp
    refine not_leaves_of_sane (I := fun _ => True) fun bad hbad => ?_
    obtain ⟨names, hsplit⟩ := splitPayload_listed hp w
    rw [clientSentClist, run_bind_ok hsplit]
    refine Safe.bind (onFiles_stays (listFolder_safe _ _ _)) (fun listing => ?_) w trivial
    refine Safe.bind (Safe.forEach fun file _ => sendMissing_stays hbad file) fun _ => ?_
    exact Safe.forEach fun file _ => mount_safe pushed_stays _

end Server

section Client
open Client

theorem reportReason_stays (hp : p.Exact) (w : ClientState) : ¬ Leaves (reportReason p w) := by
  rw [Packet.Exact, Packet.bytes] at hp
  rw [reportReason]
  cases hpayload : p.payload with
  | none =>
    rw [charraystr]
    split_ifs
    exacts [not_leaves_ok _ _, not_leaves_raised _ _]
  | some bytes =>
    rw [hpayload, Option.getD_some] at hp
    rw [charraystr, if_neg (Nat.not_lt.mpr hp.ge)]
    exact not_leaves_ok _ _

theorem list_stays_iff (hp : p.Exact) (w : ClientState) :
    ¬ Leaves (serverListCommand args p w) ↔ (args = txt "server" → Listed p) := by
  rw [serverListCommand]
  by_cases hserver : args = txt "server"
  · rw [if_pos hserver]
    constructor
    · intro hstay _
      by_contra hno
      exact hstay (leaves_bind (splitPayload_leaves hno w))
    · intro hlisted
      obtain ⟨names, hsplit⟩ := splitPayload_listed (hlisted hserver) w
      rw [run_bind_ok hsplit]
      exact not_leaves_ok _ _
  · rw [if_neg hserver]
    refine ⟨fun _ hyes => absurd hyes hserver, fun _ => ?_⟩
    split_ifs
    exacts [reportReason_stays hp w, not_leaves_ok _ _]

end Client

end Lists

/-- A packet that was received, at a server and at a client: every scan stays in the packet exactly if the
command has a NUL, and so has a payload that is taken for a list. -/
theorem scans_stay_iff {h : Host} {sockfd : ℤ} {m m' : ConnectionManager} {p : Packet}
    (hr : receivePacket h sockfd m = .ok p m') :
    (ServerScansStay p ↔
      nul ∈ p.command.1 ∧ ((∃ args, Server.receiverRoute p.fields = .clist args) → Listed p)) ∧
    (ClientScansStay p ↔
      nul ∈ p.command.1 ∧ (Client.receiverRoute p.fields = .list (txt "server") → Listed p)) := by
  have hexact := receivePacket_exact hr
  refine ⟨⟨?_, ?_⟩, ⟨?_, ?_⟩⟩
  · rintro ⟨hcommand, hpayload⟩
    refine ⟨(commandScan_iff p).mp hcommand, ?_⟩
    rintro ⟨args, hroute⟩
    let w : Server.ServerState := .init m ⟨[], ∅, []⟩
    exact (clist_stays_iff w).mp (hpayload h 0 (w.session 0).identity args w hroute)
  · rintro ⟨ht, hlisted⟩
    refine ⟨(commandScan_iff p).mpr ht, fun h self me args w hroute => ?_⟩
    exact (clist_stays_iff w).mpr (hlisted ⟨args, hroute⟩)
  · rintro ⟨hcommand, hpayload⟩
    refine ⟨(commandScan_iff p).mp hcommand, fun hroute => ?_⟩
    let w : Client.ClientState := ⟨m, ⟨[], ∅, []⟩, [], [], fun _ => none, [], true, true, true⟩
    exact (list_stays_iff hexact w).mp (hpayload _ w hroute) rfl
  · rintro ⟨ht, hlisted⟩
    refine ⟨(commandScan_iff p).mpr ht, fun args w hroute => ?_⟩
    refine (list_stays_iff hexact w).mpr fun hserver => ?_
    subst hserver
    exact hlisted hroute

def pingHeader : Header := (Packet.ofCommand (txt "ping")).toHeader

def clistHeader : Header := (Packet.ofCommand (txt "clist")).toHeader

def holding (header : Header) : ConnectionManager :=
  ⟨4, 0, fun _ => headerBytes header, fun _ => [], fun _ => true⟩

theorem received_alone (header : Header) (hsize : header.payloadSize = 0) : ∃ m',
    receivePacket pageHost.1 4 (holding header) = .ok ⟨header, none⟩ m' :=
  ⟨_, receivePacket_atOnce (by rw [hsize]; rfl) rfl rfl rfl⟩

theorem ping_scans_stay : ServerScansStay ⟨pingHeader, none⟩ ∧ ClientScansStay ⟨pingHeader, none⟩ := by
  obtain ⟨m', hr⟩ := received_alone pingHeader rfl
  have hreads : Packet.Reads (txt "ping") ⟨pingHeader, none⟩ :=
    ⟨by decide, (Packet.ofCommand_carries (by decide)).command⟩
  have hend : nul ∈ pingHeader.command.1 :=
    hreads.array (by decide) ▸ List.mem_append_right _ List.mem_cons_self
  obtain ⟨-, hfields⟩ := hreads.fields (by decide)
  obtain ⟨hserver, hclient⟩ := scans_stay_iff hr
  refine ⟨hserver.mpr ⟨hend, ?_⟩, hclient.mpr ⟨hend, ?_⟩⟩
  · rintro ⟨args, hroute⟩
    rw [hfields] at hroute
    cases hroute
  · intro hroute
    rw [hfields] at hroute
    cases hroute

theorem bare_clist_read :
    ¬ ∀ (h : Host) (sockfd : ℤ) (m m' : ConnectionManager) (p : Packet),
      receivePacket h sockfd m = .ok p m' → ServerScansStay p ∧ ClientScansStay p := by
  intro hall
  obtain ⟨m', hr⟩ := received_alone clistHeader rfl
  obtain ⟨hserver, -⟩ := hall _ _ _ _ _ hr
  have hreads : Packet.Reads (txt "clist") ⟨clistHeader, none⟩ :=
    ⟨by decide, (Packet.ofCommand_carries (by decide)).command⟩
  obtain ⟨-, hfields⟩ := hreads.fields (by decide)
  let w : Server.ServerState := .init m' ⟨[], ∅, []⟩
  have hroute : Server.receiverRoute (Packet.fields ⟨clistHeader, none⟩) = .clist [] := by
    rw [hfields]
    rfl
  have hlisted := (clist_stays_iff w).mp
    (hserver.payload pageHost.1 0 (w.session 0).identity [] w hroute)
  obtain ⟨bytes, hbytes, -⟩ := hlisted
  cases hbytes

end SyncWizard.Properties
