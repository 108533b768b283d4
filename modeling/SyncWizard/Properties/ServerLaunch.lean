import SyncWizard.Properties.LoginAgreement
import SyncWizard.Server.Launch

/-! The port at which a server is launched. -/

namespace SyncWizard.Properties
open Foundation Common Server

def portsDownTo (top port : ℤ) : List ℤ :=
  (List.range (top + 1 - port).toNat).map fun i : ℕ => top - (i : ℤ)

theorem portsDownTo_none {top port : ℤ} (h : top < port) : portsDownTo top port = [] := by
  rw [portsDownTo, show (top + 1 - port).toNat = 0 by omega]
  rfl

theorem portsDownTo_cons {top port : ℤ} (h : port ≤ top) :
    portsDownTo top port = top :: portsDownTo (top - 1) port := by
  have hcount : (top + 1 - port).toNat = (top - 1 + 1 - port).toNat + 1 := by omega
  rw [portsDownTo, hcount, List.range_succ_eq_map, List.map_cons, List.map_map, portsDownTo]
  refine congrArg₂ _ (sub_zero top) (List.map_congr_left fun i _ => ?_)
  rw [Function.comp_apply, Nat.cast_succ]
  omega

def SameOpen (w w' : ServerState) : Prop := w'.net.isOpen = w.net.isOpen

instance : Std.Refl SameOpen := ⟨fun _ => rfl⟩

instance : IsTrans ServerState SameOpen := ⟨fun _ _ _ h h' => h'.trans h⟩

section Ports
variable {c : ServerCalls} {s s' : Launching}

structure Selected (c : ServerCalls) (top port : ℤ) : Prop where
  low : 50000 ≤ port
  high : port < top
  above : ∀ q, port < q → q < top → c.bind q = false
  last : c.bind port = true ∨ port = 50000

def TestedPorts (ports : List ℤ) (s s' : Launching) : Prop :=
  s'.tested = s.tested ++ ports ∧
    ∀ fd, s'.server.net.isOpen fd = true → s.server.net.isOpen fd = true

theorem Selected.later {top port : ℤ} (h : Selected c (top - 1) port) (hbusy : c.bind (top - 1) = false) :
    Selected c top port := by
  refine ⟨h.low, h.high.trans (sub_one_lt top), fun q hq htop => ?_, h.last⟩
  obtain rfl | hlt := (Int.le_sub_one_of_lt htop).eq_or_lt
  · exact hbusy
  · exact h.above q hq hlt

theorem selected_next {top : ℤ} (htop : 50000 < top) (hlast : c.bind (top - 1) = true ∨ top - 1 = 50000) :
    Selected c top (top - 1) :=
  ⟨Int.le_sub_one_of_lt htop, sub_one_lt top, fun q hq hq' => by omega, hlast⟩

theorem TestedPorts.append {ps qs : List ℤ} {s₁ : Launching} (h : TestedPorts ps s s₁)
    (hs : TestedPorts qs s₁ s') : TestedPorts (ps ++ qs) s s' := by
  refine ⟨?_, fun fd hfd => h.2 fd (hs.2 fd hfd)⟩
  rw [hs.1, h.1, List.append_assoc]

theorem testedPorts_next {top : ℤ} (h : TestedPorts [top - 1] s s') :
    TestedPorts (portsDownTo (top - 1) (top - 1)) s s' := by
  rw [portsDownTo_cons le_rfl, portsDownTo_none (sub_one_lt (top - 1))]
  exact h

theorem isPortAvailable_ok {port : ℤ} {available : Bool} (h : isPortAvailable c port s = .ok available s') :
    available = c.bind port ∧ TestedPorts [port] s s' := by
  rw [isPortAvailable] at h
  split_ifs at h
  · cases h
  · cases h
    refine ⟨rfl, rfl, fun fd hfd => ?_⟩
    by_cases hsame : fd = c.testSocket port
    · subst hsame
      simp [Launching.setOpen] at hfd
    · simpa [Launching.setOpen, hsame] using hfd

theorem selectPort_tests {top port : ℤ} (htop : 50000 < top) (h : selectPort c false top s = .ok port s') :
    ∃ t, TestedPorts [top - 1] s t ∧ selectPort c (c.bind (top - 1)) (top - 1) t = .ok port s' := by
  rw [selectPort, if_pos ⟨rfl, htop⟩] at h
  obtain ⟨found, t, hfound, hrest⟩ := run_bind_inv h
  obtain ⟨rfl, htested⟩ := isPortAvailable_ok hfound
  exact ⟨t, htested, hrest⟩

theorem selectPort_stops {available : Bool} {top port : ℤ} (hstop : available = true ∨ top = 50000)
    (h : selectPort c available top s = .ok port s') : port = top ∧ s' = s := by
  rw [selectPort, if_neg] at h
  · cases h
    exact ⟨rfl, rfl⟩
  · rintro ⟨hnot, hmore⟩
    obtain rfl | rfl := hstop
    · cases hnot
    · exact lt_irrefl _ hmore

/-- The search goes down one port at a time. The induction is on how far `top` is above the last one. -/
theorem selectPort_ok {top port : ℤ} (htop : 50000 < top) (h : selectPort c false top s = .ok port s') :
    Selected c top port ∧ TestedPorts (portsDownTo (top - 1) port) s s' := by
  obtain ⟨n, hn⟩ : ∃ n : ℕ, top = 50001 + n := ⟨(top - 50001).toNat, by omega⟩
  induction n generalizing top s with
  | zero =>
    obtain ⟨t, htested, hrest⟩ := selectPort_tests htop h
    obtain ⟨rfl, rfl⟩ := selectPort_stops (.inr (by omega)) hrest
    exact ⟨selected_next htop (.inr (by omega)), testedPorts_next htested⟩
  | succ n ih =>
    obtain ⟨t, htested, hrest⟩ := selectPort_tests htop h
    cases hfound : c.bind (top - 1) with
    | true =>
      rw [hfound] at hrest
      obtain ⟨rfl, rfl⟩ := selectPort_stops (.inl rfl) hrest
      exact ⟨selected_next htop (.inl hfound), testedPorts_next htested⟩
    | false =>
      rw [hfound] at hrest
      obtain ⟨hselected, hmore⟩ := ih (by omega) hrest (by omega)
      refine ⟨hselected.later hfound, ?_⟩
      rw [portsDownTo_cons (Int.le_sub_one_of_lt (hselected.high.trans (sub_one_lt top)))]
      exact htested.append hmore

theorem onServer_tested {α : Type} {p : ServerExec α} {a : α} (h : Server.onServer p s = .ok a s')
    (hp : Kept SameOpen p) : TestedPorts [] s s' := by
  obtain ⟨w, hw, rfl⟩ := run_zoom_inv h
  have hsame : SameOpen s.server w := by simpa only [hw, final_ok] using hp s.server
  exact ⟨(List.append_nil _).symm, fun fd hfd => hsame ▸ hfd⟩

theorem prepareSyncDir_sameOpen : Kept SameOpen (prepareSyncDir c) := by
  have hfiles {α : Type} (p : Exec FileSystem α) : Kept SameOpen (onFiles p) :=
    (onFiles_sameNet p).mono fun _ _ hsame => congrArg ConnectionManager.isOpen hsame
  refine Kept.bind (hfiles _) fun found => ?_
  split_ifs
  · exact Kept.pure _
  · refine Kept.bind (hfiles _) fun made => ?_
    split_ifs
    · exact Kept.pure _
    · exact Kept.raise _

theorem createSocket_sameOpen (socket : ℤ) : Kept SameOpen (onNet (createSocket socket)) := by
  intro w
  unfold onNet zoom createSocket
  by_cases hs : socket = -1
  · rw [if_pos hs]
    rfl
  · rw [if_neg hs]
    rfl

theorem launch_ok (h : launchServer c s = .ok () s') : ∃ s₁ s₂ : Launching, TestedPorts [] s s₁ ∧
    selectPort c false 65535 s₁ = .ok s'.port s₂ ∧
    Server.onServer (onNet (c.createServer s'.port)) { s₂ with port := s'.port } = .ok () s' := by
  obtain ⟨⟨⟩, s₀, hdirectory, h⟩ := run_bind_inv h
  obtain ⟨⟨⟩, s₁, hsocket, h⟩ := run_bind_inv h
  obtain ⟨port, s₂, hselected, h⟩ := run_bind_inv h
  have h : Server.onServer (onNet (c.createServer port)) { s₂ with port := port } = .ok () s' := h
  have hport : s'.port = port := by
    obtain ⟨w, -, rfl⟩ := run_zoom_inv h
    rfl
  subst hport
  have hdirectory := onServer_tested hdirectory prepareSyncDir_sameOpen
  have hsocket := onServer_tested hsocket (createSocket_sameOpen c.socket)
  exact ⟨s₁, s₂, hdirectory.append hsocket, hselected, h⟩

theorem Selected.busy_iff {top port : ℤ} (h : Selected c top port) :
    c.bind port = false ↔ ∀ q, 50000 ≤ q → q < top → c.bind q = false := by
  refine ⟨fun hbusy q hlow htop => ?_, fun hall => hall port h.low h.high⟩
  obtain hfree | rfl := h.last
  · exact absurd hfree (hbusy ▸ Bool.false_ne_true)
  · obtain rfl | hlt := hlow.eq_or_lt
    · exact hbusy
    · exact h.above q hlt htop

end Ports

/-- A server that is launched takes the highest port below 65535 that was free when it was tested, and
50000 when none was from there on; no port below is tested, and no test leaves a socket open. -/
theorem server_port (c : ServerCalls) (s s' : Launching) (hlaunch : launchServer c s = .ok () s') :
    Selected c 65535 s'.port ∧ isValidPort s'.port = true ∧
      (c.bind s'.port = false ↔ ∀ q, 50000 ≤ q → q < 65535 → c.bind q = false) ∧
      ∃ t, TestedPorts (portsDownTo 65534 s'.port) s t ∧
        Server.onServer (onNet (c.createServer s'.port)) { t with port := s'.port } = .ok () s' := by
  obtain ⟨s₁, s₂, hstart, hport, hserver⟩ := launch_ok hlaunch
  obtain ⟨hselected, htested⟩ := selectPort_ok (by decide) hport
  have hvalid : isValidPort s'.port = true := by
    have hlow := hselected.low
    have hhigh := hselected.high
    simp only [isValidPort, Bool.and_eq_true, decide_eq_true_eq]
    omega
  exact ⟨hselected, hvalid, hselected.busy_iff, s₂, hstart.append htested, hserver⟩

def launchCalls : ServerCalls where
  host := pageHost.1
  socket := 3
  testSocket _ := 4
  bind port := port == 65533
  createServer port := openServer (port == 65533) true

theorem second_selected (s : Launching) : ∃ s', selectPort launchCalls false 65535 s = .ok 65533 s' := by
  have htaken : isPortAvailable launchCalls (65535 - 1) s = .ok false _ := rfl
  have hfree (t : Launching) : isPortAvailable launchCalls (65535 - 1 - 1) t = .ok true _ := rfl
  rw [selectPort, if_pos ⟨rfl, by decide⟩, run_bind_ok htaken, selectPort, if_pos ⟨rfl, by decide⟩,
    run_bind_ok (hfree _), selectPort, if_neg (fun h => Bool.noConfusion h.1)]
  exact ⟨_, rfl⟩

theorem launched_second :
    ∃ s', launchServer launchCalls ⟨emptyServer, 0, []⟩ = .ok () s' ∧ s'.port = 65533 := by
  obtain ⟨s, hdirectory⟩ :
      ∃ s, Server.onServer (prepareSyncDir launchCalls) ⟨emptyServer, 0, []⟩ = .ok () s := ⟨_, rfl⟩
  have hsocket : Server.onServer (onNet (createSocket launchCalls.socket)) s = .ok () _ := rfl
  obtain ⟨s', hport⟩ := second_selected
    { s with server := { s.server with net := { s.server.net with sockfd := launchCalls.socket } } }
  rw [launchServer, run_bind_ok hdirectory, run_bind_ok hsocket, run_bind_ok hport]
  exact ⟨_, rfl, rfl⟩

theorem server_port_second : ∃ s',
    launchServer launchCalls ⟨emptyServer, 0, []⟩ = .ok () s' ∧ s'.port = 65533 ∧
    Selected launchCalls 65535 s'.port ∧ isValidPort s'.port = true ∧
      (launchCalls.bind s'.port = false ↔ ∀ q, 50000 ≤ q → q < 65535 → launchCalls.bind q = false) ∧
      ∃ t, TestedPorts (portsDownTo 65534 s'.port) ⟨emptyServer, 0, []⟩ t ∧
        Server.onServer (onNet (launchCalls.createServer s'.port)) { t with port := s'.port } =
          .ok () s' := by
  obtain ⟨s', hlaunch, hport⟩ := launched_second
  exact ⟨s', hlaunch, hport, server_port launchCalls _ s' hlaunch⟩

end SyncWizard.Properties
