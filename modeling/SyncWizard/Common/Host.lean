import SyncWizard.Common.Text

/-! Everything the programs ask of the machine they run on: the socket calls, the memory
allocator, the threads, the file permissions, the clock, Crypto++'s MD5. Each is a function of
its arguments, the socket calls also of the number of calls made before, so one host is one way
things can go. -/

namespace SyncWizard.Common
open Foundation

inductive Readiness where
  | ready
  | timedOut
  | failed
  deriving DecidableEq, Repr

inductive Worker where
  | overseer
  | sender
  | receiver
  deriving DecidableEq, Repr

inductive FileTime where
  | modification
  | access
  | changeOrCreation
  deriving DecidableEq, Repr

structure Host where
  selectRead : ℕ → ℤ → Readiness
  selectWrite : ℕ → ℤ → Readiness
  /-- How many of the offered bytes `send` accepts, `none` for its `-1`. -/
  send : ℕ → ℤ → ℕ → Option ℕ
  /-- How many of the available bytes `recv` hands over, `none` for its `-1`. -/
  recv : ℕ → ℤ → ℕ → Option ℕ
  /-- With nothing left to read the peer has closed (`0`) or the call fails (`-1`). -/
  hangsUp : ℕ → ℤ → Bool
  send_some : ∀ {call fd offered n}, send call fd offered = some n → 1 ≤ n ∧ n ≤ offered
  recv_some : ∀ {call fd available n}, recv call fd available = some n → 1 ≤ n ∧ n ≤ available
  alloc : ℕ → Bool
  spawns : Worker → Bool
  uninitialised : BitVec 32
  statError : Text → Option Text
  mayDigest : Text → Bool
  mayRead : Text → Bool
  mayAppend : Text → Bool
  mayRemove : Text → Bool
  mayList : Text → Bool
  mayCreate : Text → Bool
  mayRename : Text → Text → Bool
  formatTime : FileTime → Text → Text
  md5 : Text → Text
  /-- The C string that begins so far from the start of a literal and outside of it, `none` where the
  process may not read. -/
  stray : Text → ℤ → Option Text

/-- Receiving works: `select` reports readiness, `recv` fails on no waiting bytes and there is
memory for every payload. -/
structure Host.Receives (h : Host) : Prop where
  selectRead : ∀ call fd, h.selectRead call fd = .ready
  recv : ∀ call fd available, 0 < available → ∃ n, h.recv call fd available = some n
  alloc : ∀ n, h.alloc n = true

structure Host.Reliable (h : Host) : Prop extends h.Receives where
  selectWrite : ∀ call fd, h.selectWrite call fd = .ready
  send : ∀ call fd offered, 0 < offered → ∃ n, h.send call fd offered = some n

def ReliableHost := {h : Host // h.Reliable}

structure Host.Takes (h : Host) (fd : ℤ) : Prop where
  selectWrite : ∀ call, h.selectWrite call fd = .ready
  send : ∀ call offered, 0 < offered → ∃ n, h.send call fd offered = some n

theorem Host.Reliable.takes {h : Host} (hr : h.Reliable) (fd : ℤ) : h.Takes fd :=
  ⟨fun call => hr.selectWrite call fd, fun call offered => hr.send call fd offered⟩

def chunkHost (limit : ℕ) (hl : 0 < limit) : ReliableHost where
  val :=
    { selectRead := fun _ _ => .ready
      selectWrite := fun _ _ => .ready
      send := fun _ _ offered => if offered = 0 then none else some (min offered limit)
      recv := fun _ _ available => if available = 0 then none else some available
      hangsUp := fun _ _ => true
      send_some := by
        intro _ _ offered n h
        split_ifs at h
        have := Option.some.inj h
        omega
      recv_some := by
        intro _ _ available n h
        split_ifs at h
        have := Option.some.inj h
        omega
      alloc := fun _ => true
      spawns := fun _ => true
      uninitialised := 0
      statError := fun _ => none
      mayDigest := fun _ => true
      mayRead := fun _ => true
      mayAppend := fun _ => true
      mayRemove := fun _ => true
      mayList := fun _ => true
      mayCreate := fun _ => true
      mayRename := fun _ _ => true
      formatTime := fun _ _ => []
      md5 := id
      stray := fun _ _ => some [] }
  property :=
    { selectRead := fun _ _ => rfl
      selectWrite := fun _ _ => rfl
      send := fun _ _ _ h => ⟨_, if_neg (by omega)⟩
      recv := fun _ _ _ h => ⟨_, if_neg (by omega)⟩
      alloc := fun _ => rfl }

def pageHost : ReliableHost := chunkHost 4096 (by decide)

/-! ## Literals -/

/-- `"literal" + n` in C++, which moves a pointer on. -/
def literalText (h : Host) (literal : Text) (n : ℤ) : Option Text :=
  if 0 ≤ n ∧ n ≤ literal.length then some (literal.drop n.toNat) else h.stray literal n

def literalPlus {σ : Type} (h : Host) (literal : Text) (n : ℤ) : Exec σ Text :=
  match literalText h literal n with
  | some text => pure text
  | none => crash .outOfBounds

theorem literalPlus_kept {σ : Type} {R : σ → σ → Prop} [Std.Refl R] [IsTrans σ R] (h : Host)
    (literal : Text) (n : ℤ) : Kept R (literalPlus h literal n) := by
  unfold literalPlus
  split
  exacts [Kept.pure _, Kept.crash _]

end SyncWizard.Common
