import SyncWizard.Common.CommandArray
import SyncWizard.Foundation.Framing

/-! `InotifyWatcher`: the loop that takes the buffer filled by `read` apart into the kernel's events.
The outer loop and its thread are with the client's synchronization. -/

namespace SyncWizard.Common
open Foundation

structure InotifyEvent where
  wd : BitVec 32
  mask : BitVec 32
  cookie : BitVec 32
  len : BitVec 32
  deriving DecidableEq, Repr

namespace InotifyEvent

def IN_MODIFY : BitVec 32 := 0x2

def IN_CREATE : BitVec 32 := 0x100

def IN_DELETE : BitVec 32 := 0x200

def IN_ISDIR : BitVec 32 := 0x40000000

def size : ℕ := 16

def bytes (e : InotifyEvent) : Text :=
  bytesOf 4 e.wd.toNat ++ (bytesOf 4 e.mask.toNat ++ (bytesOf 4 e.cookie.toNat ++
    bytesOf 4 e.len.toNat))

def read (bs : Text) : InotifyEvent where
  wd := BitVec.ofNat 32 (valueOf (bs.take 4))
  mask := BitVec.ofNat 32 (valueOf ((bs.drop 4).take 4))
  cookie := BitVec.ofNat 32 (valueOf ((bs.drop 8).take 4))
  len := BitVec.ofNat 32 (valueOf ((bs.drop 12).take 4))

theorem bytes_length (e : InotifyEvent) : e.bytes.length = size := by
  simp only [bytes, List.length_append, bytesOf_length, size]

end InotifyEvent

structure FileEvent where
  filename : Text
  mask : BitVec 32
  deriving DecidableEq, Repr

/-- The array `notify_buffer_` and the vector behind `inotify_buffer_`. The watcher also keeps the
headers it has come by, which only the statements look at. -/
structure InotifyWatcher where
  notifyBuffer : Chars 1024
  inotifyBuffer : List Text
  visited : List InotifyEvent

namespace InotifyWatcher
open InotifyEvent

def pushBack (line : Text) : Exec InotifyWatcher Unit :=
  modify fun w => { w with inotifyBuffer := w.inotifyBuffer ++ [line] }

def pushWhere (bit : BitVec 32) (command : Text) (event : FileEvent) : Exec InotifyWatcher Unit :=
  if event.mask &&& bit ≠ 0 then pushBack (command ++ event.filename) else pure ()

def processEvent (event : FileEvent) : Exec InotifyWatcher Unit := do
  pushWhere IN_CREATE (txt "inotify|create|") event
  pushWhere IN_MODIFY (txt "inotify|modify|") event
  pushWhere IN_DELETE (txt "inotify|delete|") event

def eventAt (i : BitVec 32) : Exec InotifyWatcher InotifyEvent := fun w =>
  if i.toInt < 0 ∨ w.notifyBuffer.1.length < i.toNat + size then .error (.crashed .outOfBounds) w
  else
    let event := InotifyEvent.read (w.notifyBuffer.1.drop i.toNat)
    .ok event { w with visited := w.visited ++ [event] }

def processFile (i : BitVec 32) (event : InotifyEvent) : Exec InotifyWatcher Unit :=
  if event.mask &&& (IN_CREATE ||| IN_MODIFY ||| IN_DELETE) ≠ 0 then
    if event.mask &&& IN_ISDIR = 0 then do
      let filename ← stringAt ((← get).notifyBuffer.1.drop (i.toNat + size))
      processEvent ⟨filename, event.mask⟩
    else pure ()
  else pure ()

/-- The body of the inner loop; the new value of `i`, which is a `size_t` before it is an `int` again. -/
def visitEvent (i : BitVec 32) : Exec InotifyWatcher (BitVec 32) := do
  let event ← eventAt i
  processFile i event
  return i + BitVec.ofNat 32 size + event.len

def eventLoop (length : ℕ) : ℕ → BitVec 32 → Exec InotifyWatcher Unit
  | 0, _ => crash .hang
  | fuel + 1, i =>
    if i.toInt < length then do
      let next ← visitEvent i
      eventLoop length fuel next
    else pure ()

def monitorRound (fuel : ℕ) : Option Text → Exec InotifyWatcher Unit
  | none => raise (txt "[INOTIFY WATCHER] Error reading from inotify.")
  | some bs => do
    modify fun w => { w with notifyBuffer := w.notifyBuffer.overwrite bs }
    eventLoop bs.length fuel 0

end InotifyWatcher

end SyncWizard.Common
