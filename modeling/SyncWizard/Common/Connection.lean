import Mathlib.Logic.Function.Basic
import SyncWizard.Common.Host
import SyncWizard.Common.Packet

/-! `ConnectionManager`: the two partial-transfer loops of `socket_commands.cpp` and the packet
framing of `packet.cpp` on top of them. -/

namespace SyncWizard.Common
open Foundation

/-- The socket `sockfd_` of the manager and, for every descriptor, the bytes its peer has sent
that are not read yet and the bytes the kernel has taken for its peer. -/
structure ConnectionManager where
  sockfd : ℤ
  calls : ℕ
  inbox : ℤ → Text
  outbox : ℤ → Text
  isOpen : ℤ → Bool

namespace ConnectionManager

def tick (m : ConnectionManager) : ConnectionManager := { m with calls := m.calls + 1 }

def take (m : ConnectionManager) (fd : ℤ) (n : ℕ) : ConnectionManager :=
  { m with inbox := Function.update m.inbox fd ((m.inbox fd).drop n) }

def put (m : ConnectionManager) (fd : ℤ) (bs : Text) : ConnectionManager :=
  { m with outbox := Function.update m.outbox fd (m.outbox fd ++ bs) }

def socketOf (m : ConnectionManager) (sockfd : ℤ) : ℤ := if sockfd = -1 then m.sockfd else sockfd

end ConnectionManager

def connectionError (scope error : Text) : Text := txt "[CONNECTION MANAGER]" ++ scope ++ error

def timedOutOn (socket : ℤ) : Text :=
  connectionError [] (txt "Timed out on socket " ++ toText socket ++ txt "!")

def sendingFailed (socket : ℤ) : Text :=
  connectionError [] (txt "Error sending buffer on socket " ++ toText socket ++ txt "!")

def recievingFailed (socket : ℤ) : Text :=
  connectionError [] (txt "Error recieving buffer on socket " ++ toText socket ++ txt "!")

def hungUp : Text := connectionError [] (txt "Connection terminated by remote host!")

def awaitReady (select : ℕ → ℤ → Readiness) (socket : ℤ) (failure : Text) :
    Exec ConnectionManager Unit := fun m =>
  match select m.calls socket with
  | .ready => .ok () m.tick
  | .timedOut => .error (.raised (timedOutOn socket)) m.tick
  | .failed => .error (.raised failure) m.tick

section Sending
variable (h : Host)

def sendCall (socket : ℤ) (rest : Text) : Exec ConnectionManager ℤ := fun m =>
  match h.send m.calls socket rest.length with
  | none => .ok (-1) m.tick
  | some n => .ok n (m.tick.put socket (rest.take n))

/-- The loop of `send_data`: the result of `send` goes through an `int` before it is added to
the `size_t` count. -/
def sendLoop (socket : ℤ) (buffer : Text) : ℕ → BitVec 64 → Exec ConnectionManager Unit
  | 0, _ => crash .hang
  | fuel + 1, totalSent =>
    if totalSent.toNat < buffer.length then do
      let accepted ← sendCall h socket (buffer.drop totalSent.toNat)
      let bytesSent := BitVec.ofInt 32 accepted
      if bytesSent = -1 then raise (sendingFailed socket)
      else sendLoop socket buffer fuel (totalSent + bytesSent.signExtend 64)
    else pure ()

def sendData (fuel : ℕ) (buffer : Option Text) (bufferSize : ℕ) (sockfd : ℤ) :
    Exec ConnectionManager Unit :=
  if bufferSize = 0 then pure ()
  else do
    let m ← get
    let socket := m.socketOf sockfd
    awaitReady h.selectWrite socket (sendingFailed socket)
    match buffer with
    -- the kernel refuses a null buffer
    | none => raise (sendingFailed socket)
    | some bs =>
      -- a short one is read past its end
      if bs.length < bufferSize then crash .outOfBounds
      else sendLoop h socket (bs.take bufferSize) fuel 0

def sendPacket (fuel : ℕ) (p : Packet) (sockfd : ℤ) : Exec ConnectionManager Unit := do
  sendData h fuel (some (headerBytes p.toHeader)) headerSize sockfd
  sendData h fuel p.payload p.payloadSize.toNat sockfd

end Sending

section Receiving
variable (h : Host)

inductive Received where
  | chunk (bs : Text)
  | closed
  | failed

def recvCall (socket : ℤ) (want : ℕ) : Exec ConnectionManager Received := fun m =>
  if m.inbox socket = [] then
    .ok (if h.hangsUp m.calls socket then .closed else .failed) m.tick
  else
    match h.recv m.calls socket (min want (m.inbox socket).length) with
    | none => .ok .failed m.tick
    | some n => .ok (.chunk ((m.inbox socket).take n)) (m.tick.take socket n)

/-- The loop of `receive_data` with `left` bytes to go; every round takes at least one, so as
many rounds as bytes are enough. -/
def receiveLoop (socket : ℤ) : ℕ → ℕ → Text → Exec ConnectionManager Text
  | 0, _, received => pure received
  | fuel + 1, left, received =>
    if left = 0 then pure received
    else do
      match ← recvCall h socket left with
      | .chunk bs => receiveLoop socket fuel (left - bs.length) (received ++ bs)
      | .closed => raise hungUp
      | .failed => raise (recievingFailed socket)

def receiveData (bufferSize : ℕ) (sockfd : ℤ) : Exec ConnectionManager Text :=
  if bufferSize = 0 then pure []
  else do
    let m ← get
    let socket := m.socketOf sockfd
    awaitReady h.selectRead socket (recievingFailed socket)
    receiveLoop h socket bufferSize bufferSize []

def receivePacket (sockfd : ℤ) : Exec ConnectionManager Packet := do
  let header := readHeader (← receiveData h headerSize sockfd)
  if header.payloadSize.toNat = 0 then pure ⟨header, none⟩
  -- the size of the array is whatever the header announces
  else if h.alloc header.payloadSize.toNat then do
    let payload ← receiveData h header.payloadSize.toNat sockfd
    pure ⟨header, some payload⟩
  else raise (txt "std::bad_alloc")

end Receiving

def createSocket (socket : ℤ) : Exec ConnectionManager Unit := do
  modify fun m => { m with sockfd := socket }
  if socket = -1 then raise (connectionError [] (txt "Error creating socket!"))

end SyncWizard.Common
