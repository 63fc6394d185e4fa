import PlasmaModel.Lib.Runs
import PlasmaModel.Libwayland.Closure

-- The connection, whose sending side the messages are queued in and flushed from.
namespace Libwayland

def MAX_FDS_OUT : ℕ :=
  28

inductive Errno
  | EAGAIN
  | E2BIG
  | ERANGE
  | other (number : ℕ)
deriving DecidableEq

structure Connection where
  input     : RingBuffer Byte := {}
  out       : RingBuffer Byte := {}
  fdsIn     : RingBuffer Fd := {}
  fdsOut    : RingBuffer Fd := {}
  wantFlush : Bool := false

inductive SendResult
  | sent (len : ℕ)
  | failed (errno : Errno)

-- What each call of `sendmsg` answers that is offered some bytes, once it is not interrupted. As documented for it, it
-- transfers at most 0x7ffff000 bytes at once.
structure Socket where
  sendmsg : ℕ → ℕ → SendResult
  partly  : ∀ {call offered len}, 0 < offered → sendmsg call offered = .sent len →
    0 < len ∧ len ≤ offered ∧ len ≤ 0x7ffff000

structure SendCall where
  bytes  : List Byte
  fds    : List Fd
  result : SendResult

-- A connection, the value of `errno`, the calls of `sendmsg`, and which file descriptors were closed after them.
structure Endpoint where
  connection : Connection := {}
  errno      : Errno := .other 0
  calls      : List SendCall := []
  closed     : List Fd := []

namespace Connection

def setMaxBufferSize (connection : Connection) (maxBufferSize : ℕ) : Connection :=
  let maxSizeBits := getMaxSizeBitsForSize maxBufferSize
  { connection with
    fdsIn  := connection.fdsIn.setMaxSizeBits maxSizeBits
    fdsOut := connection.fdsOut.setMaxSizeBits maxSizeBits
    input  := connection.input.setMaxSizeBits maxSizeBits
    out    := connection.out.setMaxSizeBits maxSizeBits }

def create (maxBufferSize : ℕ) : Connection :=
  ({} : Connection).setMaxBufferSize maxBufferSize

-- The file descriptors of the control message.
def buildCmsg (connection : Connection) : List Fd :=
  connection.fdsOut.copy (min connection.fdsOut.count MAX_FDS_OUT)

-- If there are more file descriptors than fit one message then only one byte is sent with those that fit.
def iov (connection : Connection) : List RingBuffer.IoVec :=
  if MAX_FDS_OUT ≤ connection.fdsOut.count then
    [{ base := connection.out.mask connection.out.tail, len := 1 }]
  else
    connection.out.getIov

end Connection

namespace Endpoint

variable (socket : Socket) (e : Endpoint)

-- The body of the loop of `wl_connection_flush`, where sent bytes are an answer.
def sendOnce : Endpoint × Option ℕ :=
  let iov := e.connection.iov
  let offered := (iov.map RingBuffer.IoVec.len).sum
  let result := socket.sendmsg e.calls.length offered
  let call : SendCall :=
    { bytes := e.connection.out.gather iov, fds := e.connection.buildCmsg, result }
  match result with
  | .failed errno => ({ e with errno, calls := e.calls ++ [call] }, none)
  | .sent len =>
    let (fdsOut, closed) := e.connection.fdsOut.closeFds MAX_FDS_OUT
    let out := { e.connection.out with tail := e.connection.out.tail + len }
    ({ e with
      connection := { e.connection with fdsOut, out }
      calls      := e.calls ++ [call]
      closed     := e.closed ++ closed }, some len)

theorem offered_pos (connection : Connection) : 0 < (connection.iov.map RingBuffer.IoVec.len).sum := by
  have htail : connection.out.mask connection.out.tail < connection.out.capacity :=
    Nat.mod_lt _ (Nat.div_pos (Nat.one_le_two_pow) (by decide))
  rw [Connection.iov]
  split
  case isTrue => exact Nat.one_pos
  case isFalse =>
    rw [RingBuffer.getIov]
    split
    case isTrue h => simpa using Nat.sub_pos_of_lt h
    case isFalse => split <;> simp <;> omega

theorem count_sendOnce {e' : Endpoint} {len : ℕ} (h : e.sendOnce socket = (e', some len))
    (hne : e.connection.out.count ≠ 0) : e'.connection.out.count < e.connection.out.count := by
  rw [sendOnce] at h
  split at h
  case h_1 => cases h
  case h_2 len' hsent =>
    cases h
    have hpos := (socket.partly (offered_pos e.connection) hsent).1
    simp only [RingBuffer.count] at hne ⊢
    omega

-- Whether everything could be sent.
def flushLoop (e : Endpoint) : Endpoint × Bool :=
  if hne : e.connection.out.count = 0 then
    (e, true)
  else
    match h : e.sendOnce socket with
    | (e', some _) => flushLoop e'
    | (e', none) => (e', false)
termination_by e.connection.out.count
decreasing_by exact e.count_sendOnce socket h hne

def flush : Endpoint × ℤ :=
  if e.connection.wantFlush then
    let tail := e.connection.out.tail
    match e.flushLoop socket with
    | (e, true) => ({ e with connection.wantFlush := false }, toInt32 (e.connection.out.head - tail))
    | (e, false) => (e, -1)
  else
    (e, 0)

-- Flushes what there is, and goes on unless that fails for good.
def flushFirst : Endpoint × Bool :=
  let (e, sent) := ({ e with connection.wantFlush := true } : Endpoint).flush socket
  (e, 0 ≤ sent ∨ e.errno = .EAGAIN)

def queueBytes (bytes : List Byte) : Endpoint × ℤ :=
  let (e, ok) :=
    if WL_BUFFER_DEFAULT_MAX_SIZE < e.connection.out.size + bytes.length then e.flushFirst socket else (e, true)
  if ok then
    match e.connection.out.ensureSpace bytes.length with
    | none => ({ e with errno := .E2BIG }, -1)
    | some out => ({ e with connection.out := out.put bytes }, 0)
  else
    (e, -1)

def write (bytes : List Byte) : Endpoint × ℤ :=
  let (e, result) := e.queueBytes socket bytes
  if result < 0 then
    (e, -1)
  else
    ({ e with connection.wantFlush := true }, 0)

def putFd (fd : Fd) : Endpoint × ℤ :=
  let (e, ok) := if MAX_FDS_OUT * 4 ≤ e.connection.fdsOut.size then e.flushFirst socket else (e, true)
  if ok then
    match e.connection.fdsOut.ensureSpace 4 with
    | none => ({ e with errno := .E2BIG }, -1)
    | some fdsOut => ({ e with connection.fdsOut := fdsOut.put [fd] }, 0)
  else
    (e, -1)

-- The descriptors of the closure are those of its arguments that are descriptors, in order.
def copyFds (e : Endpoint) : List Fd → Endpoint × ℤ
  | [] => (e, 0)
  | fd :: fds =>
    let (e, result) := e.putFd socket fd
    if result = 0 then e.copyFds fds else (e, -1)

-- Sending and queueing differ in what the buffer is filled with when it is allocated, and in whether it is written or
-- queued.
def transmit (e : Endpoint) (closure : Closure) (memory : ℕ → Byte)
    (transfer : Endpoint → List Byte → Endpoint × ℤ) : Endpoint × ℤ :=
  let (e, copied) := e.copyFds socket closure.fds
  if copied = 0 then
    match closure.serialize memory closure.bufferSize with
    | none => ({ e with errno := .ERANGE }, -1)
    | some (buffer, size) => if size < 0 then (e, -1) else transfer e (buffer.take size.toNat)
  else
    (e, -1)

def closureSend (closure : Closure) : Endpoint × ℤ :=
  e.transmit socket closure (fun _ => 0) fun e bytes => e.write socket bytes

def closureQueue (closure : Closure) (memory : ℕ → Byte) : Endpoint × ℤ :=
  e.transmit socket closure memory fun e bytes => e.queueBytes socket bytes

end Endpoint

-- With the messages that have been accepted so far, each with what its buffer was filled with before.
structure Session where
  endpoint : Endpoint
  accepted : List (Closure × (ℕ → Byte)) := []

inductive Event
  | closureSend (closure : Closure)
  | closureQueue (closure : Closure) (memory : ℕ → Byte)
  | flush
  | setMaxBufferSize (maxBufferSize : ℕ)

-- A session ends with the first call that fails, unless it is only that the socket would have to wait.
def step (socket : Socket) (s : Session) : Event → Option Session
  | .closureSend closure =>
    let (endpoint, result) := s.endpoint.closureSend socket closure
    if result < 0 then none else some { endpoint, accepted := s.accepted ++ [(closure, fun _ => 0)] }
  | .closureQueue closure memory =>
    let (endpoint, result) := s.endpoint.closureQueue socket closure memory
    if result < 0 then none else some { endpoint, accepted := s.accepted ++ [(closure, memory)] }
  | .flush =>
    let (endpoint, result) := s.endpoint.flush socket
    if result < 0 ∧ endpoint.errno ≠ .EAGAIN then none else some { s with endpoint }
  | .setMaxBufferSize maxBufferSize =>
    some { s with endpoint.connection := s.endpoint.connection.setMaxBufferSize maxBufferSize }

end Libwayland
