import PlasmaModel.Libwayland.Connection
import PlasmaModel.Libwayland.Theorems.RingBuffer

-- What is sent, what is still queued, and what has been queued.
namespace Libwayland

structure Connection.Valid (connection : Connection) : Prop where
  input  : connection.input.Valid
  out    : connection.out.Valid
  fdsIn  : connection.fdsIn.Valid
  fdsOut : connection.fdsOut.Valid

-- A message on the wire.
structure Packet where
  bytes : List Byte
  fds   : List Fd

def bytesOf (packets : List Packet) : List Byte :=
  packets.flatMap Packet.bytes

def fdsOf (packets : List Packet) : List Fd :=
  packets.flatMap Packet.fds

def SendCall.handedBytes (call : SendCall) : List Byte :=
  match call.result with
  | .sent len => call.bytes.take len
  | .failed _ => []

def SendCall.handedFds (call : SendCall) : List Fd :=
  match call.result with
  | .sent _ => call.fds
  | .failed _ => []

def handedBytes (calls : List SendCall) : List Byte :=
  calls.flatMap SendCall.handedBytes

def handedFds (calls : List SendCall) : List Fd :=
  calls.flatMap SendCall.handedFds

-- The descriptors of packets that are behind can be sent with the bytes that are left of these packets, as many at
-- once as fit.
def Ahead (packets : List Packet) (calls : List SendCall) : Prop :=
  ∀ sent, sent <+: packets → (fdsOf sent).length ≤
    (handedFds calls).length + MAX_FDS_OUT * ((bytesOf sent).length - (handedBytes calls).length)

-- What has been handed to the socket and what is buffered are the packets, with the descriptors that are pending for
-- the next one.
structure Queues (packets : List Packet) (pending : List Fd) (e : Endpoint) : Prop where
  valid  : e.connection.Valid
  bytes  : handedBytes e.calls ++ e.connection.out.contents = bytesOf packets
  fds    : handedFds e.calls ++ e.connection.fdsOut.contents = fdsOf packets ++ pending
  limit  : ∀ call ∈ e.calls, call.fds.length ≤ MAX_FDS_OUT
  closed : e.closed = handedFds e.calls
  ahead  : ∀ calls, calls <+: e.calls → Ahead packets calls

-- What is queued once the bytes are that belong to the pending descriptors.
structure Queued (packets : List Packet) (pending : List Fd) (written : List Byte) (e : Endpoint) : Prop where
  bytes  : handedBytes e.calls ++ e.connection.out.contents = bytesOf packets ++ written
  fds    : handedFds e.calls ++ e.connection.fdsOut.contents = fdsOf packets ++ pending
  queues : pending.length ≤ MAX_FDS_OUT * written.length →
    Queues (packets ++ [{ bytes := written, fds := pending }]) [] e

variable {socket : Socket} {e e' : Endpoint} {packets : List Packet} {pending : List Fd} {calls : List SendCall}
variable {call : SendCall} {bytes : List Byte} {fd : Fd} {result : ℤ}

@[simp]
theorem handedBytes_append : handedBytes (calls ++ [call]) = handedBytes calls ++ call.handedBytes := by
  simp [handedBytes]

@[simp]
theorem handedFds_append : handedFds (calls ++ [call]) = handedFds calls ++ call.handedFds := by
  simp [handedFds]

namespace Connection.Valid

variable {connection : Connection}

theorem buildCmsg (h : connection.Valid) : connection.buildCmsg = connection.fdsOut.contents.take MAX_FDS_OUT := by
  rw [Connection.buildCmsg, h.fdsOut.copy (Nat.min_le_left ..), ← h.fdsOut.length_contents, Nat.min_comm]
  exact List.take_eq_take_min.symm

-- Either all bytes are offered, or one of them with as many descriptors as fit.
theorem gather_iov (h : connection.Valid) (hne : connection.out.count ≠ 0) :
    connection.fdsOut.count < MAX_FDS_OUT ∧ (connection.iov.map RingBuffer.IoVec.len).sum = connection.out.count ∧
      connection.out.gather connection.iov = connection.out.contents ∨
    MAX_FDS_OUT ≤ connection.fdsOut.count ∧ (connection.iov.map RingBuffer.IoVec.len).sum = 1 ∧
      connection.out.gather connection.iov = connection.out.contents.take 1 := by
  rw [Connection.iov]
  split
  case isTrue hle =>
    refine .inr ⟨hle, rfl, ?_⟩
    have htail : connection.out.mask connection.out.tail + 1 ≤ connection.out.data.length := h.out.data ▸ h.out.mask_lt _
    have hmod : connection.out.mask connection.out.tail = connection.out.tail % connection.out.data.length := by
      rw [RingBuffer.mask, h.out.data]
    rw [RingBuffer.contents, Ring.take_contents (Nat.pos_of_ne_zero hne), ← Ring.contents_mod, ← hmod,
      Ring.contents_eq_drop htail]
    exact List.append_nil _
  case isFalse hlt => exact .inl ⟨not_le.mp hlt, h.out.sum_getIov hne, h.out.gather_getIov hne⟩

end Connection.Valid

-- What one call of `sendmsg` does. It hands over nothing, or it leaves no descriptor, or it hands over a byte with as
-- many descriptors as fit.
structure SentOnce (e e' : Endpoint) (call : SendCall) : Prop where
  calls  : e'.calls = e.calls ++ [call]
  limit  : call.fds.length ≤ MAX_FDS_OUT
  valid  : e'.connection.Valid
  bytes  : call.handedBytes ++ e'.connection.out.contents = e.connection.out.contents
  fds    : call.handedFds ++ e'.connection.fdsOut.contents = e.connection.fdsOut.contents
  closed : e'.closed = e.closed ++ call.handedFds
  ahead  : call.handedBytes = [] ∧ call.handedFds = [] ∨ e'.connection.fdsOut.contents = [] ∨
    call.handedBytes.length = 1 ∧ call.handedFds.length = MAX_FDS_OUT

theorem sendOnce_spec (socket : Socket) (h : e.connection.Valid) (hne : e.connection.out.count ≠ 0) :
    ∃ call, SentOnce e (e.sendOnce socket).1 call := by
  have hcmsg := h.buildCmsg
  have hlimit : e.connection.buildCmsg.length ≤ MAX_FDS_OUT := by
    rw [hcmsg, List.length_take]
    exact Nat.min_le_left ..
  rw [Endpoint.sendOnce]
  split
  case h_1 errno hfailed =>
    refine ⟨_, rfl, hlimit, h, ?_, ?_, ?_, .inl ?_⟩
    · simp [SendCall.handedBytes, hfailed]
    · simp [SendCall.handedFds, hfailed]
    · simp [SendCall.handedFds, hfailed]
    · simp [SendCall.handedBytes, SendCall.handedFds, hfailed]
  case h_2 len hsent =>
    obtain ⟨hpos, hle, _⟩ := socket.partly (Endpoint.offered_pos e.connection) hsent
    obtain ⟨hfdsOut, hfds, hclosed⟩ := h.fdsOut.closeFds (show 0 < MAX_FDS_OUT by decide)
    have hcount : len ≤ e.connection.out.count := by
      cases h.gather_iov hne with
      | inl hall => exact hall.2.1 ▸ hle
      | inr hone => exact (hle.trans_eq hone.2.1).trans (Nat.pos_of_ne_zero hne)
    obtain ⟨hout, hbytes⟩ := h.out.consume hcount
    have htake : (e.connection.out.gather e.connection.iov).take len = e.connection.out.contents.take len := by
      cases h.gather_iov hne with
      | inl hall => rw [hall.2.2]
      | inr hone => rw [hone.2.2, List.take_take, Nat.min_eq_left (hle.trans_eq hone.2.1)]
    refine ⟨_, rfl, hlimit, ⟨h.input, hout, h.fdsIn, hfdsOut⟩, ?_, ?_, ?_, .inr ?_⟩
    · simp only [SendCall.handedBytes, hsent, htake, hbytes, List.take_append_drop]
    · simp only [SendCall.handedFds, hsent, hcmsg, hfds, List.take_append_drop]
    · simp only [SendCall.handedFds, hsent, hcmsg, hclosed]
    · simp only [SendCall.handedBytes, SendCall.handedFds, hsent, hcmsg, hfds, htake]
      cases h.gather_iov hne with
      | inl hall =>
        refine .inl (List.drop_of_length_le ?_)
        rw [h.fdsOut.length_contents]
        exact hall.1.le
      | inr hone =>
        have hlen : len = 1 := Nat.le_antisymm (hle.trans_eq hone.2.1) hpos
        rw [List.length_take, List.length_take, h.out.length_contents, h.fdsOut.length_contents, hlen,
          Nat.min_eq_left hone.1, Nat.min_eq_left (Nat.pos_of_ne_zero hne)]
        exact .inr ⟨rfl, rfl⟩

theorem fdsOf_length_le {sent : List Packet} (h : sent <+: packets) : (fdsOf sent).length ≤ (fdsOf packets).length :=
  (h.flatMap Packet.fds).length_le

theorem Ahead.sentOnce (h : Ahead packets calls) (hone : call.handedBytes = [] ∧ call.handedFds = [] ∨
    call.handedBytes.length = 1 ∧ call.handedFds.length = MAX_FDS_OUT) : Ahead packets (calls ++ [call]) := by
  intro sent hsent
  have hle := h sent hsent
  rw [handedBytes_append, handedFds_append, List.length_append, List.length_append]
  cases hone with
  | inl hnothing => simpa [hnothing] using hle
  | inr hbyte =>
    rw [hbyte.1, hbyte.2]
    simp only [MAX_FDS_OUT] at hle ⊢
    omega

namespace Queues

theorem sentOnce (h : Queues packets pending e) (hs : SentOnce e e' call) : Queues packets pending e' := by
  have hbytes : handedBytes e'.calls ++ e'.connection.out.contents = bytesOf packets := by
    rw [hs.calls, handedBytes_append, List.append_assoc, hs.bytes, h.bytes]
  have hfds : handedFds e'.calls ++ e'.connection.fdsOut.contents = fdsOf packets ++ pending := by
    rw [hs.calls, handedFds_append, List.append_assoc, hs.fds, h.fds]
  constructor
  case valid => exact hs.valid
  case bytes => exact hbytes
  case fds => exact hfds
  case limit =>
    rw [hs.calls]
    exact List.forall_mem_append.mpr ⟨h.limit, List.forall_mem_singleton.mpr hs.limit⟩
  case closed => rw [hs.closed, hs.calls, handedFds_append, h.closed]
  case ahead =>
    intro calls hcalls
    rw [hs.calls, List.prefix_concat_iff] at hcalls
    cases hcalls with
    | inr hold => exact h.ahead calls hold
    | inl hnew =>
      subst hnew
      have hbefore := h.ahead e.calls (List.prefix_refl _)
      rcases hs.ahead with hnothing | hnone | hbyte
      · exact hbefore.sentOnce (.inl hnothing)
      · intro sent hsent
        rw [hnone, List.append_nil, hs.calls] at hfds
        rw [hfds, List.length_append]
        have := fdsOf_length_le hsent
        omega
      · exact hbefore.sentOnce (.inr hbyte)

theorem congr (h : Queues packets pending e) (hv : e'.connection.Valid)
    (ho : e'.connection.out.contents = e.connection.out.contents)
    (hf : e'.connection.fdsOut.contents = e.connection.fdsOut.contents) (hc : e'.calls = e.calls)
    (hd : e'.closed = e.closed) : Queues packets pending e' where
  valid  := hv
  bytes  := by rw [hc, ho, h.bytes]
  fds    := by rw [hc, hf, h.fds]
  limit  := hc ▸ h.limit
  closed := by rw [hc, hd, h.closed]
  ahead  := hc ▸ h.ahead

theorem flushLoop (h : Queues packets pending e) (socket : Socket) : Queues packets pending (e.flushLoop socket).1 := by
  induction e using Endpoint.flushLoop.induct socket with
  | case1 e hzero =>
    rw [Endpoint.flushLoop, dif_pos hzero]
    exact h
  | case2 e hne e' len hsent ih =>
    have ⟨call, hs⟩ := sendOnce_spec socket h.valid hne
    rw [Endpoint.flushLoop, dif_neg hne]
    split
    case h_1 e'' _ he =>
      cases hsent.symm.trans he
      exact ih (h.sentOnce (hsent ▸ hs))
    case h_2 he => cases hsent.symm.trans he
  | case3 e hne e' hfailed =>
    have ⟨call, hs⟩ := sendOnce_spec socket h.valid hne
    rw [Endpoint.flushLoop, dif_neg hne]
    split
    case h_1 he => cases hfailed.symm.trans he
    case h_2 e'' he =>
      cases hfailed.symm.trans he
      exact h.sentOnce (hfailed ▸ hs)

theorem wantFlush (h : Queues packets pending e) (want : Bool) :
    Queues packets pending { e with connection.wantFlush := want } :=
  h.congr ⟨h.valid.input, h.valid.out, h.valid.fdsIn, h.valid.fdsOut⟩ rfl rfl rfl rfl

theorem flush (h : Queues packets pending e) (socket : Socket) : Queues packets pending (e.flush socket).1 := by
  have hloop := h.flushLoop socket
  rw [Endpoint.flush]
  split
  case isTrue =>
    generalize e.flushLoop socket = flushed at hloop
    have ⟨e', finished⟩ := flushed
    cases finished with
    | true => exact hloop.wantFlush false
    | false => exact hloop
  case isFalse => exact h

theorem flushFirst (h : Queues packets pending e) : Queues packets pending (e.flushFirst socket).1 :=
  (h.wantFlush true).flush socket

-- Another packet is behind with no more descriptors than its bytes can carry.
theorem append {out : RingBuffer Byte} (h : Queues packets pending e) (hv : out.Valid)
    (ho : out.contents = e.connection.out.contents ++ bytes) (hp : pending.length ≤ MAX_FDS_OUT * bytes.length) :
    Queues (packets ++ [{ bytes, fds := pending }]) [] { e with connection.out := out } := by
  constructor
  case valid => exact ⟨h.valid.input, hv, h.valid.fdsIn, h.valid.fdsOut⟩
  case bytes => simp [ho, ← List.append_assoc, h.bytes, bytesOf]
  case fds => simp [h.fds, fdsOf]
  case limit => exact h.limit
  case closed => exact h.closed
  case ahead =>
    intro calls hcalls sent hsent
    rw [List.prefix_concat_iff] at hsent
    cases hsent with
    | inr hold => exact h.ahead calls hcalls sent hold
    | inl hnew =>
      have hbefore := h.ahead calls hcalls packets (List.prefix_refl _)
      have hhanded : (handedBytes calls).length ≤ (bytesOf packets).length := by
        rw [← h.bytes, List.length_append]
        exact (hcalls.flatMap SendCall.handedBytes).length_le.trans (Nat.le_add_right ..)
      simp only [hnew, fdsOf, bytesOf, List.flatMap_append, List.flatMap_singleton, List.length_append] at hbefore hhanded ⊢
      simp only [MAX_FDS_OUT] at hbefore hp ⊢
      omega

theorem queueBytes (h : Queues packets pending e) (hr : e.queueBytes socket bytes = (e', result)) (hok : 0 ≤ result) :
    Queued packets pending bytes e' := by
  rw [Endpoint.queueBytes] at hr
  generalize hfirst : (if WL_BUFFER_DEFAULT_MAX_SIZE < e.connection.out.size + bytes.length then e.flushFirst socket
    else (e, true)) = first at hr
  have hflushed : Queues packets pending first.1 := by
    rw [← hfirst]
    split
    case isTrue => exact h.flushFirst
    case isFalse => exact h
  have ⟨e₁, ok⟩ := first
  dsimp only at hr hflushed
  split at hr
  case isFalse => cases hr; cases hok
  case isTrue =>
    split at hr
    case h_1 => cases hr; cases hok
    case h_2 out hspace =>
      cases hr
      have hmul : bytes.length * Element.size Byte = bytes.length := Nat.mul_one _
      have ⟨hvalid, hcontents⟩ := hflushed.valid.out.ensureSpace_put (hmul.symm ▸ hspace)
      refine ⟨?_, hflushed.fds, hflushed.append hvalid hcontents⟩
      rw [hcontents, ← List.append_assoc, hflushed.bytes]

theorem write (h : Queues packets pending e) (hr : e.write socket bytes = (e', result)) (hok : 0 ≤ result) :
    Queued packets pending bytes e' := by
  rw [Endpoint.write] at hr
  generalize hq : e.queueBytes socket bytes = queued at hr
  have ⟨e₁, result₁⟩ := queued
  dsimp only at hr
  split at hr
  case isTrue => cases hr; cases hok
  case isFalse hle =>
    cases hr
    have ⟨hbytes, hfds, hqueues⟩ := h.queueBytes hq (Int.not_lt.mp hle)
    exact ⟨hbytes, hfds, fun hp => (hqueues hp).wantFlush true⟩

theorem putFd (h : Queues packets pending e) (hr : e.putFd socket fd = (e', 0)) :
    Queues packets (pending ++ [fd]) e' := by
  rw [Endpoint.putFd] at hr
  generalize hfirst : (if MAX_FDS_OUT * 4 ≤ e.connection.fdsOut.size then e.flushFirst socket else (e, true)) = first at hr
  have hflushed : Queues packets pending first.1 := by
    rw [← hfirst]
    split
    case isTrue => exact h.flushFirst
    case isFalse => exact h
  have ⟨e₁, ok⟩ := first
  dsimp only at hr hflushed
  split at hr
  case isFalse => cases hr
  case isTrue =>
    split at hr
    case h_1 => cases hr
    case h_2 fdsOut hspace =>
      cases hr
      have ⟨hvalid, hcontents⟩ : (fdsOut.put [fd]).Valid ∧ (fdsOut.put [fd]).contents = _ ++ [fd] :=
        hflushed.valid.fdsOut.ensureSpace_put hspace
      have hv := hflushed.valid
      constructor
      case valid => exact ⟨hv.input, hv.out, hv.fdsIn, hvalid⟩
      case bytes => exact hflushed.bytes
      case fds => rw [hcontents, ← List.append_assoc, hflushed.fds, List.append_assoc]
      case limit => exact hflushed.limit
      case closed => exact hflushed.closed
      case ahead => exact hflushed.ahead

theorem copyFds {fds : List Fd} (h : Queues packets pending e) (hr : e.copyFds socket fds = (e', 0)) :
    Queues packets (pending ++ fds) e' := by
  induction fds generalizing e pending
  case nil =>
    cases hr
    rwa [List.append_nil]
  case cons fd fds ih =>
    rw [Endpoint.copyFds] at hr
    generalize hput : e.putFd socket fd = put at hr
    have ⟨e₁, result⟩ := put
    dsimp only at hr
    split at hr
    case isFalse => cases hr
    case isTrue hzero =>
      subst hzero
      have := ih (h.putFd hput) hr
      rwa [List.append_assoc] at this

-- The bytes that a call transmits are a prefix of the buffer.
theorem transmit {closure : Closure} {memory : ℕ → Byte} {transfer : Endpoint → List Byte → Endpoint × ℤ}
    (h : Queues packets pending e)
    (ht : ∀ {e e' bytes result pending}, Queues packets pending e → transfer e bytes = (e', result) → 0 ≤ result →
      Queued packets pending bytes e')
    (hr : e.transmit socket closure memory transfer = (e', result)) (hok : 0 ≤ result) :
    ∃ buffer size, closure.serialize memory closure.bufferSize = some (buffer, size) ∧ 0 ≤ size ∧
      Queued packets (pending ++ closure.fds) (buffer.take size.toNat) e' := by
  rw [Endpoint.transmit] at hr
  generalize hcopy : e.copyFds socket closure.fds = copied at hr
  have ⟨e₁, result₁⟩ := copied
  dsimp only at hr
  split at hr
  case isFalse => cases hr; cases hok
  case isTrue hzero =>
    subst hzero
    split at hr
    case h_1 => cases hr; cases hok
    case h_2 buffer size hserialize =>
      split at hr
      case isTrue => cases hr; cases hok
      case isFalse hle =>
        exact ⟨buffer, size, hserialize, Int.not_lt.mp hle, ht (h.copyFds hcopy) hr hok⟩

end Queues

end Libwayland
