import Mathlib.Algebra.Order.BigOperators.Group.List
import Mathlib.Algebra.Order.Group.Nat
import Mathlib.Tactic.NormNum
import PlasmaModel.Libwayland.Theorems.Flush

-- What the messages look like on the wire, without bounds on their sizes.
namespace Libwayland

-- What is sent with its length before it.
def Argument.data? : Argument → Option (List Byte)
  | string (some s) => some (s.bytes ++ [0])
  | array (some a) => some a
  | _ => none

def dataWords (data : List Byte) : ℕ :=
  (data.length + 3) / 4

def Argument.words (arg : Argument) : ℕ :=
  match arg.data? with
  | some data => 1 + dataWords data
  | none => if arg.type = .fd then 0 else 1

-- The word that is sent for an argument without data.
def Argument.value : Argument → UInt32
  | int i    => i.toUInt32
  | uint u   => u
  | fixed f  => f.toUInt32
  | object o => o.getD 0
  | newId o  => o.getD 0
  | _ => 0

-- `p` is the word where the argument starts.
def Argument.encode (memory : ℕ → Byte) (p : ℕ) (arg : Argument) : List Byte :=
  match arg.data? with
  | some data =>
    word (UInt32.ofNat data.length) ++ data ++
      leftover memory (4 * (p + 1) + data.length) (4 * dataWords data - data.length)
  | none => if arg.type = .fd then [] else word arg.value

def encodeArgs (memory : ℕ → Byte) : ℕ → List Argument → List Byte
  | _, [] => []
  | p, arg :: args => arg.encode memory p ++ encodeArgs memory (p + arg.words) args

def argsWords (args : List Argument) : ℕ :=
  (args.map Argument.words).sum

namespace Closure

def wireSize (closure : Closure) : ℕ :=
  4 * (2 + argsWords closure.args)

def header (closure : Closure) : UInt32 :=
  UInt32.ofNat closure.wireSize <<< 16 ||| closure.opcode &&& 0x0000ffff

def encode (closure : Closure) (memory : ℕ → Byte) : List Byte :=
  word closure.senderId ++ word closure.header ++ encodeArgs memory 2 closure.args

end Closure

variable {memory : ℕ → Byte} {p endOfBuffer : ℕ} {arg : Argument} {args : List Argument} {data : List Byte}

@[simp]
theorem length_word (w : UInt32) : (word w).length = 4 :=
  rfl

@[simp]
theorem length_leftover (offset count : ℕ) : (leftover memory offset count).length = count := by
  simp [leftover]

theorem length_le_dataWords (data : List Byte) : data.length ≤ 4 * dataWords data := by
  rw [dataWords]
  omega

theorem length_encodeArg : (arg.encode memory p).length = 4 * arg.words := by
  rw [Argument.encode, Argument.words]
  split
  case h_1 data _ =>
    have := length_le_dataWords data
    simp only [List.length_append, length_word, length_leftover]
    omega
  case h_2 =>
    split
    case isTrue => rfl
    case isFalse => rfl

theorem length_encodeArgs : (encodeArgs memory p args).length = 4 * argsWords args := by
  induction args generalizing p
  case nil => rfl
  case cons arg args ih =>
    rw [encodeArgs, List.length_append, length_encodeArg, ih, argsWords, argsWords, List.map_cons, List.sum_cons]
    exact (Nat.mul_add ..).symm

theorem length_encode {closure : Closure} : (closure.encode memory).length = closure.wireSize := by
  simp only [Closure.encode, Closure.wireSize, List.length_append, length_word, length_encodeArgs]
  omega

-- The sizes of the data are 32 bit integers.
def Argument.Fits (arg : Argument) : Prop :=
  ∀ data, arg.data? = some data → data.length < 2 ^ 32

theorem divRoundup_eq (h : data.length < 2 ^ 32) : divRoundup data.length 4 = dataWords data := by
  rw [divRoundup, dataWords, Nat.mod_eq_of_lt]
  omega

theorem serializeBytes_eq (h : data.length < 2 ^ 32) (hp : p + (1 + dataWords data) ≤ endOfBuffer) :
    serializeBytes memory p endOfBuffer data.length data = some (word (UInt32.ofNat data.length) ++ data ++
      leftover memory (4 * (p + 1) + data.length) (4 * dataWords data - data.length)) := by
  rw [serializeBytes, divRoundup_eq h, if_neg (by omega), List.take_length]

theorem CString.size_eq {s : CString} (h : (s.bytes ++ [0]).length < 2 ^ 32) : s.size = (s.bytes ++ [0]).length := by
  rw [List.length_append, List.length_singleton] at h ⊢
  exact Nat.mod_eq_of_lt h

theorem bufferSize_eq (h : arg.Fits) : arg.bufferSize = arg.words := by
  cases arg with
  | string s =>
    cases s with
    | none => rfl
    | some s =>
      have hfits := h _ rfl
      exact congrArg (1 + ·) (CString.size_eq hfits ▸ divRoundup_eq hfits)
  | array a =>
    cases a with
    | none => rfl
    | some a =>
      have hfits := h _ rfl
      have hsize : arraySize a = a.length := Nat.mod_eq_of_lt hfits
      exact congrArg (1 + ·) (hsize ▸ divRoundup_eq hfits)
  | int | uint | fixed | object | newId | fd => rfl

theorem serializeArg_eq (h : arg.Fits) (hp : p + arg.words ≤ endOfBuffer) :
    serializeArg memory p endOfBuffer arg = some (arg.encode memory p) := by
  by_cases hfd : arg.type = .fd
  case pos => cases arg <;> first | rfl | cases hfd
  case neg =>
    have hpos : 0 < arg.words := by
      rw [Argument.words]
      split
      case h_1 => omega
      case h_2 => rw [if_neg hfd]; exact Nat.one_pos
    unfold serializeArg
    rw [if_neg hfd, if_neg (by omega)]
    cases arg with
    | string s =>
      cases s with
      | none => rfl
      | some s =>
        have hfits := h _ rfl
        dsimp only
        rw [CString.size_eq hfits]
        exact serializeBytes_eq hfits hp
    | array a =>
      cases a with
      | none => rfl
      | some a =>
        have hfits := h _ rfl
        have hsize : arraySize a = a.length := Nat.mod_eq_of_lt hfits
        dsimp only
        rw [hsize]
        exact serializeBytes_eq hfits hp
    | int | uint | fixed | object | newId => rfl
    | fd => exact absurd rfl hfd

theorem serializeArgs_eq (h : ∀ arg ∈ args, arg.Fits) (hp : p + argsWords args ≤ endOfBuffer) :
    serializeArgs memory endOfBuffer p args = some (encodeArgs memory p args) := by
  induction args generalizing p
  case nil => rfl
  case cons arg args ih =>
    have ⟨harg, hargs⟩ := List.forall_mem_cons.mp h
    rw [argsWords, List.map_cons, List.sum_cons] at hp
    have hrest := ih hargs (p := p + arg.words) (by rw [argsWords]; omega)
    simp only [serializeArgs, serializeArg_eq harg (show p + arg.words ≤ endOfBuffer by omega), length_encodeArg,
      Nat.mul_div_cancel_left _ (show 0 < 4 by omega), hrest, Option.bind_eq_bind, Option.bind_some, Option.pure_def,
      encodeArgs]

theorem foldl_bufferSize (h : ∀ arg ∈ args, arg.Fits) (size : ℕ) :
    args.foldl (fun size arg => (size + arg.bufferSize) % 2 ^ 32) size % 2 ^ 32 = (size + argsWords args) % 2 ^ 32 := by
  induction args generalizing size
  case nil => rfl
  case cons arg args ih =>
    have ⟨harg, hargs⟩ := List.forall_mem_cons.mp h
    rw [List.foldl_cons, ih hargs, bufferSize_eq harg, argsWords, argsWords, List.map_cons, List.sum_cons]
    omega

theorem Closure.bufferSize_eq {closure : Closure} (h : ∀ arg ∈ closure.args, arg.Fits)
    (hw : 2 + argsWords closure.args < 2 ^ 32) : closure.bufferSize = 2 + argsWords closure.args := by
  have hfold := foldl_bufferSize h 0
  rw [Closure.bufferSize]
  omega

-- The sizes of the parts fit, but the size of the whole may not.
theorem Closure.serialize_eq {closure : Closure} (h : ∀ arg ∈ closure.args, arg.Fits)
    (hw : 2 + argsWords closure.args < 2 ^ 32) : closure.serialize memory closure.bufferSize =
      some (closure.encode memory, toInt32 (closure.wireSize % 2 ^ 32)) := by
  have hsize : (8 + 4 * argsWords closure.args) % 2 ^ 32 = closure.wireSize % 2 ^ 32 := by
    rw [wireSize]
    omega
  have hheader : UInt32.ofNat (closure.wireSize % 2 ^ 32) = UInt32.ofNat closure.wireSize := by
    refine UInt32.toNat_inj.mp ?_
    simp
  rw [serialize, bufferSize_eq h hw, if_neg (by omega), serializeArgs_eq h (Nat.le_refl _), Option.map_some,
    length_encodeArgs, hsize]
  dsimp only
  rw [hheader]
  rfl

theorem words_le_argsWords (h : arg ∈ args) : arg.words ≤ argsWords args :=
  List.single_le_sum (fun _ _ => Nat.zero_le _) _ (List.mem_map_of_mem h)

theorem Closure.fits_of_wireSize {closure : Closure} (h : closure.wireSize < 2 ^ 32) :
    ∀ arg ∈ closure.args, arg.Fits := by
  intro arg harg data hdata
  have hwords := words_le_argsWords harg
  have hlength := length_le_dataWords data
  rw [Argument.words, hdata] at hwords
  rw [wireSize] at h
  dsimp only at hwords
  omega

end Libwayland

-- The sending side of a connection as two queues.
namespace Libwayland

theorem toInt32_lt (n : ℕ) : toInt32 n < 2 ^ 31 :=
  Int.bmod_lt (by decide)

theorem bmod_eq {n m : ℕ} (hn : n < m) (h : 0 ≤ Int.bmod n m) : Int.bmod n m = n := by
  have hmod : (n : ℤ) % m = n := Int.emod_eq_of_lt (Int.natCast_nonneg n) (Int.ofNat_lt.mpr hn)
  rw [Int.bmod_def, hmod] at h ⊢
  split at h
  case isTrue hlt => rw [if_pos hlt]
  case isFalse => exact absurd (Int.sub_nonneg.mp h) (Int.not_le.mpr (Int.ofNat_lt.mpr hn))

theorem toInt32_eq {n : ℕ} (hn : n < 2 ^ 32) (h : 0 ≤ toInt32 n) : toInt32 n = n :=
  bmod_eq hn h

namespace Closure

variable {closure : Closure} {memory : ℕ → Byte} {buffer : List Byte} {size : ℤ}

theorem size_lt_of_serialize (h : closure.serialize memory closure.bufferSize = some (buffer, size)) : size < 2 ^ 31 := by
  rw [serialize] at h
  split at h
  case isTrue => cases h
  case isFalse =>
    obtain ⟨_, _, he⟩ := Option.map_eq_some_iff.mp h
    exact (Prod.mk.inj he).2 ▸ toInt32_lt _

-- A message that is shorter than 4 GiB is written as a whole if it is written at all.
theorem written_eq_encode (hw : closure.wireSize < 2 ^ 32) (hok : 0 ≤ size)
    (h : closure.serialize memory closure.bufferSize = some (buffer, size)) :
    buffer.take size.toNat = closure.encode memory := by
  have hwords : 2 + argsWords closure.args < 2 ^ 32 := by
    rw [wireSize] at hw
    omega
  rw [serialize_eq (fits_of_wireSize hw) hwords, Nat.mod_eq_of_lt hw] at h
  cases h
  have hsize := toInt32_eq hw hok
  rw [hsize, Int.toNat_natCast, ← @length_encode memory closure, List.take_length]

-- Otherwise the rest of it is lost.
theorem length_written_lt (hw : ¬closure.wireSize < 2 ^ 32)
    (h : closure.serialize memory closure.bufferSize = some (buffer, size)) :
    (buffer.take size.toNat).length < (closure.encode memory).length := by
  have hlt := size_lt_of_serialize h
  have hle : (buffer.take size.toNat).length ≤ size.toNat := List.length_take_le ..
  rw [length_encode]
  omega

theorem length_fds_le : closure.fds.length ≤ MAX_FDS_OUT * closure.wireSize := by
  have hfds : closure.fds.length ≤ closure.args.length := List.length_filterMap_le ..
  have hbounded := closure.bounded
  simp only [wireSize, MAX_FDS_OUT, WL_CLOSURE_MAX_ARGS] at hbounded ⊢
  omega

end Closure

def Connection.Holds (connection connection' : Connection) : Prop :=
  connection'.input.contents = connection.input.contents ∧ connection'.out.contents = connection.out.contents ∧
    connection'.fdsIn.contents = connection.fdsIn.contents ∧ connection'.fdsOut.contents = connection.fdsOut.contents

namespace Connection.Valid

variable {connection : Connection}

theorem setMaxBufferSize (h : connection.Valid) (maxBufferSize : ℕ) :
    (connection.setMaxBufferSize maxBufferSize).Valid ∧ connection.Holds (connection.setMaxBufferSize maxBufferSize) := by
  have ⟨hinput, hinputs⟩ := h.input.setMaxSizeBits maxBufferSize
  have ⟨hout, houts⟩ := h.out.setMaxSizeBits maxBufferSize
  have ⟨hfdsIn, hfdsIns⟩ := h.fdsIn.setMaxSizeBits maxBufferSize
  have ⟨hfdsOut, hfdsOuts⟩ := h.fdsOut.setMaxSizeBits maxBufferSize
  exact ⟨⟨hinput, hout, hfdsIn, hfdsOut⟩, hinputs, houts, hfdsIns, hfdsOuts⟩

theorem create (maxBufferSize : ℕ) : (Connection.create maxBufferSize).Valid ∧
    (Connection.create maxBufferSize).out.contents = [] ∧ (Connection.create maxBufferSize).fdsOut.contents = [] := by
  have hbytes := RingBuffer.setMaxSizeBits_empty (α := Byte) maxBufferSize
  have hfds := RingBuffer.setMaxSizeBits_empty (α := Fd) maxBufferSize
  exact ⟨⟨hbytes.1, hbytes.1, hfds.1, hfds.1⟩, hbytes.2, hfds.2⟩

end Connection.Valid

namespace Session

variable {socket : Socket} {s s' : Session} {event : Event}

def packets (s : Session) : List Packet :=
  s.accepted.map fun (closure, memory) => { bytes := closure.encode memory, fds := closure.fds }

-- The two queues with what has been taken from them: the messages, the limit of one call, buffers that keep what they
-- hold, and descriptors that are never later than the last bytes of their message.
structure Refines (s : Session) : Prop where
  bytes    : handedBytes s.endpoint.calls ++ s.endpoint.connection.out.contents = bytesOf s.packets
  fds      : handedFds s.endpoint.calls ++ s.endpoint.connection.fdsOut.contents = fdsOf s.packets
  limit    : ∀ call ∈ s.endpoint.calls, call.fds.length ≤ MAX_FDS_OUT
  closed   : s.endpoint.closed = handedFds s.endpoint.calls
  fits     : s.endpoint.connection.Valid
  survives : ∀ maxBufferSize, s.endpoint.connection.Holds (s.endpoint.connection.setMaxBufferSize maxBufferSize)
  grows    : (∀ n out, s.endpoint.connection.out.ensureSpace n = some out →
      out.contents = s.endpoint.connection.out.contents) ∧
    ∀ n fdsOut, s.endpoint.connection.fdsOut.ensureSpace n = some fdsOut →
      fdsOut.contents = s.endpoint.connection.fdsOut.contents
  timely   : ∀ calls sent, calls <+: s.endpoint.calls → sent <+: s.packets →
    (bytesOf sent).length ≤ (handedBytes calls).length → (fdsOf sent).length ≤ (handedFds calls).length

theorem refines_of_queues (h : Queues s.packets [] s.endpoint) : s.Refines where
  bytes    := h.bytes
  fds      := h.fds.trans (List.append_nil _)
  limit    := h.limit
  closed   := h.closed
  fits     := h.valid
  survives := fun maxBufferSize => (h.valid.setMaxBufferSize maxBufferSize).2
  grows    := ⟨fun _ _ he => (h.valid.out.ensureSpace he).2.1, fun _ _ he => (h.valid.fdsOut.ensureSpace he).2.1⟩
  timely   := by
    intro calls sent hcalls hsent hle
    have hahead := h.ahead calls hcalls sent hsent
    rwa [Nat.sub_eq_zero_of_le hle, Nat.mul_zero, Nat.add_zero] at hahead

end Session

def Event.wireSize : Event → ℕ
  | closureSend closure    => closure.wireSize
  | closureQueue closure _ => closure.wireSize
  | flush | setMaxBufferSize _ => 0

namespace Session

variable {socket : Socket} {s s' : Session} {event : Event}

-- A message that is accepted is on the wire as a whole if it is shorter than 4 GiB, and otherwise never.
theorem accept {closure : Closure} {memory : ℕ → Byte} {endpoint : Endpoint} {buffer : List Byte} {size : ℤ}
    (hserialize : closure.serialize memory closure.bufferSize = some (buffer, size)) (hok : 0 ≤ size)
    (hqueued : Queued s.packets closure.fds (buffer.take size.toNat) endpoint)
    (hs : s' = { endpoint, accepted := s.accepted ++ [(closure, memory)] }) :
    (s'.Refines ↔ closure.wireSize < 2 ^ 32) ∧ (closure.wireSize < 2 ^ 32 → Queues s'.packets [] s'.endpoint) := by
  have hpackets : s'.packets = s.packets ++ [{ bytes := closure.encode memory, fds := closure.fds }] := by
    simp [packets, hs]
  have hwhole (hw : closure.wireSize < 2 ^ 32) : Queues s'.packets [] s'.endpoint := by
    rw [hpackets, hs]
    rw [Closure.written_eq_encode hw hok hserialize] at hqueued
    exact hqueued.queues (length_encode.symm ▸ Closure.length_fds_le)
  refine ⟨⟨fun hrefines => ?_, fun hw => refines_of_queues (hwhole hw)⟩, hwhole⟩
  by_contra hw
  have hlost := Closure.length_written_lt hw hserialize
  have hlength := congrArg List.length (hqueued.bytes.symm.trans (hs ▸ hrefines.bytes))
  rw [← hs, hpackets] at hlength
  simp only [bytesOf, List.flatMap_append, List.flatMap_singleton, List.length_append] at hlength
  omega

theorem step_refines (h : Queues s.packets [] s.endpoint) (hs : step socket s event = some s') :
    (s'.Refines ↔ event.wireSize < 2 ^ 32) ∧ (event.wireSize < 2 ^ 32 → Queues s'.packets [] s'.endpoint) := by
  have hkept (hq : Queues s'.packets [] s'.endpoint) :
      (s'.Refines ↔ 0 < 2 ^ 32) ∧ (0 < 2 ^ 32 → Queues s'.packets [] s'.endpoint) :=
    ⟨iff_of_true (refines_of_queues hq) (by decide), fun _ => hq⟩
  cases event with
  | closureSend closure =>
    rw [step] at hs
    generalize hr : s.endpoint.closureSend socket closure = sent at hs
    have ⟨endpoint, result⟩ := sent
    dsimp only at hs
    split at hs
    case isTrue => cases hs
    case isFalse hok =>
      have ⟨_, _, hserialize, hsize, hqueued⟩ := h.transmit Queues.write hr (Int.not_lt.mp hok)
      exact accept hserialize hsize hqueued (Option.some.inj hs).symm
  | closureQueue closure memory =>
    rw [step] at hs
    generalize hr : s.endpoint.closureQueue socket closure memory = sent at hs
    have ⟨endpoint, result⟩ := sent
    dsimp only at hs
    split at hs
    case isTrue => cases hs
    case isFalse hok =>
      have ⟨_, _, hserialize, hsize, hqueued⟩ := h.transmit Queues.queueBytes hr (Int.not_lt.mp hok)
      exact accept hserialize hsize hqueued (Option.some.inj hs).symm
  | flush =>
    have hflushed := h.flush socket
    rw [step] at hs
    generalize s.endpoint.flush socket = flushed at hs hflushed
    have ⟨endpoint, result⟩ := flushed
    dsimp only at hs
    split at hs
    case isTrue => cases hs
    case isFalse =>
      cases hs
      exact hkept hflushed
  | setMaxBufferSize maxBufferSize =>
    cases hs
    have ⟨hvalid, hholds⟩ := h.valid.setMaxBufferSize maxBufferSize
    exact hkept (h.congr hvalid hholds.2.1 hholds.2.2.2 rfl rfl)

def start (maxBufferSize : ℕ) : Session :=
  { endpoint := { connection := .create maxBufferSize } }

theorem queues_start (maxBufferSize : ℕ) :
    Queues (start maxBufferSize).packets [] (start maxBufferSize).endpoint := by
  have ⟨hvalid, hout, hfdsOut⟩ := Connection.Valid.create maxBufferSize
  constructor
  case valid => exact hvalid
  case bytes => exact hout
  case fds => exact hfdsOut
  case limit => exact List.forall_mem_nil _
  case closed => rfl
  case ahead =>
    intro calls _ sent hsent
    have hnil : sent = [] := List.prefix_nil.mp hsent
    rw [hnil]
    exact Nat.zero_le _

theorem always_refines_iff (socket : Socket) (maxBufferSize : ℕ) (events : List Event) :
    Machine.Always (step socket) Refines (start maxBufferSize) events ↔
    Machine.EachStep (step socket) (fun _ event => event.wireSize < 2 ^ 32) (start maxBufferSize) events :=
  Machine.Always.iff_eachStep (queues_start maxBufferSize) refines_of_queues step_refines

def arrayMessage (a : List Byte) : Closure where
  signature := ['a']
  senderId  := 1
  opcode    := 0
  args      := [.array (some a)]
  typed     := rfl
  bounded   := Nat.le_add_left 1 19

theorem argsWords_arrayMessage (a : List Byte) : argsWords (arrayMessage a).args = 1 + dataWords a :=
  rfl

theorem fits_arrayMessage {a : List Byte} (ha : a.length < 2 ^ 32) : ∀ arg ∈ (arrayMessage a).args, arg.Fits := by
  intro arg harg data hdata
  cases List.mem_singleton.mp harg
  cases hdata
  exact ha

theorem write_nil {e : Endpoint} (socket : Socket) (he : e.connection.out.size = 0) :
    ∃ e', e.write socket [] = (e', 0) := by
  have hspace : ∃ out, e.connection.out.ensureSpace 0 = some out := by
    rw [RingBuffer.ensureSpace, he, if_neg (Nat.not_lt_zero _)]
    split
    case isTrue => exact ⟨_, rfl⟩
    case isFalse => exact ⟨_, rfl⟩
  obtain ⟨out, hout⟩ := hspace
  have hfirst : ¬WL_BUFFER_DEFAULT_MAX_SIZE < e.connection.out.size + 0 := by
    rw [he]
    exact Nat.not_lt_zero _
  have hqueue : e.queueBytes socket [] = ({ e with connection.out := out.put [] }, 0) := by
    simp only [Endpoint.queueBytes, List.length_nil, if_neg hfirst, if_true, hout]
  exact ⟨_, by rw [Endpoint.write, hqueue]; rfl⟩

def waitingSocket : Socket where
  sendmsg _ _ := .failed .EAGAIN
  partly _ h := nomatch h

-- Nothing is written of a message that takes 4 GiB.
theorem closureSend_arrayMessage {a : List Byte} (ha : a.length = 2 ^ 32 - 12) (maxBufferSize : ℕ) :
    (arrayMessage a).wireSize = 2 ^ 32 ∧ ∃ e, (start maxBufferSize).endpoint.closureSend waitingSocket (arrayMessage a) = (e, 0) := by
  have hwords : argsWords (arrayMessage a).args = 2 ^ 30 - 2 := by
    rw [argsWords_arrayMessage, dataWords, ha]
    norm_num
  have hwire : (arrayMessage a).wireSize = 2 ^ 32 := by
    rw [Closure.wireSize, hwords]
    norm_num
  have hserialize (memory : ℕ → Byte) : (arrayMessage a).serialize memory (arrayMessage a).bufferSize =
      some ((arrayMessage a).encode memory, 0) := by
    rw [Closure.serialize_eq (fits_arrayMessage (by omega)) (by omega), hwire, Nat.mod_self]
    rfl
  have hsize : (start maxBufferSize).endpoint.connection.out.size = 0 :=
    ((queues_start maxBufferSize).valid.out.contents_eq_nil).mp (Connection.Valid.create maxBufferSize).2.1
  have ⟨e, hwrite⟩ := write_nil waitingSocket hsize
  have hcopy : (start maxBufferSize).endpoint.copyFds waitingSocket (arrayMessage a).fds =
    ((start maxBufferSize).endpoint, 0) := rfl
  refine ⟨hwire, e, ?_⟩
  simp only [Endpoint.closureSend, Endpoint.transmit, hcopy, if_true, hserialize]
  exact hwrite

theorem not_always_refines : ¬Machine.Always (step waitingSocket) Refines (start 0)
    [.closureSend (arrayMessage (List.replicate (2 ^ 32 - 12) 0))] := by
  have ⟨hwire, e, hsend⟩ := closureSend_arrayMessage (List.length_replicate (a := (0 : Byte))) 0
  intro h
  have hstep : step waitingSocket (start 0) (.closureSend (arrayMessage (List.replicate (2 ^ 32 - 12) 0))) =
      some { endpoint := e, accepted := [(arrayMessage (List.replicate (2 ^ 32 - 12) 0), fun _ => 0)] } := by
    rw [step, hsend]
    rfl
  have hlt := (step_refines (queues_start 0) hstep).1.mp (h.2 _ hstep)
  exact absurd hwire (Nat.ne_of_lt hlt)

end Session

end Libwayland
