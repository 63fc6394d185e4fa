import PlasmaModel.Libwayland.RingBuffer

-- The calls of methods as they are marshalled for the wire.
namespace Libwayland

def WL_CLOSURE_MAX_ARGS : ℕ :=
  20

inductive ArgType
  | int
  | uint
  | fixed
  | string
  | object
  | newId
  | array
  | fd
deriving DecidableEq

def ArgType.ofChar : Char → Option ArgType
  | 'i' => some int
  | 'u' => some uint
  | 'f' => some fixed
  | 's' => some string
  | 'o' => some object
  | 'n' => some newId
  | 'a' => some array
  | 'h' => some fd
  | _ => none

structure ArgumentDetails where
  type     : ArgType
  nullable : Bool

abbrev Signature := List Char

def getNextArgument.find (nullable : Bool) : Signature → Option (ArgumentDetails × Signature)
  | [] => none
  | c :: signature =>
    match ArgType.ofChar c with
    | some type => some ({ type, nullable }, signature)
    | none => find (nullable || c = '?') signature

-- The next argument and the rest of the signature.
def getNextArgument (signature : Signature) : Option (ArgumentDetails × Signature) :=
  getNextArgument.find false signature

def argCountForSignature (signature : Signature) : ℕ :=
  signature.countP fun c => (ArgType.ofChar c).isSome

def argumentDetails.collect : ℕ → Signature → List ArgumentDetails
  | 0, _ => []
  | count + 1, signature =>
    match getNextArgument signature with
    | some (details, signature) => details :: collect count signature
    | none => []

-- What the loops over the arguments of a signature see.
def argumentDetails (signature : Signature) : List ArgumentDetails :=
  argumentDetails.collect (argCountForSignature signature) signature

-- A string without the NUL that ends it.
structure CString where
  bytes   : List Byte
  nonzero : 0 ∉ bytes
deriving DecidableEq

abbrev ObjectId := UInt32

-- An object is known by its id. Where there is none the pointer is NULL.
inductive Argument
  | int (i : Int32)
  | uint (u : UInt32)
  | fixed (f : Int32)
  | string (s : Option CString)
  | object (o : Option ObjectId)
  | newId (o : Option ObjectId)
  | array (a : Option (List Byte))
  | fd (h : Fd)
deriving DecidableEq

def Argument.type : Argument → ArgType
  | int _    => .int
  | uint _   => .uint
  | fixed _  => .fixed
  | string _ => .string
  | object _ => .object
  | newId _  => .newId
  | array _  => .array
  | fd _     => .fd

-- The members of the unions that are set are those that the signature names.
def HasTypes (signature : Signature) (args : List Argument) : Prop :=
  args.map Argument.type = (argumentDetails signature).map ArgumentDetails.type

instance {signature : Signature} {args : List Argument} : Decidable (HasTypes signature args) :=
  inferInstanceAs (Decidable (_ = _))

structure Closure where
  signature : Signature
  senderId  : ObjectId
  opcode    : UInt32
  args      : List Argument
  typed     : HasTypes signature args
  bounded   : args.length ≤ WL_CLOSURE_MAX_ARGS

-- `dup` answers what `wl_os_dupfd_cloexec` returns for the descriptor at an argument, if it does not fail.
def marshalArg (dup : ℕ → Fd → Option Fd) (i : ℕ) (details : ArgumentDetails) : Argument → Option Argument
  | .string none => if details.nullable then some (.string none) else none
  | .object none => if details.nullable then some (.object none) else none
  | .newId none => none
  | .array none => none
  | .fd h => (dup i h).map .fd
  | arg => some arg

def marshalArgs (dup : ℕ → Fd → Option Fd) : ℕ → List ArgumentDetails → List Argument → Option (List Argument)
  | i, details :: others, arg :: args =>
    (marshalArg dup i details arg).bind fun arg => (marshalArgs dup (i + 1) others args).map (arg :: ·)
  | _, _, _ => some []

theorem type_marshalArg {dup : ℕ → Fd → Option Fd} {i : ℕ} {details : ArgumentDetails} {arg arg' : Argument}
    (h : marshalArg dup i details arg = some arg') : arg'.type = arg.type := by
  cases arg with
  | string s | object s | newId s | array s => cases s <;> simp_all [marshalArg]; try exact h.2 ▸ rfl
  | fd fd =>
    have ⟨_, _, he⟩ := Option.map_eq_some_iff.mp h
    exact he ▸ rfl
  | int | uint | fixed => cases h; rfl

theorem types_marshalArgs {dup : ℕ → Fd → Option Fd} {i : ℕ} {details : List ArgumentDetails} {args args' : List Argument}
    (hl : args.length = details.length) (h : marshalArgs dup i details args = some args') :
    args'.map Argument.type = args.map Argument.type := by
  induction details generalizing i args args'
  case nil =>
    cases List.length_eq_zero_iff.mp hl
    cases h
    rfl
  case cons details others ih =>
    cases args with
    | nil => cases hl
    | cons arg args =>
      have ⟨arg', harg, h⟩ := Option.bind_eq_some_iff.mp h
      have ⟨rest, hrest, he⟩ := Option.map_eq_some_iff.mp h
      subst he
      rw [List.map_cons, List.map_cons, type_marshalArg harg, ih (Nat.succ.inj hl) hrest]

theorem HasTypes.length_eq {signature : Signature} {args : List Argument} (h : HasTypes signature args) :
    args.length = (argumentDetails signature).length := by
  simpa using congrArg List.length h

theorem length_collect_le (count : ℕ) (signature : Signature) :
    (argumentDetails.collect count signature).length ≤ count := by
  induction count generalizing signature
  case zero => exact Nat.le_refl _
  case succ count ih =>
    rw [argumentDetails.collect]
    split
    case h_1 _ rest _ => exact Nat.succ_le_succ (ih rest)
    case h_2 => exact Nat.zero_le _

theorem length_eq_of_types {args args' : List Argument} (h : args'.map Argument.type = args.map Argument.type) :
    args'.length = args.length := by
  simpa using congrArg List.length h

-- Nothing if there are too many arguments, if one is NULL that must not be, or if a file descriptor cannot be copied.
def Closure.marshal (dup : ℕ → Fd → Option Fd) (senderId : ObjectId) (opcode : UInt32) (signature : Signature)
    (args : List Argument) (typed : HasTypes signature args) : Option Closure :=
  if hcount : WL_CLOSURE_MAX_ARGS < argCountForSignature signature then
    none
  else
    match h : marshalArgs dup 0 (argumentDetails signature) args with
    | none => none
    | some marshalled => some {
      signature, senderId, opcode
      args    := marshalled
      typed   := (types_marshalArgs typed.length_eq h).trans typed
      bounded := by
        rw [length_eq_of_types (types_marshalArgs typed.length_eq h), typed.length_eq]
        exact (length_collect_le ..).trans (not_lt.mp hcount) }

def divRoundup (n a : ℕ) : ℕ :=
  (n + (a - 1)) / a % 2 ^ 32

-- What `strlen(s) + 1` and `a->size` are as 32 bit integers.
def CString.size (s : CString) : ℕ :=
  (s.bytes.length + 1) % 2 ^ 32

def arraySize (a : List Byte) : ℕ :=
  a.length % 2 ^ 32

-- The signature of a closure lists the types of its arguments, so a switch over the types is a match on the arguments.
def Argument.bufferSize : Argument → ℕ
  | fd _ => 0
  | string (some s) => 1 + divRoundup s.size 4
  | array (some a) => 1 + divRoundup (arraySize a) 4
  | _ => 1

namespace Closure

def fds (closure : Closure) : List Fd :=
  closure.args.filterMap fun
    | .fd h => some h
    | _ => none

-- In words.
def bufferSize (closure : Closure) : ℕ :=
  (closure.args.foldl (fun size arg => (size + arg.bufferSize) % 2 ^ 32) 0 + 2) % 2 ^ 32

end Closure

-- The bytes of a word in memory, where the lowest is the first.
def word (w : UInt32) : List Byte :=
  [UInt8.ofNat w.toNat, UInt8.ofNat (w.toNat / 2 ^ 8), UInt8.ofNat (w.toNat / 2 ^ 16), UInt8.ofNat (w.toNat / 2 ^ 24)]

-- The bytes from an offset on as they were when the buffer was allocated.
def leftover (memory : ℕ → Byte) (offset count : ℕ) : List Byte :=
  (List.range count).map fun i => memory (offset + i)

-- A length and as many bytes, which are padded to whole words. `p` is where the length is.
def serializeBytes (memory : ℕ → Byte) (p endOfBuffer size : ℕ) (bytes : List Byte) : Option (List Byte) :=
  let words := divRoundup size 4
  if endOfBuffer - (p + 1) < words then
    none
  else
    some (word (UInt32.ofNat size) ++ bytes.take size ++ leftover memory (4 * (p + 1) + size) (4 * words - size))

-- What is written for an argument, from the word `p` on.
def serializeArg (memory : ℕ → Byte) (p endOfBuffer : ℕ) (arg : Argument) : Option (List Byte) :=
  if arg.type = .fd then
    some []
  else if endOfBuffer ≤ p then
    none
  else
    match arg with
    | .int i => some (word i.toUInt32)
    | .uint u => some (word u)
    | .fixed f => some (word f.toUInt32)
    | .string none => some (word 0)
    | .string (some s) => serializeBytes memory p endOfBuffer s.size (s.bytes ++ [0])
    | .object o => some (word (o.getD 0))
    | .newId o => some (word (o.getD 0))
    | .array none => some (word 0)
    | .array (some a) => serializeBytes memory p endOfBuffer (arraySize a) a
    | .fd _ => some []

def serializeArgs (memory : ℕ → Byte) (endOfBuffer : ℕ) : ℕ → List Argument → Option (List Byte)
  | _, [] => some []
  | p, arg :: args => do
    let bytes ← serializeArg memory p endOfBuffer arg
    let others ← serializeArgs memory endOfBuffer (p + bytes.length / 4) args
    return bytes ++ others

def toInt32 (n : ℕ) : ℤ :=
  Int.bmod n (2 ^ 32)

-- The buffer and how many bytes of it are to be written, or nothing if it overflows.
def Closure.serialize (closure : Closure) (memory : ℕ → Byte) (bufferCount : ℕ) : Option (List Byte × ℤ) :=
  if bufferCount < 2 then
    none
  else
    (serializeArgs memory bufferCount 2 closure.args).map fun args =>
      let size := (8 + args.length) % 2 ^ 32
      let header := UInt32.ofNat size <<< 16 ||| closure.opcode &&& 0x0000ffff
      (word closure.senderId ++ word header ++ args, toInt32 size)

end Libwayland
