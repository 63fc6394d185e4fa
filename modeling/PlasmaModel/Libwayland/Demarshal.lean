import Mathlib.Data.List.TakeWhile
import PlasmaModel.Libwayland.Connection

-- The messages that are read from the wire.
namespace Libwayland

def WL_SERVER_ID_START : ℕ :=
  0xff000000

def WL_MAP_MAX_OBJECTS : ℕ :=
  0x00f00000

inductive MapSide
  | server
  | client
deriving DecidableEq

-- The entries are the words that are stored for the objects, where 0 is NULL.
structure WlMap where
  side          : MapSide
  clientEntries : List ℕ := []
  serverEntries : List ℕ := []
  freeList      : ℕ := 0

namespace WlMap

def reserveEntry (entries : List ℕ) (i : ℕ) : Option (List ℕ) :=
  if WL_MAP_MAX_OBJECTS < i then
    none
  else
    match entries[i]? with
    | none => if entries.length < i then none else some (entries ++ [0])
    | some data => if data ≠ 0 then none else some entries

def reserveNew (map : WlMap) (id : ObjectId) : Option WlMap :=
  if id.toNat < WL_SERVER_ID_START then
    if map.side = .client then
      none
    else
      (reserveEntry map.clientEntries id.toNat).map fun clientEntries => { map with clientEntries }
  else
    if map.side = .server then
      none
    else
      (reserveEntry map.serverEntries (id.toNat - WL_SERVER_ID_START)).map fun serverEntries =>
        { map with serverEntries }

end WlMap

-- The word at the start of some bytes.
def readWord (bytes : List Byte) : UInt32 :=
  UInt32.ofNat ((bytes.getD 0 0).toNat + (bytes.getD 1 0).toNat * 2 ^ 8 + (bytes.getD 2 0).toNat * 2 ^ 16 +
    (bytes.getD 3 0).toNat * 2 ^ 24)

-- The string that a pointer to the bytes points at.
def readString (bytes : List Byte) : CString where
  bytes   := bytes.takeWhile (· ≠ 0)
  nonzero := fun h => by simpa using List.mem_takeWhile_imp h

-- `rest` are the bytes from `p` up to `end`.
structure Reader where
  rest    : List Byte
  fdsIn   : RingBuffer Fd
  objects : WlMap

namespace Reader

variable (r : Reader)

def skip (count : ℕ) : Reader :=
  { r with rest := r.rest.drop count }

def demarshalString (nullable : Bool) : Reader × Option Argument :=
  let length := (readWord r.rest).toNat
  let r := r.skip 4
  if length = 0 then
    (r, if nullable then some (.string none) else none)
  else
    let words := divRoundup length 4
    if r.rest.length / 4 < words then
      (r, none)
    else if r.rest.getD (length - 1) 0 ≠ 0 then
      (r, none)
    else if (readString r.rest).bytes.length ≠ length - 1 then
      (r, none)
    else
      (r.skip (4 * words), some (.string (some (readString r.rest))))

def demarshalArray : Reader × Option Argument :=
  let length := (readWord r.rest).toNat
  let r := r.skip 4
  let words := divRoundup length 4
  if r.rest.length / 4 < words then
    (r, none)
  else
    (r.skip (4 * words), some (.array (some (r.rest.take length))))

def demarshalNewId : Reader × Option Argument :=
  let id := readWord r.rest
  let r := r.skip 4
  if id = 0 then
    (r, none)
  else
    match r.objects.reserveNew id with
    | none => (r, none)
    | some objects => ({ r with objects }, some (.newId (some id)))

def demarshalObject (nullable : Bool) : Reader × Option Argument :=
  let id := readWord r.rest
  let r := r.skip 4
  if id = 0 then (r, if nullable then some (.object none) else none) else (r, some (.object (some id)))

def demarshalFd : Reader × Option Argument :=
  if r.fdsIn.tail = r.fdsIn.head then
    (r, none)
  else
    ({ r with fdsIn := { r.fdsIn with tail := r.fdsIn.tail + 1 } }, (r.fdsIn.copy 1).head?.map .fd)

def demarshalArg (details : ArgumentDetails) : Reader × Option Argument :=
  if details.type ≠ .fd ∧ r.rest = [] then
    (r, none)
  else
    match details.type with
    | .uint => (r.skip 4, some (.uint (readWord r.rest)))
    | .int => (r.skip 4, some (.int (readWord r.rest).toInt32))
    | .fixed => (r.skip 4, some (.fixed (readWord r.rest).toInt32))
    | .string => r.demarshalString details.nullable
    | .object => r.demarshalObject details.nullable
    | .newId => r.demarshalNewId
    | .array => r.demarshalArray
    | .fd => r.demarshalFd

def demarshalArgs (r : Reader) : List ArgumentDetails → Reader × Option (List Argument)
  | [] => (r, some [])
  | details :: others =>
    match r.demarshalArg details with
    | (r, none) => (r, none)
    | (r, some arg) =>
      let (r, args) := r.demarshalArgs others
      (r, args.map (arg :: ·))

theorem type_demarshalArg {r r' : Reader} {details : ArgumentDetails} {arg : Argument}
    (h : r.demarshalArg details = (r', some arg)) : arg.type = details.type := by
  have ⟨type, nullable⟩ := details
  rw [demarshalArg] at h
  split at h
  case isTrue => cases h
  case isFalse =>
    cases type
    case uint | int | fixed => cases h; rfl
    case string =>
      simp only [demarshalString] at h
      repeat' split at h
      all_goals cases h
      all_goals rfl
    case object =>
      simp only [demarshalObject] at h
      repeat' split at h
      all_goals cases h
      all_goals rfl
    case newId =>
      simp only [demarshalNewId] at h
      repeat' split at h
      all_goals cases h
      rfl
    case array =>
      simp only [demarshalArray] at h
      split at h
      all_goals cases h
      rfl
    case fd =>
      simp only [demarshalFd] at h
      split at h
      case isTrue => cases h
      case isFalse =>
        have ⟨fd, _, he⟩ := Option.map_eq_some_iff.mp (Prod.mk.inj h).2
        exact he ▸ rfl

theorem types_demarshalArgs {r r' : Reader} {details : List ArgumentDetails} {args : List Argument}
    (h : r.demarshalArgs details = (r', some args)) :
    args.map Argument.type = details.map ArgumentDetails.type := by
  induction details generalizing r args
  case nil => cases h; rfl
  case cons details others ih =>
    rw [demarshalArgs] at h
    split at h
    case h_1 => cases h
    case h_2 r₁ arg harg =>
      have ⟨rest, hrest, he⟩ := Option.map_eq_some_iff.mp (Prod.mk.inj h).2
      subst he
      have hargs : r₁.demarshalArgs others = (r', some rest) := Prod.ext (Prod.mk.inj h).1 hrest
      rw [List.map_cons, List.map_cons, type_demarshalArg harg, ih hargs]

end Reader

namespace Connection

def consume (connection : Connection) (size : ℕ) : Connection :=
  { connection with input.tail := connection.input.tail + size }

-- The closure is lost if the message is not well formed, and the message is consumed.
def demarshal (connection : Connection) (size : ℕ) (objects : WlMap) (signature : Signature) :
    Connection × WlMap × Option Closure :=
  if size < 8 then
    (connection.consume size, objects, none)
  else if hcount : WL_CLOSURE_MAX_ARGS < argCountForSignature signature then
    (connection.consume size, objects, none)
  else
    let message := connection.input.copy size
    let start : Reader :=
      { rest := (message.take (size / 4 * 4)).drop 8, fdsIn := connection.fdsIn, objects }
    match h : start.demarshalArgs (argumentDetails signature) with
    | (r, none) => ({ connection.consume size with fdsIn := r.fdsIn }, r.objects, none)
    | (r, some args) =>
      let closure : Closure := {
        signature, args
        senderId := readWord message
        opcode   := readWord (message.drop 4) &&& 0x0000ffff
        typed    := Reader.types_demarshalArgs h
        bounded  := by
          rw [HasTypes.length_eq (Reader.types_demarshalArgs h)]
          exact (length_collect_le ..).trans (not_lt.mp hcount) }
      ({ connection.consume size with fdsIn := r.fdsIn }, r.objects, some closure)

end Connection

end Libwayland
