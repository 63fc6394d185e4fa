import Mathlib.Logic.Function.Basic
import PlasmaModel.Libwayland.Demarshal

-- The map from the ids of the objects to where they are. An entry is a pointer whose two lowest bits are free for the
-- flag, or, if its lowest bit is set, the link to the next free entry.
namespace Libwayland

abbrev Address := ℕ

def WL_MAP_ENTRY_ZOMBIE : ℕ :=
  1

def mapEntryIsFree (entry : ℕ) : Bool :=
  entry &&& 1 ≠ 0

def mapEntryGetData (entry : ℕ) : Address :=
  entry >>> 2 <<< 2

def mapEntryGetFlags (entry : ℕ) : ℕ :=
  entry >>> 1 &&& 1

def mapEntry (flags : ℕ) (data : Address) : ℕ :=
  data ||| (flags &&& 1) <<< 1

-- In whose entries an id is found, and where.
def ObjectId.side (id : ObjectId) : MapSide :=
  if id.toNat < WL_SERVER_ID_START then .client else .server

def MapSide.base : MapSide → ℕ
  | .client => 0
  | .server => WL_SERVER_ID_START

def ObjectId.index (id : ObjectId) : ℕ :=
  id.toNat - (ObjectId.side id).base

namespace WlMap

variable (map : WlMap)

def entries : MapSide → List ℕ
  | .client => map.clientEntries
  | .server => map.serverEntries

def setEntries (entries : List ℕ) : MapSide → WlMap
  | .client => { map with clientEntries := entries }
  | .server => { map with serverEntries := entries }

-- Answers 0 if there are too many objects. The entry that was added for the new one is then never used.
def insertNew (flags : ℕ) (data : Address) : WlMap × ObjectId :=
  let entries := map.entries map.side
  let (entries, freeList, count) :=
    if map.freeList ≠ 0 then
      (entries, entries.getD (map.freeList >>> 1) 0, map.freeList >>> 1)
    else
      (entries ++ [0], map.freeList, entries.length)
  let map := { map with freeList }
  if WL_MAP_MAX_OBJECTS < count then
    (map.setEntries (entries.set count 0) map.side, 0)
  else
    (map.setEntries (entries.set count (mapEntry flags data)) map.side, UInt32.ofNat (count + map.side.base))

def insertAt (flags : ℕ) (id : ObjectId) (data : Address) : Option WlMap :=
  let i := ObjectId.index id
  let entries := map.entries (ObjectId.side id)
  if WL_MAP_MAX_OBJECTS < i then
    none
  else if entries.length < i then
    none
  else
    let entries := if entries.length = i then entries ++ [0] else entries
    some (map.setEntries (entries.set i (mapEntry flags data)) (ObjectId.side id))

-- Only the ids that this side has given are free again.
def remove (id : ObjectId) : WlMap :=
  let i := ObjectId.index id
  if map.side ≠ ObjectId.side id then
    map
  else
    { map.setEntries ((map.entries map.side).set i map.freeList) map.side with freeList := i <<< 1 ||| 1 }

def lookup (id : ObjectId) : Address :=
  match (map.entries (ObjectId.side id))[ObjectId.index id]? with
  | some entry => if mapEntryIsFree entry then 0 else mapEntryGetData entry
  | none => 0

def lookupFlags (id : ObjectId) : ℕ :=
  match (map.entries (ObjectId.side id))[ObjectId.index id]? with
  | some entry => if mapEntryIsFree entry then 0 else mapEntryGetFlags entry
  | none => 0

def objectIsZombie (id : ObjectId) : Bool :=
  map.side = .client && ObjectId.side id = .client && map.lookupFlags id &&& WL_MAP_ENTRY_ZOMBIE ≠ 0

end WlMap

end Libwayland

-- The objects of a client as it sees them: its proxies, and what is left of those it has destroyed.
namespace Libwayland

-- The interface of an object that an event creates is known.
structure Message (Interface : Type) where
  signature : Signature
  types     : List (Option Interface)
  length    : types.length = (argumentDetails signature).length
  newIds    : ∀ entry ∈ (argumentDetails signature).zip types, entry.1.type = .newId → entry.2.isSome

-- The interfaces and their events.
structure Protocol (Interface : Type) where
  events        : Interface → List (Message Interface)
  display       : Interface
  displayEvents : (events display).map Message.signature = [['o', 'u', 's'], ['u']]

inductive EventQueue
  | display
  | default
  | other (n : ℕ)
deriving DecidableEq

structure Proxy (Interface : Type) where
  id        : ObjectId
  interface : Interface
  queue     : Option EventQueue
  listener  : Bool := false
  idDeleted : Bool := false
  destroyed : Bool := false

structure Zombie where
  eventCount : ℕ
  fdCount    : List ℕ

inductive Block (Interface : Type)
  | proxy (proxy : Proxy Interface)
  | zombie (zombie : Zombie)

-- Memory that is freed is not used again, so that the address of an object stands for it.
structure Objects (Interface : Type) where
  map       : WlMap
  heap      : Address → Option (Block Interface) := fun _ => none
  allocated : ℕ := 0

def messageCountFds (signature : Signature) : ℕ :=
  (argumentDetails signature).countP fun details => details.type = .fd

-- Nothing if no event carries file descriptors.
def prepareZombie {Interface : Type} (events : List (Message Interface)) : Option Zombie :=
  let fdCount := events.map fun message => messageCountFds message.signature
  if fdCount.all (· = 0) then none else some { eventCount := events.length, fdCount }

namespace Objects

variable {Interface : Type} (o : Objects Interface)

def proxyAt (address : Address) : Option (Proxy Interface) :=
  match o.heap address with
  | some (.proxy proxy) => some proxy
  | _ => none

def zombieAt (address : Address) : Option Zombie :=
  match o.heap address with
  | some (.zombie zombie) => some zombie
  | _ => none

-- The address of the next block, which is a multiple of 4 and not NULL.
def fresh : Address :=
  4 * (o.allocated + 1)

def alloc (block : Block Interface) : Objects Interface :=
  { o with heap := Function.update o.heap o.fresh (some block), allocated := o.allocated + 1 }

def setProxy (address : Address) (proxy : Proxy Interface) : Objects Interface :=
  { o with heap := Function.update o.heap address (some (.proxy proxy)) }

-- Answers NULL if there is no id for the proxy.
def proxyCreate (interface : Interface) (queue : Option EventQueue) : Objects Interface × Address :=
  let (map, id) := o.map.insertNew 0 o.fresh
  if id = 0 then
    ({ o with map }, 0)
  else
    ({ o.alloc (.proxy { id, interface, queue }) with map }, o.fresh)

def proxyCreateForId (interface : Interface) (queue : Option EventQueue) (id : ObjectId) :
    Option (Objects Interface) :=
  (o.map.insertAt 0 id o.fresh).map fun map => { o.alloc (.proxy { id, interface, queue }) with map }

-- Where the zombie of the proxy is after it has been made.
def zombify (events : List (Message Interface)) : Objects Interface × Address :=
  match prepareZombie events with
  | some zombie => (o.alloc (.zombie zombie), o.fresh)
  | none => (o, 0)

def proxyDestroy (protocol : Protocol Interface) (address : Address) (proxy : Proxy Interface) : Objects Interface :=
  let o :=
    if proxy.idDeleted then
      { o with map := o.map.remove proxy.id }
    else if proxy.id.toNat < WL_SERVER_ID_START then
      let (o, zombie) := o.zombify (protocol.events proxy.interface)
      { o with map := (o.map.insertAt WL_MAP_ENTRY_ZOMBIE proxy.id zombie).getD o.map }
    else
      { o with map := (o.map.insertAt 0 proxy.id 0).getD o.map }
  o.setProxy address { proxy with destroyed := true, queue := none }

-- This is `display_handle_delete_id`.
def handleDeleteId (id : ObjectId) : Objects Interface :=
  if o.map.objectIsZombie id then
    { o with map := o.map.remove id }
  else
    match o.proxyAt (o.map.lookup id) with
    | some proxy => o.setProxy (o.map.lookup id) { proxy with idDeleted := true }
    | none => o

end Objects

end Libwayland
