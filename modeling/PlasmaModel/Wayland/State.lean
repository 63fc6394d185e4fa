import Mathlib.Logic.Function.Basic
import PlasmaModel.Lib.Fallible

namespace KWin

-- Objects are named by numbers which are never used again. A committed transaction is named by the
-- number of its commit, so a smaller number means an earlier commit.
abbrev SurfaceId := Nat
abbrev SubSurfaceId := Nat
abbrev TransactionId := Nat
abbrev BufferId := Nat
abbrev ExtensionId := Nat

-- What the program may run into instead of a next state: a pointer to an object that is gone, `apply()` of a
-- transaction inside its own `apply()` (which deletes it), or an endless loop.
inductive Fault
  | nullSurface (surface : SurfaceId)
  | nullTransaction
  | deletedSubSurface (subsurface : SubSurfaceId)
  | deletedTransaction (transaction : TransactionId)
  | appliedAgain (transaction : TransactionId)
  | nonTermination

inductive SurfaceRole
  | subSurface
  | other (name : Nat)
deriving DecidableEq

inductive Mode
  | synchronized
  | desynchronized
deriving DecidableEq

structure SurfaceState where
  -- The flag `Field::Buffer` of `committed`.
  committedBuffer           : Bool := false
  buffer                    : Option BufferId := none
  fifoBarrier               : Bool := false
  hasFifoWaitCondition      : Bool := false
  mainSurfaceRoleGeneration : UInt32 := 0
  below                     : List SubSurfaceId := []
  above                     : List SubSurfaceId := []
  -- The keys of the extension map.
  extensions                : List ExtensionId := []
  -- History: the number of the wl_surface.commit request which committed this state last.
  serial                    : Nat := 0
deriving Inhabited

structure TransactionEntry where
  -- Stands for a `QPointer`, which is null as soon as the surface does not exist any more.
  surface             : SurfaceId
  previousTransaction : Option TransactionId := none
  nextTransaction     : Option TransactionId := none
  state               : SurfaceState
  -- A fence is `true` while it is waiting.
  fences              : List Bool := []
deriving Inhabited

structure Transaction where
  entries : List TransactionEntry

structure Surface where
  role                      : Option SurfaceRole := none
  mainSurfaceRoleGeneration : UInt32 := 0
  current                   : SurfaceState := {}
  pending                   : SurfaceState := {}
  mapped                    : Bool := false
  firstTransaction          : Option TransactionId := none
  lastTransaction           : Option TransactionId := none
  handle                    : Option SubSurfaceId := none
  -- The entries of `subsurface.transaction`, which is not committed yet.
  cached                    : Option (List TransactionEntry) := none
  tearingDown               : Bool := false
  clientTearingDown         : Bool := false
deriving Inhabited

structure SubSurface where
  surface : SurfaceId
  parent  : SurfaceId
  mode    : Mode := .synchronized
deriving DecidableEq, Inhabited

-- History: the state of an entry has been applied to its surface.
structure Applied where
  transaction : TransactionId
  surface     : SurfaceId
  serial      : Nat

structure State where
  surfaces        : SurfaceId → Option Surface := fun _ => none
  subSurfaces     : SubSurfaceId → Option SubSurface := fun _ => none
  -- The surfaces of the extensions which are registered.
  extensions      : ExtensionId → Option SurfaceId := fun _ => none
  -- The committed transactions which have not been deleted yet.
  transactions    : TransactionId → Option Transaction := fun _ => none
  nextSurface     : SurfaceId := 0
  nextSubSurface  : SubSurfaceId := 0
  nextExtension   : ExtensionId := 0
  nextTransaction : TransactionId := 0
  nextSerial      : Nat := 1
  -- The transactions whose `apply()` is on the call stack, the innermost one first.
  applying        : List TransactionId := []
  -- History, the latest application first.
  log             : List Applied := []

-- What is up to the kernel and the standard library: how `std::sort` permutes its range, and how many fences the i-th
-- entry of a transaction gets because a file descriptor of its buffer is not readable yet.
structure Environment where
  sort      : State → List TransactionEntry → List TransactionEntry
  sort_perm : ∀ s entries, (sort s entries).Perm entries
  watch     : TransactionId → Nat → Nat

namespace SurfaceState

def children (state : SurfaceState) : List SubSurfaceId :=
  state.below ++ state.above

def mergeInto (state target : SurfaceState) : SurfaceState where
  committedBuffer           := target.committedBuffer || state.committedBuffer
  buffer                    := if state.committedBuffer then state.buffer else target.buffer
  fifoBarrier               := target.fifoBarrier || state.fifoBarrier
  hasFifoWaitCondition      := state.hasFifoWaitCondition
  mainSurfaceRoleGeneration := state.mainSurfaceRoleGeneration
  below                     := state.below
  above                     := state.above
  extensions                := state.extensions
  serial                    := state.serial

-- What `mergeInto` leaves of its source.
def merged (state : SurfaceState) : SurfaceState :=
  { state with committedBuffer := false, fifoBarrier := false, hasFifoWaitCondition := false }

def removeChild (state : SurfaceState) (child : SubSurfaceId) : SurfaceState :=
  { state with below := state.below.erase child, above := state.above.erase child }

def removeAllChild (state : SurfaceState) (child : SubSurfaceId) : SurfaceState :=
  { state with below := state.below.filter (· ≠ child), above := state.above.filter (· ≠ child) }

def addChild (state : SurfaceState) (child : SubSurfaceId) : SurfaceState :=
  { state with above := state.above ++ [child] }

def eraseExtension (state : SurfaceState) (extension : ExtensionId) : SurfaceState :=
  { state with extensions := state.extensions.filter (· ≠ extension) }

end SurfaceState

namespace TransactionEntry

def amend (surface : SurfaceId) (mutator : SurfaceState → SurfaceState) (entry : TransactionEntry) :
    TransactionEntry :=
  if entry.surface = surface then { entry with state := mutator entry.state } else entry

end TransactionEntry

namespace State

def surface (s : State) (x : SurfaceId) : Except Fault Surface :=
  (s.surfaces x).elim (.error (.nullSurface x)) .ok

def subSurface (s : State) (e : SubSurfaceId) : Except Fault SubSurface :=
  (s.subSurfaces e).elim (.error (.deletedSubSurface e)) .ok

def transaction (s : State) (t : TransactionId) : Except Fault Transaction :=
  (s.transactions t).elim (.error (.deletedTransaction t)) .ok

def setSurface (s : State) (x : SurfaceId) (surface : Surface) : State :=
  { s with surfaces := Function.update s.surfaces x (some surface) }

def modifySurface (s : State) (x : SurfaceId) (f : Surface → Surface) : State :=
  { s with surfaces := Function.update s.surfaces x ((s.surfaces x).map f) }

def setEntries (s : State) (t : TransactionId) (entries : List TransactionEntry) : State :=
  { s with transactions := Function.update s.transactions t (some ⟨entries⟩) }

def modifyEntries (s : State) (t : TransactionId)
    (f : List TransactionEntry → List TransactionEntry) : State :=
  { s with transactions := Function.update s.transactions t ((s.transactions t).map (⟨f ·.entries⟩)) }

def entry (s : State) (t : TransactionId) (i : Nat) : Except Fault TransactionEntry := do
  let transaction ← s.transaction t
  (transaction.entries[i]?).elim (.error (.deletedTransaction t)) .ok

def isDiscarded (s : State) (entry : TransactionEntry) : Bool :=
  (s.surfaces entry.surface).elim true fun surface => surface.tearingDown || surface.clientTearingDown

-- More steps than there are subsurfaces mean that the walk has entered a cycle.
def mainSurfaceWalk (s : State) : Nat → SubSurfaceId → Except Fault (Option SurfaceId)
  | 0, _ => .error .nonTermination
  | fuel + 1, e => do
    let sub ← s.subSurface e
    match s.surfaces sub.parent with
    | none => return none
    | some parent =>
      match parent.handle with
      | some handle => mainSurfaceWalk s fuel handle
      | none => return some sub.parent

def mainSurface (s : State) (e : SubSurfaceId) : Except Fault (Option SurfaceId) :=
  s.mainSurfaceWalk (s.nextSubSurface + 1) e

def isSynchronizedWalk (s : State) : Nat → SubSurfaceId → Except Fault Bool
  | 0, _ => .error .nonTermination
  | fuel + 1, e => do
    let sub ← s.subSurface e
    if sub.mode = .synchronized then
      return true
    else
      match s.surfaces sub.parent with
      | none => return false
      | some parent =>
        match parent.handle with
        | some handle => isSynchronizedWalk s fuel handle
        | none => return false

def isSynchronized (s : State) (e : SubSurfaceId) : Except Fault Bool :=
  s.isSynchronizedWalk (s.nextSubSurface + 1) e

def isAncestorWalk (s : State) (ancestor : SurfaceId) : Nat → SurfaceId → Except Fault Bool
  | 0, _ => .error .nonTermination
  | fuel + 1, candidate =>
    match s.surfaces candidate with
    | none => return false
    | some surface =>
      match surface.handle with
      | none => return false
      | some handle => do
        let sub ← s.subSurface handle
        if (s.surfaces sub.parent).isSome && sub.parent = ancestor then
          return true
        else
          isAncestorWalk s ancestor fuel sub.parent

def isAncestor (s : State) (surface ancestor : SurfaceId) : Except Fault Bool :=
  s.isAncestorWalk ancestor (s.nextSubSurface + 2) surface

-- The main surface of a subsurface is itself no subsurface, so the recursive call of the source
-- returns its own generation.
def mainSurfaceRoleGeneration (s : State) (x : SurfaceId) : Except Fault UInt32 := do
  let surface ← s.surface x
  match surface.handle with
  | none => return surface.mainSurfaceRoleGeneration
  | some handle =>
    match ← s.mainSurface handle with
    | none => return 0
    | some main =>
      let main ← s.surface main
      return main.mainSurfaceRoleGeneration

def hasFifoBarrier (s : State) (x : SurfaceId) : Except Fault Bool := do
  let surface ← s.surface x
  return surface.current.fifoBarrier

end State
end KWin

namespace KWin.State

def computeEffectiveMapped (s : State) (surface : Surface) : Except Fault Bool :=
  if surface.current.buffer.isNone then
    return false
  else
    match surface.handle with
    | none => return true
    | some handle => do
      let sub ← s.subSurface handle
      return (s.surfaces sub.parent).elim false (·.mapped)

-- A surface is visited again only if it has changed since, which it can do only once, so there are
-- never more nested calls than surfaces.
def updateEffectiveMappedFrom : Nat → State → SurfaceId → Except Fault State
  | 0, _, _ => .error .nonTermination
  | fuel + 1, s, x => do
    let surface ← s.surface x
    let effectiveMapped ← s.computeEffectiveMapped surface
    if surface.mapped = effectiveMapped then
      return s
    else
      let s := s.setSurface x { surface with mapped := effectiveMapped }
      surface.current.children.foldlM (fun s e => do
        let sub ← s.subSurface e
        updateEffectiveMappedFrom fuel s sub.surface) s

def updateEffectiveMapped (s : State) (x : SurfaceId) : Except Fault State :=
  updateEffectiveMappedFrom (s.nextSurface + 1) s x

def clearChildBarrier (s : State) (e : SubSurfaceId) : Except Fault State := do
  let sub ← s.subSurface e
  let child ← s.surface sub.surface
  return s.setSurface sub.surface { child with current := { child.current with fifoBarrier := false } }

-- An unmapped surface can't be presented, and a fifo barrier on it would never be cleared.
def clearBarriersOfUnmapped (s : State) (x : SurfaceId) : Except Fault State := do
  let surface ← s.surface x
  if surface.mapped then
    return s
  else
    let s := s.setSurface x { surface with current := { surface.current with fifoBarrier := false } }
    surface.current.children.foldlM clearChildBarrier s

-- Of the subsurfaces, only their position changes, which depends on nothing else.
def parentApplyState (s : State) (e : SubSurfaceId) : Except Fault State := do
  let _ ← s.subSurface e
  return s

def updateVisibility (s : State) (x : SurfaceId) (visibilityChanged : Bool) : Except Fault State :=
  if visibilityChanged then s.updateEffectiveMapped x else return s

def applyState (s : State) (x : SurfaceId) (next : SurfaceState) : Except Fault State := do
  let surface ← s.surface x
  let visibilityChanged := next.committedBuffer && surface.current.buffer.isSome ≠ next.buffer.isSome
  let s := s.setSurface x { surface with current := next.mergeInto surface.current }
  let s ← s.updateVisibility x visibilityChanged
  let s ← s.clearBarriersOfUnmapped x
  (next.mergeInto surface.current).children.foldlM parentApplyState s

end KWin.State
