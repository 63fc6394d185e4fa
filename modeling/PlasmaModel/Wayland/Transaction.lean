import Mathlib.Data.List.Sort
import PlasmaModel.Wayland.State

namespace KWin

namespace Transaction

def next (transaction : Transaction) (surface : SurfaceId) : Option TransactionId :=
  (transaction.entries.find? (·.surface = surface)).bind (·.nextTransaction)

end Transaction

-- Merges the pending state into the entry of the surface, if there is one, and else appends one.
def addPending (surface : SurfaceId) (pending : SurfaceState) :
    List TransactionEntry → List TransactionEntry
  | [] => [{ surface, state := pending.mergeInto {} }]
  | entry :: entries =>
    if entry.surface = surface then
      { entry with state := pending.mergeInto entry.state } :: entries
    else
      entry :: addPending surface pending entries

namespace State

-- Whether an entry keeps its transaction from being ready.
def blocks (s : State) (entry : TransactionEntry) : Except Fault Bool :=
  if entry.previousTransaction.isSome then
    return true
  else if s.isDiscarded entry then
    return false
  else if entry.fences.any id then
    return true
  else do
    let generation ← s.mainSurfaceRoleGeneration entry.surface
    if generation > entry.state.mainSurfaceRoleGeneration then
      return false
    else if entry.state.hasFifoWaitCondition then
      s.hasFifoBarrier entry.surface
    else
      return false

def isReady (s : State) (t : TransactionId) : Except Fault Bool := do
  let transaction ← s.transaction t
  let blocked ← transaction.entries.anyM s.blocks
  return !blocked

def treeMainSurface (s : State) (x : SurfaceId) : Except Fault (Option SurfaceId) := do
  let surface ← s.surface x
  match surface.handle with
  | none => return some x
  | some handle => s.mainSurface handle

-- The comparison by which `apply()` sorts: descendants come first, surfaces that are gone come last.
def precedes (s : State) (a b : TransactionEntry) : Except Fault Bool := do
  if (s.surfaces a.surface).isNone then
    return false
  else if (s.surfaces b.surface).isNone then
    return true
  else if ← s.isAncestor a.surface b.surface then
    return true
  else if ← s.isAncestor b.surface a.surface then
    return false
  else
    let main₁ ← s.treeMainSurface a.surface
    let main₂ ← s.treeMainSurface b.surface
    return decide (main₁.elim 0 (· + 1) < main₂.elim 0 (· + 1))

end State

-- An environment whose sort is the insertion sort, for runs on concrete inputs.
def Environment.insertion (watch : TransactionId → Nat → Nat) : Environment where
  sort s entries        := entries.insertionSort fun a b => (s.precedes b a).toOption ≠ some true
  sort_perm s entries   := entries.perm_insertionSort _
  watch                 := watch

namespace State

def applyEntry (t : TransactionId) (s : State) (entry : TransactionEntry) : Except Fault State :=
  if s.isDiscarded entry then
    return s
  else do
    let s ← s.applyState entry.surface entry.state
    return { s with log := ⟨t, entry.surface, entry.state.serial⟩ :: s.log }

def mergedEntry (s : State) (entry : TransactionEntry) : TransactionEntry :=
  if s.isDiscarded entry then entry else { entry with state := entry.state.merged }

-- The first half of `apply`: the states of all entries are applied, descendants first.
def applyStates (env : Environment) (s : State) (t : TransactionId) : Except Fault State := do
  let transaction ← s.transaction t
  if t ∈ s.applying then
    .error (.appliedAgain t)
  else
    let entries := env.sort s transaction.entries
    let s ← entries.foldlM (applyEntry t) { s with applying := t :: s.applying }
    return s.setEntries t (entries.map s.mergedEntry)

-- Takes the transaction, which is the first one of the surface, out of the queue of the surface.
def dequeue (s : State) (t : TransactionId) (entry : TransactionEntry) : State :=
  s.modifySurface entry.surface fun surface =>
    if surface.lastTransaction = some t then
      { surface with firstTransaction := none, lastTransaction := none }
    else
      { surface with firstTransaction := entry.nextTransaction }

-- Resets the first entry that has `previous` as its previous transaction.
def clearPrevious (previous : TransactionId) : List TransactionEntry → List TransactionEntry
  | [] => []
  | entry :: entries =>
    if entry.previousTransaction = some previous then
      { entry with previousTransaction := none } :: entries
    else
      entry :: clearPrevious previous entries

def unlink (s : State) (t : TransactionId) (entry : TransactionEntry) : Except Fault State := do
  let s := s.dequeue t entry
  match entry.nextTransaction with
  | none => return s
  | some next =>
    let transaction ← s.transaction next
    return s.setEntries next (clearPrevious t transaction.entries)

def retryChild (retry : State → TransactionId → Except Fault State) (s : State) (e : SubSurfaceId) :
    Except Fault State := do
  let sub ← s.subSurface e
  let child ← s.surface sub.surface
  match child.firstTransaction with
  | none => return s
  | some t => retry s t

-- If the surface was unmapped, that can remove constraints from its subsurfaces.
def retryChildren (retry : State → TransactionId → Except Fault State) (s : State) (x : SurfaceId) :
    Except Fault State :=
  match s.surfaces x with
  | none => return s
  | some surface =>
    if surface.mapped then
      return s
    else do
      let s ← surface.current.below.foldlM (retryChild retry) s
      let surface ← s.surface x
      surface.current.above.foldlM (retryChild retry) s

def retryNext (retry : State → TransactionId → Except Fault State) (s : State) :
    Option TransactionId → Except Fault State
  | none => return s
  | some next => retry s next

-- The i-th iteration of the second half of `apply`.
def applyNext (retry : State → TransactionId → Except Fault State) (t : TransactionId) (s : State)
    (i : Nat) : Except Fault State := do
  let entry ← s.entry t i
  let s ← s.unlink t entry
  let s ← s.retryNext retry entry.nextTransaction
  s.retryChildren retry entry.surface

def delete (s : State) (t : TransactionId) : State :=
  { s with transactions := Function.update s.transactions t none, applying := s.applying.erase t }

def apply (env : Environment) (retry : State → TransactionId → Except Fault State) (s : State)
    (t : TransactionId) : Except Fault State := do
  let s ← s.applyStates env t
  let transaction ← s.transaction t
  let s ← (List.range transaction.entries.length).foldlM (applyNext retry t) s
  return s.delete t

def tryApplyFrom (env : Environment) : Nat → State → TransactionId → Except Fault State
  | 0, _, _ => .error .nonTermination
  | fuel + 1, s, t => do
    if ← s.isReady t then s.apply env (tryApplyFrom env fuel) t else return s

-- Every nested call applies another transaction.
def tryApply (env : Environment) (s : State) (t : TransactionId) : Except Fault State :=
  tryApplyFrom env (s.nextTransaction + 1) s t

def tryApplyFirst (env : Environment) (s : State) (x : SurfaceId) : Except Fault State := do
  let surface ← s.surface x
  match surface.firstTransaction with
  | none => return s
  | some t => s.tryApply env t

def modifyEntry (s : State) (t : TransactionId) (i : Nat) (f : TransactionEntry → TransactionEntry) :
    State :=
  s.modifyEntries t (·.modify i f)

-- Covers `watchSyncObj` and `watchDmaBuf`.
def watch (env : Environment) (s : State) (t : TransactionId) (i : Nat) (entry : TransactionEntry) :
    State :=
  if entry.state.committedBuffer && entry.state.buffer.isSome then
    s.modifyEntry t i fun entry => { entry with fences := List.replicate (env.watch t i) true }
  else
    s

-- Makes the transaction the next one of the last transaction of the surface, or its first one.
def linkNext (s : State) (t : TransactionId) (x : SurfaceId) (surface : Surface) :
    Except Fault State :=
  match surface.firstTransaction, surface.lastTransaction with
  | none, _ => return s.modifySurface x fun surface => { surface with firstTransaction := some t }
  | some _, none => .error .nullTransaction
  | some _, some last => do
    let transaction ← s.transaction last
    return s.setEntries last <| transaction.entries.map fun lastEntry =>
      if lastEntry.surface = x then { lastEntry with nextTransaction := some t } else lastEntry

def linkPrevious (s : State) (t : TransactionId) (i : Nat) (x : SurfaceId) (surface : Surface) :
    State :=
  (s.modifyEntry t i fun entry => { entry with previousTransaction := surface.lastTransaction })
    |>.modifySurface x fun surface => { surface with lastTransaction := some t }

def commitEntry (env : Environment) (t : TransactionId) (s : State) (i : Nat) : Except Fault State := do
  let entry ← s.entry t i
  match s.surfaces entry.surface with
  | none => return s
  | some surface => do
    let s ← (s.watch env t i entry).linkNext t entry.surface surface
    return s.linkPrevious t i entry.surface surface

def commit (env : Environment) (s : State) (entries : List TransactionEntry) : Except Fault State := do
  let t := s.nextTransaction
  let s := { s.setEntries t entries with nextTransaction := t + 1 }
  let s ← (List.range entries.length).foldlM (commitEntry env t) s
  s.tryApply env t

-- Amends the states which the transactions in the queue of the surface have for it. A walk that
-- takes more steps than there are transactions goes round in circles.
def amendQueueFrom (x : SurfaceId) (mutator : SurfaceState → SurfaceState) :
    Nat → State → Option TransactionId → Except Fault State
  | _, s, none => return s
  | 0, _, some _ => .error .nonTermination
  | fuel + 1, s, some t => do
    let transaction ← s.transaction t
    let s := s.setEntries t (transaction.entries.map (·.amend x mutator))
    amendQueueFrom x mutator fuel s (transaction.next x)

-- Amends the cached and the queued states of the surface, as `addChild`, `removeChild` and
-- `removeExtension` do.
def amend (s : State) (x : SurfaceId) (mutator : SurfaceState → SurfaceState) : Except Fault State := do
  let surface ← s.surface x
  let s := s.setSurface x { surface with cached := surface.cached.map (·.map (·.amend x mutator)) }
  amendQueueFrom x mutator (s.nextTransaction + 1) s surface.firstTransaction

end State

abbrev SurfacePointer :=
  Option SurfaceId

def SurfacePointer.address (pointer : SurfacePointer) : Nat :=
  pointer.elim 0 (· + 1)

-- Which surfaces are subsurfaces, and of which parent if that exists still. The way up from a surface ends.
structure SurfaceForest where
  subSurface : SurfaceId → Option SurfacePointer
  depth      : SurfaceId → Nat
  depth_lt   : ∀ x parent, subSurface x = some (some parent) → depth parent < depth x

namespace SurfaceForest

variable (forest : SurfaceForest)

def isAncestor (surface ancestor : SurfaceId) : Bool :=
  match h : forest.subSurface surface with
  | none => false
  | some none => false
  | some (some parent) => if parent = ancestor then true else isAncestor parent ancestor
termination_by forest.depth surface
decreasing_by exact forest.depth_lt _ _ h

-- The main surface of a subsurface with that parent.
def subSurfaceMainSurface : SurfacePointer → SurfacePointer
  | none => none
  | some parent =>
    match h : forest.subSurface parent with
    | some above => subSurfaceMainSurface above
    | none => some parent
termination_by parent => parent.elim 0 (forest.depth · + 1)
decreasing_by
  cases above with
  | none => exact Nat.zero_lt_succ _
  | some above => exact Nat.succ_lt_succ (forest.depth_lt _ _ h)

def mainSurface (surface : SurfaceId) : SurfacePointer :=
  match forest.subSurface surface with
  | some parent => forest.subSurfaceMainSurface parent
  | none => some surface

-- The surfaces of two entries, which are null if they have been destroyed.
def less : SurfacePointer → SurfacePointer → Bool
  | none, _ => false
  | some _, none => true
  | some a, some b =>
    if forest.isAncestor a b then
      true
    else if forest.isAncestor b a then
      false
    else
      decide (SurfacePointer.address (forest.mainSurface a) < SurfacePointer.address (forest.mainSurface b))

end SurfaceForest

end KWin
