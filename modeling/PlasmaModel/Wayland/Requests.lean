import PlasmaModel.Lib.Runs
import PlasmaModel.Wayland.Transaction

namespace KWin

namespace SurfaceState

-- `anchor` is the subsurface of the sibling, or nothing if the sibling is the parent itself. If the
-- anchor is not found, the subsurface has already been taken out of its list.
def raiseChild (state : SurfaceState) (e : SubSurfaceId) (isParent : Bool)
    (anchor : Option SubSurfaceId) : SurfaceState :=
  let state := state.removeChild e
  if isParent then
    { state with above := e :: state.above }
  else
    match anchor.bind state.above.idxOf?, anchor.bind state.below.idxOf? with
    | some i, _ => { state with above := state.above.insertIdx (i + 1) e }
    | none, some i => { state with below := state.below.insertIdx (i + 1) e }
    | none, none => state

def lowerChild (state : SurfaceState) (e : SubSurfaceId) (isParent : Bool)
    (anchor : Option SubSurfaceId) : SurfaceState :=
  let state := state.removeChild e
  if isParent then
    { state with below := state.below ++ [e] }
  else
    match anchor.bind state.above.idxOf?, anchor.bind state.below.idxOf? with
    | some i, _ => { state with above := state.above.insertIdx i e }
    | none, some i => { state with below := state.below.insertIdx i e }
    | none, none => state

end SurfaceState

namespace State

variable (env : Environment)

def nextRoleGeneration (s : State) (x : SurfaceId) : Except Fault State :=
  (s.modifySurface x fun surface =>
    { surface with mainSurfaceRoleGeneration := surface.mainSurfaceRoleGeneration + 1 })
  |>.tryApplyFirst env x

def addChild (s : State) (x : SurfaceId) (e : SubSurfaceId) : Except Fault State :=
  (s.modifySurface x fun surface =>
    { surface with current := surface.current.addChild e, pending := surface.pending.addChild e })
  |>.amend x (·.addChild e)

def removeChild (s : State) (x : SurfaceId) (e : SubSurfaceId) : Except Fault State :=
  (s.modifySurface x fun surface =>
    { surface with
      current := surface.current.removeAllChild e, pending := surface.pending.removeAllChild e })
  |>.amend x (·.removeChild e)

def createSubSurface (s : State) (x parent : SurfaceId) : Except Fault State :=
  let e := s.nextSubSurface
  { s with
    subSurfaces := Function.update s.subSurfaces e (some { surface := x, parent })
    nextSubSurface := e + 1 }
  |>.modifySurface x (fun surface => { surface with handle := some e })
  |>.addChild parent e

def setSurfaceRole (s : State) (x : SurfaceId) (role : SurfaceRole) : State :=
  s.modifySurface x fun surface => { surface with role := some role }

def parentMainSurface (s : State) (parent : Surface) : Except Fault (Option SurfaceId) :=
  match parent.handle with
  | none => return none
  | some handle => s.mainSurface handle

-- A rejected request posts a protocol error and returns early.
def getSubsurface (s : State) (x parent : SurfaceId) : Except Fault State := do
  let surface ← s.surface x
  let parentSurface ← s.surface parent
  if surface.role.isSome && surface.role ≠ some .subSurface then
    return s
  else
    let s := if surface.role.isNone then s.setSurfaceRole x .subSurface else s
    let s ← s.nextRoleGeneration env x
    if x = parent then
      return s
    else
      let main ← s.parentMainSurface parentSurface
      if main = some x then return s else s.createSubSurface x parent

def removeFromParent (s : State) (e : SubSurfaceId) (parent : SurfaceId) : Except Fault State :=
  if (s.surfaces parent).isSome then s.removeChild parent e else return s

def releaseSurface (s : State) (x : SurfaceId) : Except Fault State :=
  match s.surfaces x with
  | none => return s
  | some surface =>
    (s.setSurface x { surface with handle := none, cached := none }).nextRoleGeneration env x

def destroySubSurface (s : State) (e : SubSurfaceId) : Except Fault State := do
  let sub ← s.subSurface e
  let s ← s.removeFromParent e sub.parent
  let s ← s.releaseSurface env sub.surface
  return { s with subSurfaces := Function.update s.subSurfaces e none }

-- When the `destroyed` signal is emitted, no `QPointer` refers to the surface any more.
def destroySurface (s : State) (x : SurfaceId) : Except Fault State := do
  let s ← (s.modifySurface x fun surface => { surface with tearingDown := true }).tryApplyFirst env x
  let s := { s with surfaces := Function.update s.surfaces x none }
  (List.range s.nextSubSurface).foldlM (fun s e =>
    match s.subSurfaces e with
    | none => return s
    | some sub => if sub.surface = x then s.destroySubSurface env e else return s) s

-- Takes what the surface of a child has cached.
def takeCached (own : State × List TransactionEntry) (e : SubSurfaceId) :
    Except Fault (State × List TransactionEntry) := do
  let sub ← own.1.subSurface e
  let child ← own.1.surface sub.surface
  match child.cached with
  | none => return own
  | some entries => return (own.1.setSurface sub.surface { child with cached := none }, own.2 ++ entries)

def surfaceSynchronized (s : State) (surface : Surface) : Except Fault Bool :=
  match surface.handle with
  | none => return false
  | some handle => s.isSynchronized handle

-- The pending state as the request commits it. In effectively synchronized mode, the fifo wait
-- condition must be ignored.
def committedPending (s : State) (surface : Surface) (generation : UInt32) (sync : Bool) : SurfaceState :=
  { surface.pending with
    mainSurfaceRoleGeneration := generation
    hasFifoWaitCondition      := surface.pending.hasFifoWaitCondition && !sync
    serial                    := s.nextSerial }

def surfaceCommit (s : State) (x : SurfaceId) : Except Fault State := do
  let surface ← s.surface x
  let sync ← s.surfaceSynchronized surface
  let generation ← s.mainSurfaceRoleGeneration x
  let pending := s.committedPending surface generation sync
  let own := if sync then surface.cached.getD [] else []
  let (s, own) ← pending.children.foldlM takeCached ({ s with nextSerial := s.nextSerial + 1 }, own)
  let s := s.modifySurface x fun surface => { surface with pending := pending.merged }
  let entries := addPending x pending own
  if sync then
    return s.modifySurface x fun surface => { surface with cached := some entries }
  else
    s.commit env entries

def setSync (s : State) (e : SubSurfaceId) : Except Fault State := do
  let sub ← s.subSurface e
  return { s with subSurfaces := Function.update s.subSurfaces e (some { sub with mode := .synchronized }) }

-- The surface lets go of its cached transaction before the commit, not behind it as in the source.
-- Nothing that the commit does depends on it.
def commitCached (s : State) (x : SurfaceId) : Except Fault State := do
  let surface ← s.surface x
  match surface.cached with
  | none => return s
  | some entries => (s.setSurface x { surface with cached := none }).commit env entries

def parentDesynchronizedFrom : Nat → State → SubSurfaceId → Except Fault State
  | 0, _, _ => .error .nonTermination
  | fuel + 1, s, e => do
    let sub ← s.subSurface e
    if sub.mode = .synchronized then
      return s
    else
      let s ← s.commitCached env sub.surface
      let surface ← s.surface sub.surface
      let s ← surface.current.below.foldlM (parentDesynchronizedFrom fuel) s
      let surface ← s.surface sub.surface
      surface.current.above.foldlM (parentDesynchronizedFrom fuel) s

def parentDesynchronized (s : State) (e : SubSurfaceId) : Except Fault State :=
  parentDesynchronizedFrom env (s.nextSubSurface + 1) s e

def setDesync (s : State) (e : SubSurfaceId) : Except Fault State := do
  let sub ← s.subSurface e
  if sub.mode = .desynchronized then
    return s
  else
    let s := { s with
      subSurfaces := Function.update s.subSurfaces e (some { sub with mode := .desynchronized }) }
    if ← s.isSynchronized e then return s else s.parentDesynchronized env e

def modifyPending (s : State) (x : SurfaceId) (f : SurfaceState → SurfaceState) : State :=
  s.modifySurface x fun surface => { surface with pending := f surface.pending }

-- `place` is `raiseChild` or `lowerChild`.
def placeChild (place : SurfaceState → SubSurfaceId → Bool → Option SubSurfaceId → SurfaceState)
    (s : State) (e : SubSurfaceId) (sibling : SurfaceId) : Except Fault State := do
  let sub ← s.subSurface e
  let anchor ← s.surface sibling
  return s.modifyPending sub.parent fun pending => place pending e (sibling = sub.parent) anchor.handle

def addExtension (s : State) (x : SurfaceId) : State :=
  { s with
    extensions := Function.update s.extensions s.nextExtension (some x)
    nextExtension := s.nextExtension + 1 }
  |>.modifyPending x fun pending =>
    { pending with extensions := pending.extensions ++ [s.nextExtension] }

def removeExtension (s : State) (e : ExtensionId) (x : SurfaceId) : Except Fault State :=
  { s with extensions := Function.update s.extensions e none }
  |>.modifyPending x (·.eraseExtension e)
  |>.amend x (·.eraseExtension e)

def signalFence (s : State) (t : TransactionId) (i j : Nat) : Except Fault State :=
  (s.modifyEntry t i fun entry => { entry with fences := entry.fences.set j false }).tryApply env t

def clearFifoBarrier (s : State) (x : SurfaceId) : Except Fault State := do
  let surface ← s.surface x
  if surface.current.fifoBarrier then
    (s.setSurface x { surface with current := { surface.current with fifoBarrier := false } })
      |>.tryApplyFirst env x
  else
    return s

def createSurface (s : State) : State :=
  { s with
    surfaces := Function.update s.surfaces s.nextSurface (some {}), nextSurface := s.nextSurface + 1 }

end State

inductive Event
  | createSurface
  | setRole (x : SurfaceId) (role : SurfaceRole)
  | attach (x : SurfaceId) (buffer : Option BufferId)
  | setBarrier (x : SurfaceId)
  | waitBarrier (x : SurfaceId)
  | addExtension (x : SurfaceId)
  | removeExtension (e : ExtensionId)
  | getSubsurface (x parent : SurfaceId)
  | placeAbove (e : SubSurfaceId) (sibling : SurfaceId)
  | placeBelow (e : SubSurfaceId) (sibling : SurfaceId)
  | setSync (e : SubSurfaceId)
  | setDesync (e : SubSurfaceId)
  | commit (x : SurfaceId)
  | destroySubSurface (e : SubSurfaceId)
  | destroySurface (x : SurfaceId)
  | signalFence (t : TransactionId) (i j : Nat)
  | clearFifoBarrier (x : SurfaceId)
  | nextRoleGeneration (x : SurfaceId)
  -- A call of `Transaction::commit` for a transaction that did not come about by wl_surface.commit.
  | commitTransaction (states : List (SurfaceId × SurfaceState))

namespace State

-- Objects that exist can be the subject of an event. A surface gets its role only once.
def enabled (s : State) : Event → Bool
  | .createSurface => true
  | .setRole x _ => (s.surfaces x).any (·.role.isNone)
  | .attach x _ | .setBarrier x | .waitBarrier x | .addExtension x | .commit x | .destroySurface x
  | .clearFifoBarrier x | .nextRoleGeneration x => (s.surfaces x).isSome
  | .removeExtension e => (s.extensions e).any fun x => (s.surfaces x).isSome
  | .getSubsurface x parent => (s.surfaces x).isSome && (s.surfaces parent).isSome
  | .placeAbove e sibling | .placeBelow e sibling => (s.subSurfaces e).isSome && (s.surfaces sibling).isSome
  | .setSync e | .setDesync e | .destroySubSurface e => (s.subSurfaces e).isSome
  | .signalFence t i j =>
    ((s.transactions t).bind (·.entries[i]?)).any fun entry => entry.fences[j]? = some true
  | .commitTransaction states => states.all (·.1 < s.nextSurface)

def handle (env : Environment) (s : State) : Event → Except Fault State
  | .createSurface => return s.createSurface
  | .setRole x role => return s.setSurfaceRole x role
  | .attach x buffer => return s.modifyPending x ({ · with committedBuffer := true, buffer })
  | .setBarrier x => return s.modifyPending x ({ · with fifoBarrier := true })
  | .waitBarrier x => return s.modifyPending x ({ · with hasFifoWaitCondition := true })
  | .addExtension x => return s.addExtension x
  | .removeExtension e => (s.extensions e).elim (return s) (s.removeExtension e)
  | .getSubsurface x parent => s.getSubsurface env x parent
  | .placeAbove e sibling => s.placeChild SurfaceState.raiseChild e sibling
  | .placeBelow e sibling => s.placeChild SurfaceState.lowerChild e sibling
  | .setSync e => s.setSync e
  | .setDesync e => s.setDesync env e
  | .commit x => s.surfaceCommit env x
  | .destroySubSurface e => s.destroySubSurface env e
  | .destroySurface x => s.destroySurface env x
  | .signalFence t i j => s.signalFence env t i j
  | .clearFifoBarrier x => s.clearFifoBarrier env x
  | .nextRoleGeneration x => s.nextRoleGeneration env x
  | .commitTransaction states => s.commit env (states.map fun (surface, state) => { surface, state })

-- The runs whose steps meet a condition on the state before the step. A step which runs into a
-- fault does not reach any state.
inductive Reachable (env : Environment) (P : State → Event → Prop) : State → Prop
  | init : Reachable env P {}
  | step : Reachable env P s → s.enabled event → P s event → s.handle env event = .ok s' →
      Reachable env P s'

-- The state after a list of events, for runs on concrete inputs. Every event must be enabled and meet
-- the condition.
def run (env : Environment) (P : State → Event → Bool) (s : State) (events : List Event) : Option State :=
  events.foldlM (fun s event =>
    if s.enabled event && P s event then (s.handle env event).toOption else none) s

theorem run_reachable {env : Environment} {P : State → Event → Bool} {s s' : State} {events : List Event}
    (h : Reachable env (P · ·) s) (hr : s.run env P events = some s') : Reachable env (P · ·) s' := by
  induction events generalizing s
  case nil =>
    obtain rfl := Option.some.inj hr
    exact h
  case cons event events ih =>
    rw [run, List.foldlM_cons] at hr
    obtain ⟨s₁, h₁, hr⟩ := Option.bind_eq_some_iff.mp hr
    split at h₁
    case isFalse => contradiction
    case isTrue hp =>
      have ⟨he, hp⟩ := Bool.and_eq_true_iff.mp hp
      cases hs : s.handle env event
      case error => simp [hs, Except.toOption] at h₁
      case ok s₂ =>
        obtain rfl : s₂ = s₁ := by simpa [hs, Except.toOption] using h₁
        exact ih (h.step he hp hs) hr

-- The run comes to an end, in a state that can be checked.
theorem exists_reachable {env : Environment} {P : State → Event → Bool} {events : List Event} {Q : State → Prop}
    (p : State → Bool) (h : (run env P {} events).any p) (hq : ∀ s, p s → Reachable env (P · ·) s → Q s) :
    ∃ s, run env P {} events = some s ∧ Q s := by
  obtain ⟨s, hr, hp⟩ := (Option.any_eq_true _ _).mp h
  exact ⟨s, hr, hq s hp (run_reachable .init hr)⟩

end State

-- Where a child is placed at: the parent, or another surface with the subsurface that it is, if it is one.
inductive Anchor
  | parent
  | surface (subSurface : Option SubSurfaceId)
deriving DecidableEq

-- A surface with the subsurfaces it is the parent of. `subsurfaceOrder` is the flag of that name of the pending state.
structure ParentSurface where
  current         : SurfaceState := {}
  pending         : SurfaceState := {}
  subsurfaceOrder : Bool := false
  children        : List SubSurfaceId := []

inductive ChildCall
  | addChild (child : SubSurfaceId)
  | removeChild (child : SubSurfaceId)
  | raiseChild (subsurface : SubSurfaceId) (anchor : Anchor)
  | lowerChild (subsurface : SubSurfaceId) (anchor : Anchor)

namespace ParentSurface

variable (q : ParentSurface)

def addChild (child : SubSurfaceId) : ParentSurface :=
  { q with
    current  := q.current.addChild child
    pending  := q.pending.addChild child
    children := q.children ++ [child] }

def removeChild (child : SubSurfaceId) : ParentSurface :=
  { q with
    current  := q.current.removeAllChild child
    pending  := q.pending.removeAllChild child
    children := q.children.erase child }

-- The child goes `offset` places behind the start of the anchor. Before the anchor is looked for, the child has left
-- its list.
def placeChild (subsurface : SubSurfaceId) (anchor : Anchor) (offset : Nat)
    (atParent : SurfaceState → SurfaceState) : Bool × ParentSurface :=
  let pending := q.pending.removeChild subsurface
  match anchor with
  | .parent => (true, { q with pending := atParent pending, subsurfaceOrder := true })
  | .surface anchor =>
    match anchor.bind pending.above.idxOf?, anchor.bind pending.below.idxOf? with
    | some anchorIndex, _ =>
      (true, { q with
        pending         := { pending with above := pending.above.insertIdx (anchorIndex + offset) subsurface }
        subsurfaceOrder := true })
    | none, some anchorIndex =>
      (true, { q with
        pending         := { pending with below := pending.below.insertIdx (anchorIndex + offset) subsurface }
        subsurfaceOrder := true })
    | none, none => (false, { q with pending })

def raiseChild (subsurface : SubSurfaceId) (anchor : Anchor) : Bool × ParentSurface :=
  q.placeChild subsurface anchor 1 fun pending => { pending with above := subsurface :: pending.above }

def lowerChild (subsurface : SubSurfaceId) (anchor : Anchor) : Bool × ParentSurface :=
  q.placeChild subsurface anchor 0 fun pending => { pending with below := pending.below ++ [subsurface] }

-- Subsurfaces are new when they are added, and what is removed or placed is a child.
def step : ChildCall → Option ParentSurface
  | .addChild child               => if child ∈ q.children then none else some (q.addChild child)
  | .removeChild child            => if child ∈ q.children then some (q.removeChild child) else none
  | .raiseChild subsurface anchor =>
    if subsurface ∈ q.children then some (q.raiseChild subsurface anchor).2 else none
  | .lowerChild subsurface anchor =>
    if subsurface ∈ q.children then some (q.lowerChild subsurface anchor).2 else none

end ParentSurface

end KWin
