import Mathlib.Data.Int.Order.Basic
import Mathlib.Data.List.Basic
import Mathlib.Logic.Function.Basic

namespace Libwayland

-- The timers of an event loop. `data` is the part of the array in use, and what only the heap needs of a timer is kept
-- here. A time is its number of nanoseconds.
structure TimerHeap where
  data     : List ℕ := []
  heapIdx  : ℕ → ℤ := fun _ => -1
  deadline : ℕ → ℤ := fun _ => 0

namespace TimerHeap

def heapSet (h : TimerHeap) (a idx : ℕ) : TimerHeap :=
  { h with heapIdx := Function.update h.heapIdx a idx, data := h.data.set idx a }

-- Of the children of a place in the heap, the one that is due first.
def dueChild (h : TimerHeap) (lchildIdx : ℕ) : ℕ :=
  let child := h.data.getD lchildIdx 0
  let otherChild := h.data.getD (lchildIdx + 1) 0
  if lchildIdx + 1 < h.data.length ∧ h.deadline otherChild < h.deadline child then otherChild else child

-- The fuel is never used up, see `siftDownLoop_order`.
def siftDownLoop (key : ℤ) : ℕ → TimerHeap → ℕ → TimerHeap × ℕ
  | 0, h, cursorIdx => (h, cursorIdx)
  | fuel + 1, h, cursorIdx =>
    let lchildIdx := cursorIdx * 2 + 1
    if lchildIdx ≥ h.data.length then
      (h, cursorIdx)
    else
      let child := h.dueChild lchildIdx
      if h.deadline child < key then
        siftDownLoop key fuel (h.heapSet child cursorIdx) (h.heapIdx child).toNat
      else
        (h, cursorIdx)

def siftDown (h : TimerHeap) (source : ℕ) : TimerHeap :=
  let (h, cursorIdx) := siftDownLoop (h.deadline source) h.data.length h (h.heapIdx source).toNat
  h.heapSet source cursorIdx

def siftUpLoop (key : ℤ) : ℕ → TimerHeap → ℕ → TimerHeap × ℕ
  | 0, h, cursorIdx => (h, cursorIdx)
  | fuel + 1, h, cursorIdx =>
    if cursorIdx = 0 then
      (h, cursorIdx)
    else
      let parent := h.data.getD ((cursorIdx - 1) / 2) 0
      if key < h.deadline parent then
        siftUpLoop key fuel (h.heapSet parent cursorIdx) (h.heapIdx parent).toNat
      else
        (h, cursorIdx)

def siftUp (h : TimerHeap) (source : ℕ) : TimerHeap :=
  let (h, cursorIdx) := siftUpLoop (h.deadline source) h.data.length h (h.heapIdx source).toNat
  h.heapSet source cursorIdx

def disarm (h : TimerHeap) (source : ℕ) : TimerHeap :=
  let oldSourceIdx := (h.heapIdx source).toNat
  let lastEndEvt := h.data.getD (h.data.length - 1) 0
  let h := { h with
    heapIdx := Function.update h.heapIdx source (-1)
    deadline := Function.update h.deadline source 0
    data := h.data.dropLast }
  if oldSourceIdx = h.data.length then
    h
  else
    siftUp (siftDown (h.heapSet lastEndEvt oldSourceIdx) lastEndEvt) lastEndEvt

def arm (h : TimerHeap) (source : ℕ) (deadline : ℤ) : TimerHeap :=
  let h := { h with
    heapIdx := Function.update h.heapIdx source h.data.length
    deadline := Function.update h.deadline source deadline
    data := h.data ++ [source] }
  h.siftUp source

-- This is `wl_event_source_timer_update`. The timer of the kernel is set in the end, which changes nothing here.
def update (h : TimerHeap) (source : ℕ) (now msDelay : ℤ) : TimerHeap :=
  if msDelay > 0 then
    let deadline := now + msDelay * 1000000
    if h.heapIdx source = -1 then
      h.arm source deadline
    else if deadline < h.deadline source then
      siftUp { h with deadline := Function.update h.deadline source deadline } source
    else
      siftDown { h with deadline := Function.update h.deadline source deadline } source
  else if h.heapIdx source = -1 then
    h
  else
    h.disarm source

-- The timers that are due, in the order in which they are taken off the heap.
def takeDueLoop (now : ℤ) : ℕ → TimerHeap → List ℕ × TimerHeap
  | 0, h => ([], h)
  | fuel + 1, h =>
    match h.data with
    | [] => ([], h)
    | root :: _ =>
      if now < h.deadline root then
        ([], h)
      else
        let (due, h) := takeDueLoop now fuel (h.disarm root)
        (root :: due, h)

def takeDue (h : TimerHeap) (now : ℤ) : List ℕ × TimerHeap :=
  takeDueLoop now h.data.length h

end TimerHeap

end Libwayland

-- The event loop of a Wayland server. What the functions of its sources do in between is up to the environment.
namespace Libwayland

inductive SourceKind
  | fd | signal | timer | idle
deriving DecidableEq

structure EventSource where
  kind : SourceKind
  fd   : ℤ

def timerRemoved : ℤ := -2

-- What the link of a source points at: the head of a list, or the link of another source.
inductive Node
  | checkList | destroyList | source (id : ℕ)
deriving DecidableEq

inductive Phase
  | idle | timers | batch | recheck
deriving DecidableEq

-- What happened to a source: its function was called, or it was removed.
inductive Record
  | called (phase : Phase) (id : ℕ)
  | removed (id : ℕ)
deriving DecidableEq

-- What the loop does when all idle sources have been dispatched.
inductive AfterIdle
  | poll | recheck | leave
deriving DecidableEq

-- The places where the loop waits for somebody else. In `recheckCall` it has read the next node of the check list, and
-- has noted whether an earlier function returned something else than zero.
inductive Control
  | outside
  | polling
  | idleCall (after : AfterIdle) (id : ℕ)
  | timerCall (id : ℕ) (due : List ℕ)
  | batchCall (id : ℕ)
  | recheckCall (id : ℕ) (next : Node) (needsRecheck : Bool)
  | crashed
deriving DecidableEq

-- A source is known by the number of its allocation. The latest record of the log comes first. Of the events of the
-- last poll, `ready` has the sources, `pending` those to come, and `served` those dispatched.
structure EventLoop where
  sources     : ℕ → Option EventSource := fun _ => none
  nextSource  : ℕ := 0
  checkList   : List ℕ := []
  idleList    : List ℕ := []
  destroyList : List ℕ := []
  timers      : TimerHeap := {}
  ready       : List ℕ := []
  pending     : List ℕ := []
  served      : List ℕ := []
  control     : Control := .outside
  log         : List Record := []

namespace EventLoop

def Removed (s : EventLoop) (id : ℕ) : Prop :=
  .removed id ∈ s.log

def Live (s : EventLoop) (id : ℕ) : Prop :=
  s.sources id ≠ none ∧ ¬s.Removed id

def HasKind (s : EventLoop) (kind : SourceKind) (id : ℕ) : Prop :=
  (s.sources id).map (·.kind) = some kind

instance (s : EventLoop) (id : ℕ) : Decidable (s.Removed id) :=
  inferInstanceAs (Decidable (_ ∈ _))

instance (s : EventLoop) (id : ℕ) : Decidable (s.Live id) :=
  inferInstanceAs (Decidable (_ ∧ _))

instance (s : EventLoop) (kind : SourceKind) (id : ℕ) : Decidable (s.HasKind kind id) :=
  inferInstanceAs (Decidable (_ = _))

def call (s : EventLoop) (phase : Phase) (id : ℕ) (control : Control) : EventLoop :=
  { s with log := .called phase id :: s.log, control }

-- This is `wl_event_source_remove`. Links of sources are in the check list or in the idle list, or in none.
def removeSource (s : EventLoop) (id : ℕ) : EventLoop :=
  match s.sources id with
  | none => { s with control := .crashed }
  | some source =>
    let source := if source.fd ≥ 0 then { source with fd := -1 } else source
    let isTimer := source.kind = .timer ∧ source.fd ≠ timerRemoved
    let timers := if isTimer then s.timers.update id 0 0 else s.timers
    let source := if isTimer then { source with fd := timerRemoved } else source
    { s with
      sources := Function.update s.sources id (some source)
      timers
      checkList := s.checkList.erase id
      idleList := s.idleList.erase id
      destroyList := id :: s.destroyList
      log := .removed id :: s.log }

def processDestroyList (s : EventLoop) : EventLoop :=
  { s with sources := fun id => if id ∈ s.destroyList then none else s.sources id, destroyList := [] }

def nodeAfter (id : ℕ) (l : List ℕ) (head : Node) : Node :=
  match (l.dropWhile (· ≠ id)).tail with
  | [] => head
  | next :: _ => .source next

-- The member `link.next` of a source.
def linkNext (s : EventLoop) (id : ℕ) : Node :=
  if id ∈ s.checkList then
    nodeAfter id s.checkList .checkList
  else if id ∈ s.destroyList then
    nodeAfter id s.destroyList .destroyList
  else
    .source id

def startCheck (s : EventLoop) : EventLoop :=
  match s.checkList with
  | [] => { s with control := .outside }
  | id :: _ => s.call .recheck id (.recheckCall id (s.linkNext id) false)

-- The walk over the check list comes to `cursor`. It does not know the heads of other lists from sources.
def checkAt (s : EventLoop) (cursor : Node) (needsRecheck : Bool) : EventLoop :=
  match cursor with
  | .checkList => if needsRecheck then s.startCheck else { s with control := .outside }
  | .destroyList => { s with control := .crashed }
  | .source id =>
    if s.sources id = none then
      { s with control := .crashed }
    else
      s.call .recheck id (.recheckCall id (s.linkNext id) needsRecheck)

def dispatchIdle (s : EventLoop) (after : AfterIdle) : EventLoop :=
  match s.idleList with
  | id :: _ => s.call .idle id (.idleCall after id)
  | [] =>
    match after with
    | .poll => { s with control := .polling }
    | .recheck => s.startCheck
    | .leave => { s with control := .outside }

def runBatch (s : EventLoop) : List ℕ → EventLoop
  | [] => ({ s with pending := [] }.processDestroyList).dispatchIdle .recheck
  | id :: rest =>
    match s.sources id with
    | none => { s with control := .crashed }
    | some source =>
      if source.fd ≠ -1 then
        { s with pending := rest, served := id :: s.served }.call .batch id (.batchCall id)
      else
        s.runBatch rest

def runTimers (s : EventLoop) : List ℕ → EventLoop
  | [] => s.runBatch s.pending
  | id :: due =>
    match s.sources id with
    | none => { s with control := .crashed }
    | some source =>
      if source.fd ≠ timerRemoved then
        s.call .timers id (.timerCall id due)
      else
        s.runTimers due

-- What `epoll_wait` returns, the time, and whether the timer of the kernel can be set.
structure Poll where
  hasTimers : Bool
  ready     : List ℕ
  now       : ℤ
  timerSet  : Bool

-- Sources are registered from when they are added until they are removed.
def CanPoll (s : EventLoop) (p : Poll) : Prop :=
  p.ready.Nodup ∧ p.ready.length ≤ 32 ∧ ∀ id ∈ p.ready, s.Live id ∧ (s.HasKind .fd id ∨ s.HasKind .signal id)

instance (s : EventLoop) (p : Poll) : Decidable (s.CanPoll p) :=
  inferInstanceAs (Decidable (_ ∧ _ ∧ _))

def polled (s : EventLoop) (p : Poll) : EventLoop :=
  let s := { s with ready := p.ready, pending := p.ready, served := [] }
  if p.hasTimers then
    let (due, timers) := s.timers.takeDue p.now
    let s := { s with timers }
    if p.timerSet then s.runTimers due else { s with control := .outside }
  else
    s.runBatch s.pending

-- What the program does with the loop and its sources.
inductive Action
  | addFd (fd : ℕ)
  | addSignal (fd : ℕ)
  | addTimer
  | addIdle
  | update (id : ℕ) (now msDelay : ℤ)
  | check (id : ℕ)
  | remove (id : ℕ)
deriving DecidableEq

def addSource (s : EventLoop) (source : EventSource) : EventLoop :=
  { s with sources := Function.update s.sources s.nextSource (some source), nextSource := s.nextSource + 1 }

def isIdleCall (id : ℕ) : Control → Bool
  | .idleCall _ id' => id' = id
  | _ => false

-- Sources are not used after they have been removed. An idle source has no function for a re-check, and cannot be
-- removed while its function runs. No source is marked for a re-check twice.
def act (s : EventLoop) : Action → Option EventLoop
  | .addFd fd => some (s.addSource ⟨.fd, fd⟩)
  | .addSignal fd => some (s.addSource ⟨.signal, fd⟩)
  | .addTimer => some (s.addSource ⟨.timer, -1⟩)
  | .addIdle => some { s.addSource ⟨.idle, -1⟩ with idleList := s.idleList ++ [s.nextSource] }
  | .update id now msDelay =>
    if s.Live id ∧ s.HasKind .timer id then
      some { s with timers := s.timers.update id now msDelay }
    else
      none
  | .check id =>
    if s.Live id ∧ ¬s.HasKind .idle id ∧ id ∉ s.checkList then
      some { s with checkList := s.checkList ++ [id] }
    else
      none
  | .remove id =>
    if s.Live id ∧ isIdleCall id s.control = false then
      some (s.removeSource id)
    else
      none

def acts (s : EventLoop) : List Action → Option EventLoop
  | [] => some s
  | action :: actions => (s.act action).bind fun s => s.acts actions

-- The loop goes on when a function has returned.
def resume (s : EventLoop) (result : ℤ) : Control → Option EventLoop
  | .idleCall after id => some ((s.removeSource id).dispatchIdle after)
  | .timerCall _ due => some (s.runTimers due)
  | .batchCall _ => some (s.runBatch s.pending)
  | .recheckCall _ next needsRecheck => some (s.checkAt next (needsRecheck || result ≠ 0))
  | _ => none

inductive Event
  | program (action : Action)
  | dispatch
  | dispatchIdle
  | polled (answer : Option Poll)
  | callback (actions : List Action) (result : ℤ)

def step (s : EventLoop) : Event → Option EventLoop
  | .program action => if s.control = .outside then s.act action else none
  | .dispatch => if s.control = .outside then some (s.dispatchIdle .poll) else none
  | .dispatchIdle => if s.control = .outside then some (s.dispatchIdle .leave) else none
  | .polled none => if s.control = .polling then some { s with control := .outside } else none
  | .polled (some p) => if s.control = .polling ∧ s.CanPoll p then some (s.polled p) else none
  | .callback actions result => (s.acts actions).bind fun s' => s'.resume result s.control

end EventLoop

end Libwayland
