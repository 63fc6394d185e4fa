import PlasmaModel.Libwayland.EventLoop

-- The timers of an event loop, with the array they are kept in and the timer of the kernel. System calls that set the
-- timer of the kernel do not fail.
namespace Libwayland

inductive TimerFd
  | closed | cleared | set (time : ℤ)
deriving DecidableEq

inductive TimerRecord
  | called (id : ℕ) | removed (id : ℕ)

inductive TimerEvent
  | add (opens allocates grows : Bool)
  | update (id : ℕ) (now msDelay : ℤ)
  | remove (id : ℕ) (shrinks : Bool)
  | dispatch (now : ℤ)
  | returned

-- The sources in `live` have not been removed. The function of the first timer of `listCursor` is running, and the
-- others follow it. Not part of the program: the times in `armed` for which timers were asked for, and the timers that
-- the last dispatch took off the heap, with what has happened since, the latest first.
structure Timers where
  heap       : TimerHeap := {}
  count      : ℕ := 0
  space      : ℕ := 0
  fd         : TimerFd := .closed
  live       : List ℕ := []
  nextSource : ℕ := 0
  clock      : ℤ := 0
  listCursor : List ℕ := []
  armed      : ℕ → Option ℤ := fun _ => none
  taken      : List ℕ := []
  log        : List TimerRecord := []

namespace Timers

def active (s : Timers) : ℕ :=
  s.heap.data.length

-- A time of zero disarms the timer of the kernel.
def setTimer (s : Timers) (deadline : ℤ) : Timers :=
  { s with fd := if deadline = 0 then .cleared else .set deadline }

def clearTimer (s : Timers) : Timers :=
  { s with fd := .cleared }

def ensureTimerfd (s : Timers) (opens : Bool) : Option Timers :=
  if s.fd ≠ .closed then
    some s
  else if opens then
    some s.clearTimer
  else
    none

def reserve (s : Timers) (grows : Bool) : Option Timers :=
  if s.count + 1 > s.space then
    if grows then
      some { s with space := if s.space ≥ 8 then s.space * 2 else 8, count := s.count + 1 }
    else
      none
  else
    some { s with count := s.count + 1 }

def unreserve (s : Timers) (shrinks : Bool) : Timers :=
  let s := { s with count := s.count - 1 }
  if s.space ≥ 16 ∧ s.space ≥ 4 * s.count ∧ shrinks then
    { s with space := s.space / 2 }
  else
    s

-- This is `wl_event_loop_add_timer`, where the timer of the kernel may not open, and the allocations may fail.
def addTimer (s : Timers) (opens allocates grows : Bool) : Timers :=
  match s.ensureTimerfd opens with
  | none => s
  | some s =>
    if allocates then
      match s.reserve grows with
      | none => s
      | some s => { s with live := s.nextSource :: s.live, nextSource := s.nextSource + 1 }
    else
      s

-- This is `wl_event_source_timer_update`.
def updateTimer (s : Timers) (id : ℕ) (now msDelay : ℤ) : Timers :=
  let wasArmed := s.heap.heapIdx id ≠ -1
  let s := { s with heap := s.heap.update id now msDelay }
  if msDelay > 0 then
    if s.heap.heapIdx id = 0 then
      s.setTimer (now + msDelay * 1000000)
    else
      s
  else if wasArmed ∧ s.active = 0 then
    s.clearTimer
  else
    s

-- This is `wl_event_source_remove` for a timer.
def removeTimer (s : Timers) (id : ℕ) (shrinks : Bool) : Timers :=
  let s := (s.updateTimer id 0 0).unreserve shrinks
  { s with live := s.live.erase id, log := .removed id :: s.log }

-- The function of the next timer that has not been removed is called.
def runDue (s : Timers) : List ℕ → Timers
  | [] => { s with listCursor := [] }
  | id :: rest =>
    if id ∈ s.live then
      { s with listCursor := id :: rest, log := .called id :: s.log }
    else
      s.runDue rest

-- This is `wl_timer_heap_dispatch` until it calls the first function.
def dispatch (s : Timers) (now : ℤ) : Timers :=
  let (due, heap) := s.heap.takeDue now
  let s := { s with heap, taken := due, log := [] }
  let s := match heap.data with
    | [] => s.clearTimer
    | first :: _ => s.setTimer (heap.deadline first)
  s.runDue due

-- What is armed after an event, by what the event asks for.
def rearm (armed : ℕ → Option ℤ) : TimerEvent → ℕ → Option ℤ
  | .add .. => armed
  | .update id now msDelay => Function.update armed id (if msDelay > 0 then some (now + msDelay * 1000000) else none)
  | .remove id _ => Function.update armed id none
  | .dispatch now => fun id => (armed id).filter (now < ·)
  | .returned => armed

def act (s : Timers) : TimerEvent → Option Timers
  | .add opens allocates grows => some (s.addTimer opens allocates grows)
  | .update id now msDelay =>
    if id ∈ s.live ∧ s.clock ≤ now then
      some { s.updateTimer id now msDelay with clock := now }
    else
      none
  | .remove id shrinks => if id ∈ s.live then some (s.removeTimer id shrinks) else none
  | .dispatch now =>
    if s.listCursor = [] ∧ s.fd ≠ .closed ∧ s.clock ≤ now then
      some { s.dispatch now with clock := now }
    else
      none
  | .returned =>
    match s.listCursor with
    | [] => none
    | _ :: rest => some (s.runDue rest)

def step (s : Timers) (event : TimerEvent) : Option Timers :=
  (s.act event).map ({ · with armed := rearm s.armed event })

end Timers

end Libwayland
