import Mathlib.Algebra.Group.Prod
import Mathlib.Algebra.Order.Group.Abs
import Mathlib.Algebra.Order.Ring.Rat
import PlasmaModel.Lib.Runs

namespace KWin

inductive SwipeDirection
  | invalid
  | down
  | left
  | up
  | right
deriving DecidableEq

inductive PinchDirection
  | expanding
  | contracting
deriving DecidableEq

inductive Axis
  | horizontal
  | vertical
  | none
deriving DecidableEq

-- The `id` stands for the object that a gesture is.
structure SwipeGesture where
  id          : Nat
  fingerCount : Nat
  direction   : SwipeDirection := .down
  valid       : direction ≠ .invalid := by decide
deriving DecidableEq

structure PinchGesture where
  id          : Nat
  fingerCount : Nat
  direction   : PinchDirection := .expanding
deriving DecidableEq

inductive Gesture
  | swipe (gesture : SwipeGesture)
  | pinch (gesture : PinchGesture)
deriving DecidableEq

inductive Signal
  | started
  | triggered
  | cancelled
  | progress (progress : ℚ)
  | deltaProgress (delta : ℚ × ℚ)

namespace SwipeGesture

def minimumDelta : ℚ := 200

def deltaToProgress (g : SwipeGesture) (delta : ℚ × ℚ) : ℚ :=
  match g.direction, g.valid with
  | .up, _ | .down, _ => min (|delta.2| / minimumDelta) 1
  | .left, _ | .right, _ => min (|delta.1| / minimumDelta) 1

def minimumDeltaReached (g : SwipeGesture) (delta : ℚ × ℚ) : Bool :=
  1 ≤ g.deltaToProgress delta

-- Gestures along the other axis than the one that has been locked do not start.
def alignsWith (g : SwipeGesture) (currentSwipeAxis : Axis) : Bool :=
  match g.direction, g.valid with
  | .up, _ | .down, _ => currentSwipeAxis ≠ .horizontal
  | .left, _ | .right, _ => currentSwipeAxis ≠ .vertical

end SwipeGesture

namespace PinchGesture

def minimumScaleDelta : ℚ := 1 / 5

def scaleDeltaToProgress (_ : PinchGesture) (scaleDelta : ℚ) : ℚ :=
  |scaleDelta - 1| / minimumScaleDelta

def minimumScaleDeltaReached (g : PinchGesture) (scaleDelta : ℚ) : Bool :=
  1 ≤ g.scaleDeltaToProgress scaleDelta

end PinchGesture

-- The signals that the gestures have emitted are `emitted`, in their order.
structure GestureRecognizer where
  swipeGestures       : List SwipeGesture := []
  pinchGestures       : List PinchGesture := []
  activeSwipeGestures : List SwipeGesture := []
  activePinchGestures : List PinchGesture := []
  currentDelta        : ℚ × ℚ := (0, 0)
  currentScale        : ℚ := 1
  currentFingerCount  : Nat := 0
  currentSwipeAxis    : Axis := .none
  emitted             : List (Gesture × Signal) := []

namespace GestureRecognizer

def emitSwipes (s : GestureRecognizer) (signals : SwipeGesture → List Signal) (gestures : List SwipeGesture) :
    GestureRecognizer :=
  { s with emitted := s.emitted ++ EventLog.emissions .swipe signals gestures }

def emitPinches (s : GestureRecognizer) (signals : PinchGesture → List Signal) (gestures : List PinchGesture) :
    GestureRecognizer :=
  { s with emitted := s.emitted ++ EventLog.emissions .pinch signals gestures }

def registerSwipeGesture (s : GestureRecognizer) (gesture : SwipeGesture) : Option GestureRecognizer :=
  if gesture ∈ s.swipeGestures then none else some { s with swipeGestures := s.swipeGestures ++ [gesture] }

def unregisterSwipeGesture (s : GestureRecognizer) (gesture : SwipeGesture) : GestureRecognizer :=
  let s := { s with swipeGestures := s.swipeGestures.filter (· != gesture) }
  if gesture ∈ s.activeSwipeGestures then
    { s with activeSwipeGestures := s.activeSwipeGestures.erase gesture }.emitSwipes (fun _ => [.cancelled]) [gesture]
  else
    s

def registerPinchGesture (s : GestureRecognizer) (gesture : PinchGesture) : Option GestureRecognizer :=
  if gesture ∈ s.pinchGestures then none else some { s with pinchGestures := s.pinchGestures ++ [gesture] }

def unregisterPinchGesture (s : GestureRecognizer) (gesture : PinchGesture) : GestureRecognizer :=
  let s := { s with pinchGestures := s.pinchGestures.filter (· != gesture) }
  if gesture ∈ s.activePinchGestures then
    { s with activePinchGestures := s.activePinchGestures.erase gesture }.emitPinches (fun _ => [.cancelled]) [gesture]
  else
    s

def startSwipeGesture (s : GestureRecognizer) (fingerCount : Nat) : GestureRecognizer × Nat :=
  let s := { s with currentFingerCount := fingerCount }
  if s.activeSwipeGestures = [] ∧ s.activePinchGestures = [] then
    let gestures := s.swipeGestures.filter fun gesture =>
      gesture.fingerCount = fingerCount ∧ gesture.alignsWith s.currentSwipeAxis
    ({ s with activeSwipeGestures := gestures }.emitSwipes (fun _ => [.started]) gestures, gestures.length)
  else
    (s, 0)

-- One of the two iterations over the active gestures.
def eliminateSwipeGestures (s : GestureRecognizer) (direction : SwipeDirection) : GestureRecognizer :=
  let s := if s.activeSwipeGestures = [] then (s.startSwipeGesture s.currentFingerCount).1 else s
  { s with activeSwipeGestures := s.activeSwipeGestures.filter (·.direction = direction) }.emitSwipes
    (fun _ => [.cancelled]) (s.activeSwipeGestures.filter (·.direction ≠ direction))

def updateSwipeGesture (s : GestureRecognizer) (delta : ℚ × ℚ) : GestureRecognizer :=
  let currentDelta := s.currentDelta + delta
  let swipeAxis :=
    if s.currentSwipeAxis = .none then
      if |currentDelta.2| ≤ |currentDelta.1| then .horizontal else .vertical
    else
      s.currentSwipeAxis
  -- The axis is not locked before the fingers have moved far enough.
  let currentSwipeAxis :=
    if 5 ≤ |currentDelta.1| ∨ 5 ≤ |currentDelta.2| then swipeAxis else s.currentSwipeAxis
  let direction :=
    if swipeAxis = .vertical then
      if currentDelta.2 < 0 then .up else .down
    else
      if currentDelta.1 < 0 then .left else .right
  let s := { s with currentDelta, currentSwipeAxis }
  let s := (s.eliminateSwipeGestures direction).eliminateSwipeGestures direction
  s.emitSwipes (fun g => [.progress (g.deltaToProgress s.currentDelta), .deltaProgress s.currentDelta])
    s.activeSwipeGestures

def cancelActiveGestures (s : GestureRecognizer) : GestureRecognizer :=
  let s := s.emitSwipes (fun _ => [.cancelled]) s.activeSwipeGestures
  let s := s.emitPinches (fun _ => [.cancelled]) s.activePinchGestures
  { s with
    activeSwipeGestures := []
    activePinchGestures := []
    currentScale := 0
    currentDelta := (0, 0)
    currentSwipeAxis := .none }

def cancelSwipeGesture (s : GestureRecognizer) : GestureRecognizer :=
  { s.cancelActiveGestures with currentFingerCount := 0, currentDelta := (0, 0), currentSwipeAxis := .none }

def endSwipeGesture (s : GestureRecognizer) : GestureRecognizer :=
  let s := s.emitSwipes (fun g => [if g.minimumDeltaReached s.currentDelta then .triggered else .cancelled])
    s.activeSwipeGestures
  { s with
    activeSwipeGestures := []
    currentFingerCount := 0
    currentDelta := (0, 0)
    currentSwipeAxis := .none }

def startPinchGesture (s : GestureRecognizer) (fingerCount : Nat) : GestureRecognizer × Nat :=
  let s := { s with currentFingerCount := fingerCount }
  if s.activeSwipeGestures = [] ∧ s.activePinchGestures = [] then
    let gestures := s.pinchGestures.filter (·.fingerCount = fingerCount)
    ({ s with activePinchGestures := gestures }.emitPinches (fun _ => [.started]) gestures, gestures.length)
  else
    (s, 0)

def eliminatePinchGestures (s : GestureRecognizer) (direction : PinchDirection) : GestureRecognizer :=
  let s := if s.activePinchGestures = [] then (s.startPinchGesture s.currentFingerCount).1 else s
  { s with activePinchGestures := s.activePinchGestures.filter (·.direction = direction) }.emitPinches
    (fun _ => [.cancelled]) (s.activePinchGestures.filter (·.direction ≠ direction))

def updatePinchGesture (s : GestureRecognizer) (scale : ℚ) : GestureRecognizer :=
  let direction := if scale < 1 then .contracting else .expanding
  let s := { s with currentScale := scale }
  let s := (s.eliminatePinchGestures direction).eliminatePinchGestures direction
  s.emitPinches (fun g => [.progress (g.scaleDeltaToProgress scale)]) s.activePinchGestures

def cancelPinchGesture (s : GestureRecognizer) : GestureRecognizer :=
  { s.cancelActiveGestures with currentScale := 1, currentFingerCount := 0, currentSwipeAxis := .none }

-- Swipe gestures that are active are forgotten here.
def endPinchGesture (s : GestureRecognizer) : GestureRecognizer :=
  let s := s.emitPinches (fun g => [if g.minimumScaleDeltaReached s.currentScale then .triggered else .cancelled])
    s.activePinchGestures
  { s with
    activeSwipeGestures := []
    activePinchGestures := []
    currentScale := 1
    currentFingerCount := 0
    currentSwipeAxis := .none }

end GestureRecognizer

inductive GestureEvent
  | registerSwipeGesture (gesture : SwipeGesture)
  | unregisterSwipeGesture (gesture : SwipeGesture)
  | registerPinchGesture (gesture : PinchGesture)
  | unregisterPinchGesture (gesture : PinchGesture)
  | startSwipeGesture (fingerCount : Nat)
  | updateSwipeGesture (delta : ℚ × ℚ)
  | cancelSwipeGesture
  | endSwipeGesture
  | startPinchGesture (fingerCount : Nat)
  | updatePinchGesture (scale : ℚ)
  | cancelPinchGesture
  | endPinchGesture
deriving DecidableEq

-- A gesture is registered only while it is not.
def GestureRecognizer.step (s : GestureRecognizer) : GestureEvent → Option GestureRecognizer
  | .registerSwipeGesture gesture => s.registerSwipeGesture gesture
  | .unregisterSwipeGesture gesture => some (s.unregisterSwipeGesture gesture)
  | .registerPinchGesture gesture => s.registerPinchGesture gesture
  | .unregisterPinchGesture gesture => some (s.unregisterPinchGesture gesture)
  | .startSwipeGesture fingerCount => some (s.startSwipeGesture fingerCount).1
  | .updateSwipeGesture delta => some (s.updateSwipeGesture delta)
  | .cancelSwipeGesture => some s.cancelSwipeGesture
  | .endSwipeGesture => some s.endSwipeGesture
  | .startPinchGesture fingerCount => some (s.startPinchGesture fingerCount).1
  | .updatePinchGesture scale => some (s.updatePinchGesture scale)
  | .cancelPinchGesture => some s.cancelPinchGesture
  | .endPinchGesture => some s.endPinchGesture

end KWin
