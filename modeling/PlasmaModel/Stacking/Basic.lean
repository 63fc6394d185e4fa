import Mathlib.Data.List.Basic

namespace KWin

-- The layers from `FirstLayer` on. No window is in `UnknownLayer`, which stands for a layer that has
-- not been computed yet.
inductive Layer
  | desktop
  | below
  | normal
  | above
  | notification
  | active
  | popup
  | criticalNotification
  | onScreenDisplay
  | overlay
deriving DecidableEq

def Layer.all : List Layer :=
  [desktop, below, normal, above, notification, active, popup, criticalNotification, onScreenDisplay, overlay]

structure Constraint (Window : Type _) where
  below : Window
  above : Window
deriving DecidableEq

structure Workspace (Window : Type _) where
  unconstrainedStackingOrder : List Window
  computeLayer               : Window → Layer
  -- In the order in which they were added.
  constraints                : List (Constraint Window)

namespace Workspace

variable {Window : Type _} [DecidableEq Window]

-- All constraints above our "below" window.
def parents (ws : Workspace Window) (constraint : Constraint Window) : List (Constraint Window) :=
  ws.constraints.filter (·.above = constraint.below)

-- All constraints below our "above" window.
def children (ws : Workspace Window) (constraint : Constraint Window) : List (Constraint Window) :=
  ws.constraints.filter (·.below = constraint.above)

-- The windows by their layers. In a layer, their relative order in the unconstrained stacking order is
-- preserved.
def layeredStackingOrder (ws : Workspace Window) : List Window :=
  Layer.all.flatMap fun layer => ws.unconstrainedStackingOrder.filter (ws.computeLayer · = layer)

def indexOf (stacking : List Window) (window : Window) : Int :=
  (stacking.idxOf? window).elim (-1) (↑)

def constraintComparator (stacking : List Window) (a b : Constraint Window) : Bool :=
  indexOf stacking a.above > indexOf stacking b.above

def enqueue (constraints : List (Constraint Window) × List (Constraint Window)) (child : Constraint Window) :
    List (Constraint Window) × List (Constraint Window) :=
  if child ∈ constraints.2 then constraints else (constraints.1 ++ [child], constraints.2 ++ [child])

def lift (stacking : List Window) (constraint : Constraint Window) (belowIndex aboveIndex : Nat) : List Window :=
  if aboveIndex < belowIndex then
    (stacking.eraseIdx aboveIndex).insertIdx belowIndex constraint.above
  else
    stacking

-- `std::sort`.
variable (sort : (Constraint Window → Constraint Window → Bool) → List (Constraint Window) → List (Constraint Window))

-- The list `enqueued` holds the constraints whose flag is set. No constraint gets into the queue
-- twice, so there are never more steps than constraints.
def applyConstraints (ws : Workspace Window) :
    Nat → List Window → List (Constraint Window) → List (Constraint Window) → Option (List Window)
  | _, stacking, [], _ => some stacking
  | 0, _, _ :: _, _ => none
  | fuel + 1, stacking, constraint :: constraints, enqueued =>
    match stacking.idxOf? constraint.below, stacking.idxOf? constraint.above with
    | some belowIndex, some aboveIndex =>
      let stacking := lift stacking constraint belowIndex aboveIndex
      let children := sort (constraintComparator stacking) (ws.children constraint)
      let (constraints, enqueued) := children.foldl enqueue (constraints, enqueued)
      applyConstraints ws fuel stacking constraints enqueued
    | _, _ => applyConstraints ws fuel stacking constraints enqueued

def rootConstraints (ws : Workspace Window) : List (Constraint Window) :=
  ws.constraints.filter fun constraint => (ws.parents constraint).isEmpty

def constrainedStackingOrder (ws : Workspace Window) : Option (List Window) :=
  let stacking := ws.layeredStackingOrder
  let constraints := sort (constraintComparator stacking) ws.rootConstraints
  ws.applyConstraints sort ws.constraints.length stacking constraints constraints

end Workspace
end KWin
