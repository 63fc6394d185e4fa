import Mathlib.Data.List.AList
import PlasmaModel.Region.Rect

namespace KWin

inductive ElectricBorder
  | top | topRight | right | bottomRight | bottom | bottomLeft | left | topLeft
deriving DecidableEq

inductive ElectricBorderAction
  | none | showDesktop | lockScreen | kRunner | activityManager | applicationLauncher
deriving DecidableEq

namespace ElectricBorder

def isLeft (border : ElectricBorder) : Bool :=
  border = left || border = topLeft || border = bottomLeft

def isRight (border : ElectricBorder) : Bool :=
  border = right || border = topRight || border = bottomRight

def isTop (border : ElectricBorder) : Bool :=
  border = top || border = topLeft || border = topRight

def isBottom (border : ElectricBorder) : Bool :=
  border = bottom || border = bottomLeft || border = bottomRight

def isCorner (border : ElectricBorder) : Bool :=
  border = topLeft || border = topRight || border = bottomRight || border = bottomLeft

def isScreenEdge (border : ElectricBorder) : Bool :=
  border = left || border = right || border = top || border = bottom

end ElectricBorder

namespace ScreenEdges

-- The recogniser's list of gestures is kept as one flag per edge, since it erases all copies of a gesture.
structure Edge (Object Slot Action Window : Type) where
  border         : ElectricBorder
  geometry       : Rect
  action         : ElectricBorderAction := .none
  touchAction    : ElectricBorderAction := .none
  reserved       : Int := 0
  approaching    : Bool := false
  blocked        : Bool := false
  client         : Option Window := none
  callBacks      : AList fun _ : Object => Slot := ∅
  touchCallBacks : List Action := []
  hasGesture     : Bool := false

namespace Edge

variable {Object Slot Action Window : Type} [DecidableEq Object] [DecidableEq Action]

def isReserved (e : Edge Object Slot Action Window) : Bool :=
  e.reserved ≠ 0

def activatesForTouchGesture (e : Edge Object Slot Action Window) : Bool :=
  e.border.isScreenEdge && !e.blocked &&
    (e.client.isSome || e.touchAction ≠ .none || !e.touchCallBacks.isEmpty)

def addGesture (e : Edge Object Slot Action Window) : Edge Object Slot Action Window :=
  { e with hasGesture := true }

def removeGesture (e : Edge Object Slot Action Window) : Edge Object Slot Action Window :=
  { e with hasGesture := false }

-- What the edge does when `activatesForTouchGestureChanged` is emitted.
def touchGestureChanged (e : Edge Object Slot Action Window) : Edge Object Slot Action Window :=
  if e.isReserved then
    if e.activatesForTouchGesture then
      e.addGesture
    else
      e.removeGesture
  else
    e

def emitIfChanged (wasTouch : Bool) (e : Edge Object Slot Action Window) : Edge Object Slot Action Window :=
  if wasTouch = e.activatesForTouchGesture then
    e
  else
    e.touchGestureChanged

def startApproaching (e : Edge Object Slot Action Window) : Edge Object Slot Action Window :=
  { e with approaching := true }

def stopApproaching (e : Edge Object Slot Action Window) : Edge Object Slot Action Window :=
  { e with approaching := false }

def activate (e : Edge Object Slot Action Window) : Edge Object Slot Action Window :=
  if e.activatesForTouchGesture then
    e.addGesture
  else
    e

def deactivate (e : Edge Object Slot Action Window) : Edge Object Slot Action Window :=
  e.removeGesture

def reserve (e : Edge Object Slot Action Window) : Edge Object Slot Action Window :=
  let e := { e with reserved := e.reserved + 1 }
  if e.reserved = 1 then
    e.activate
  else
    e

def unreserve (e : Edge Object Slot Action Window) : Edge Object Slot Action Window :=
  let e := { e with reserved := e.reserved - 1 }
  if e.reserved = 0 then
    e.stopApproaching.deactivate
  else
    e

def reserveObject (object : Object) (slot : Slot) (e : Edge Object Slot Action Window) :
    Edge Object Slot Action Window :=
  reserve { e with callBacks := e.callBacks.insert object slot }

def unreserveObject (object : Object) (e : Edge Object Slot Action Window) : Edge Object Slot Action Window :=
  if object ∈ e.callBacks then
    unreserve { e with callBacks := e.callBacks.erase object }
  else
    e

def reserveTouchCallBack (action : Action) (e : Edge Object Slot Action Window) :
    Edge Object Slot Action Window :=
  if action ∈ e.touchCallBacks then
    e
  else
    let wasTouch := e.activatesForTouchGesture
    reserve (emitIfChanged wasTouch { e with touchCallBacks := e.touchCallBacks ++ [action] })

def unreserveTouchCallBack (action : Action) (e : Edge Object Slot Action Window) :
    Edge Object Slot Action Window :=
  if action ∈ e.touchCallBacks then
    let wasTouch := e.activatesForTouchGesture
    unreserve (emitIfChanged wasTouch { e with touchCallBacks := e.touchCallBacks.erase action })
  else
    e

def setAction (action : ElectricBorderAction) (e : Edge Object Slot Action Window) : Edge Object Slot Action Window :=
  { e with action }

def setTouchAction (touchAction : ElectricBorderAction) (e : Edge Object Slot Action Window) :
    Edge Object Slot Action Window :=
  let wasTouch := e.activatesForTouchGesture
  emitIfChanged wasTouch { e with touchAction }

def setClient (client : Window) (e : Edge Object Slot Action Window) : Edge Object Slot Action Window :=
  let wasTouch := e.activatesForTouchGesture
  emitIfChanged wasTouch { e with client := some client }

-- `covers` tells which points are in the frame of the active window, if this is in full screen and no
-- full screen effect is active.
def checkBlocking (remainActiveOnFullscreen : Bool) (covers : Point → Bool) (e : Edge Object Slot Action Window) :
    Edge Object Slot Action Window :=
  let newValue := (!remainActiveOnFullscreen || e.client.isSome) && covers e.geometry.center
  if newValue = e.blocked then
    e
  else
    let wasTouch := e.activatesForTouchGesture
    let e := { e with blocked := newValue }
    let e := if e.blocked && e.approaching then e.stopApproaching else e
    emitIfChanged wasTouch e

end Edge

end ScreenEdges

end KWin
