import PlasmaModel.Region.Operations
import PlasmaModel.ScreenEdges.Edge

namespace KWin

def Orientations.isEmpty (o : Orientations) : Bool :=
  !o.horizontal && !o.vertical

structure ScreenEdges (Object Slot Action Window : Type) where
  desktopSwitching         : Bool := false
  virtualDesktopLayout     : Orientations := {}
  allScreenCorners         : Bool := true
  touchTarget              : Int := 8
  cornerOffset             : Int := 40
  remainActiveOnFullscreen : Bool := false
  edges                    : List (ScreenEdges.Edge Object Slot Action Window) := []
  -- The members `m_actionTopLeft`, `m_actionTop` and so on.
  actions                  : ElectricBorder → ElectricBorderAction := fun _ => .none
  touchCallbacks           : ElectricBorder → Option ElectricBorderAction := fun _ => none

namespace ScreenEdges

structure WindowState where
  isDeleted     : Bool
  frameGeometry : Rect
  screen        : Rect

structure Workspace (Window : Type) where
  geometry : Rect
  outputs  : List Rect
  windows  : Window → WindowState
  covers   : Point → Bool

-- Where an edge is to be created.
structure Place where
  border   : ElectricBorder
  geometry : Rect

variable {Object Slot Action Window : Type}

-- The four tests for the sides of a screen. The screen itself is known by its geometry.
def isOuterScreen (outputs : List Rect) (screen : Rect) (aligned : Bool) (beside : Rect → Bool) : Bool :=
  outputs.length = 1 || aligned || outputs.all fun otherGeo => otherGeo = screen || !beside otherGeo

def isLeftScreen (outputs : List Rect) (screen fullArea : Rect) : Bool :=
  isOuterScreen outputs screen (screen.left = fullArea.left) fun otherGeo =>
    screen.left = otherGeo.right && screen.top < otherGeo.bottom && screen.bottom > otherGeo.top

def isRightScreen (outputs : List Rect) (screen fullArea : Rect) : Bool :=
  isOuterScreen outputs screen (screen.right = fullArea.right) fun otherGeo =>
    screen.right = otherGeo.left && screen.top < otherGeo.bottom && screen.bottom > otherGeo.top

def isTopScreen (outputs : List Rect) (screen fullArea : Rect) : Bool :=
  isOuterScreen outputs screen (screen.top = fullArea.top) fun otherGeo =>
    screen.top = otherGeo.bottom && screen.left < otherGeo.right && screen.right > otherGeo.left

def isBottomScreen (outputs : List Rect) (screen fullArea : Rect) : Bool :=
  isOuterScreen outputs screen (screen.bottom = fullArea.bottom) fun otherGeo =>
    screen.bottom = otherGeo.top && screen.left < otherGeo.right && screen.right > otherGeo.left

def place (border : ElectricBorder) (x y width height : Int) : Place :=
  ⟨border, Rect.ofSize ⟨x, y⟩ ⟨width, height⟩⟩

-- The places of the edges are listed before the edges are created at them, none of which looks at the others.
def createVerticalEdge (s : ScreenEdges Object Slot Action Window) (outputs : List Rect) (border : ElectricBorder)
    (screen fullArea : Rect) : List Place :=
  if border ≠ .right && border ≠ .left then
    []
  else
    let height := screen.size.height
    let x := if border = .left then screen.left else screen.right - s.touchTarget
    let isTop := !s.allScreenCorners && isTopScreen outputs screen fullArea
    let isBottom := !s.allScreenCorners && isBottomScreen outputs screen fullArea
    let height := if isTop then height - s.cornerOffset else height
    let y := if isTop then screen.top + s.cornerOffset else screen.top
    let height := if isBottom then height - s.cornerOffset else height
    let topCorner :=
      if isTop then
        let edge := if border = .left then .topLeft else .topRight
        [place edge x screen.top s.touchTarget s.touchTarget]
      else
        []
    let bottomCorner :=
      if isBottom then
        let edge := if border = .left then .bottomLeft else .bottomRight
        [place edge x (screen.bottom - s.touchTarget) s.touchTarget s.touchTarget]
      else
        []
    let side :=
      if height ≤ s.cornerOffset then
        []
      else if s.allScreenCorners then
        [place border x (y + s.cornerOffset) s.touchTarget (height - 2 * s.cornerOffset)]
      else
        [place border x y s.touchTarget height]
    topCorner ++ bottomCorner ++ side

def createHorizontalEdge (s : ScreenEdges Object Slot Action Window) (outputs : List Rect) (border : ElectricBorder)
    (screen fullArea : Rect) : List Place :=
  if border ≠ .top && border ≠ .bottom then
    []
  else
    let isLeft := !s.allScreenCorners && isLeftScreen outputs screen fullArea
    let isRight := !s.allScreenCorners && isRightScreen outputs screen fullArea
    let x := if isLeft then screen.left + s.cornerOffset else screen.left
    let width := if isLeft then screen.size.width - s.cornerOffset else screen.size.width
    let width := if isRight then width - s.cornerOffset else width
    let y := if border = .top then screen.top else screen.bottom - s.touchTarget
    if width ≤ s.cornerOffset then
      []
    else if s.allScreenCorners then
      [place border (x + s.cornerOffset) y (width - 2 * s.cornerOffset) s.touchTarget]
    else
      [place border x y width s.touchTarget]

def partPlaces (s : ScreenEdges Object Slot Action Window) (outputs : List Rect) (fullArea screenPart : Rect) :
    List Place :=
  (if isLeftScreen outputs screenPart fullArea then
    s.createVerticalEdge outputs .left screenPart fullArea else []) ++
  (if isRightScreen outputs screenPart fullArea then
    s.createVerticalEdge outputs .right screenPart fullArea else []) ++
  (if isTopScreen outputs screenPart fullArea then
    s.createHorizontalEdge outputs .top screenPart fullArea else []) ++
  (if isBottomScreen outputs screenPart fullArea then
    s.createHorizontalEdge outputs .bottom screenPart fullArea else [])

def cornerPlaces (s : ScreenEdges Object Slot Action Window) (geo : Rect) : List Place :=
  if s.allScreenCorners then
    [place .topLeft geo.left geo.top s.touchTarget s.touchTarget,
     place .topRight (geo.right - s.touchTarget) geo.top s.touchTarget s.touchTarget,
     place .bottomLeft geo.left (geo.bottom - s.touchTarget) s.touchTarget s.touchTarget,
     place .bottomRight (geo.right - s.touchTarget) (geo.bottom - s.touchTarget) s.touchTarget s.touchTarget]
  else
    []

-- What of each output no earlier output shows.
def screenRegions (processedRegion : Region) : List Rect → List (Rect × Region)
  | [] => []
  | geometry :: outputs =>
    let screen := (Region.ofRect geometry).subtracted processedRegion
    (geometry, screen) :: screenRegions (processedRegion.united screen) outputs

def places (s : ScreenEdges Object Slot Action Window) (fullArea : Rect) (outputs : List Rect) : List Place :=
  (screenRegions {} outputs).flatMap fun (geometry, screen) =>
    screen.rects.flatMap (s.partPlaces outputs fullArea) ++ s.cornerPlaces geometry

-- Reserves or unreserves an edge for the switching of desktops.
def Edge.forDesktopSwitching (layout : Orientations)
    (f : Edge Object Slot Action Window → Edge Object Slot Action Window) (e : Edge Object Slot Action Window) :
    Edge Object Slot Action Window :=
  if e.border.isCorner then
    f e
  else
    let e := if layout.horizontal && (e.border.isLeft || e.border.isRight) then f e else e
    if layout.vertical && (e.border.isTop || e.border.isBottom) then f e else e

variable [DecidableEq Object] [DecidableEq Action] [DecidableEq Window]

def actionForTouchEdge (s : ScreenEdges Object Slot Action Window) (border : ElectricBorder) : ElectricBorderAction :=
  (s.touchCallbacks border).getD .none

def createEdge (s : ScreenEdges Object Slot Action Window) (covers : Point → Bool) (p : Place) (createAction : Bool) :
    Edge Object Slot Action Window :=
  let edge : Edge Object Slot Action Window := { border := p.border, geometry := p.geometry }
  let edge :=
    if createAction then
      let action := s.actions edge.border
      let edge := if action ≠ .none then edge.reserve.setAction action else edge
      let touchAction := s.actionForTouchEdge edge.border
      if touchAction ≠ .none then edge.reserve.setTouchAction touchAction else edge
    else
      edge
  let edge := if s.desktopSwitching then edge.forDesktopSwitching s.virtualDesktopLayout Edge.reserve else edge
  edge.checkBlocking s.remainActiveOnFullscreen covers

-- The reservations that an edge takes over from an old edge.
def Edge.copyReservations (edge oldEdge : Edge Object Slot Action Window) : Edge Object Slot Action Window :=
  if oldEdge.border ≠ edge.border then
    edge
  else
    let edge := oldEdge.callBacks.entries.foldl (fun edge callback => edge.reserveObject callback.1 callback.2) edge
    oldEdge.touchCallBacks.foldl (fun edge action => edge.reserveTouchCallBack action) edge

def clientPlace (window : WindowState) : ElectricBorder → Option Place
  | .top => some (place .top window.frameGeometry.left window.screen.top window.frameGeometry.size.width 1)
  | .bottom =>
    some (place .bottom window.frameGeometry.left (window.screen.bottom - 1) window.frameGeometry.size.width 1)
  | .left => some (place .left window.screen.left window.frameGeometry.top 1 window.frameGeometry.size.height)
  | .right => some (place .right (window.screen.right - 1) window.frameGeometry.top 1 window.frameGeometry.size.height)
  | _ => none

def createEdgeForClient (s : ScreenEdges Object Slot Action Window) (workspace : Workspace Window) (client : Window)
    (border : ElectricBorder) : ScreenEdges Object Slot Action Window :=
  if (workspace.windows client).isDeleted then
    s
  else
    match clientPlace (workspace.windows client) border with
    | none => s
    | some p =>
      { s with edges := s.edges ++ [((s.createEdge workspace.covers p false).setClient client).reserve] }

def deleteEdgeForClient (s : ScreenEdges Object Slot Action Window) (window : Window) :
    ScreenEdges Object Slot Action Window :=
  { s with edges := s.edges.filter (·.client ≠ some window) }

def reserveClient (s : ScreenEdges Object Slot Action Window) (workspace : Workspace Window) (client : Window)
    (border : Option ElectricBorder) : ScreenEdges Object Slot Action Window :=
  let s := s.deleteEdgeForClient client
  match border with
  | none => s
  | some border => s.createEdgeForClient workspace client border

-- The edges of clients follow all others, as `std::partition` leaves them. Windows whose edge cannot be created any
-- more show themselves, which changes no edge.
def recreateEdges (s : ScreenEdges Object Slot Action Window) (workspace : Workspace Window) :
    ScreenEdges Object Slot Action Window :=
  let created := (s.places workspace.geometry workspace.outputs).map (s.createEdge workspace.covers · true)
  let oldEdges := s.edges.filter (·.client.isNone)
  let edges := created.map fun edge => oldEdges.foldl Edge.copyReservations edge
  s.edges.foldl (fun s oldEdge =>
    match oldEdge.client with
    | none => s
    | some client => s.reserveClient workspace client oldEdge.border) { s with edges }

def mapBorder (s : ScreenEdges Object Slot Action Window) (border : ElectricBorder)
    (f : Edge Object Slot Action Window → Edge Object Slot Action Window) : ScreenEdges Object Slot Action Window :=
  { s with edges := s.edges.map fun edge => if edge.border = border then f edge else edge }

def setActionForBorder (s : ScreenEdges Object Slot Action Window) (border : ElectricBorder)
    (newValue : ElectricBorderAction) : ScreenEdges Object Slot Action Window :=
  let oldValue := s.actions border
  if oldValue = newValue then
    s
  else
    let s := if oldValue = .none then s.mapBorder border Edge.reserve else s
    let s := if newValue = .none then s.mapBorder border Edge.unreserve else s
    let s := { s with actions := Function.update s.actions border newValue }
    s.mapBorder border (Edge.setAction newValue)

def setActionForTouchBorder (s : ScreenEdges Object Slot Action Window) (border : ElectricBorder)
    (newValue : ElectricBorderAction) : ScreenEdges Object Slot Action Window :=
  let oldValue := (s.touchCallbacks border).getD .none
  if oldValue = newValue then
    s
  else
    let s := if oldValue = .none then s.mapBorder border Edge.reserve else s
    let s :=
      if newValue = .none then
        let s := s.mapBorder border Edge.unreserve
        { s with touchCallbacks := Function.update s.touchCallbacks border none }
      else
        { s with touchCallbacks := Function.update s.touchCallbacks border (some newValue) }
    s.mapBorder border (Edge.setTouchAction newValue)

def reserveDesktopSwitching (s : ScreenEdges Object Slot Action Window) (isToReserve : Bool) (o : Orientations) :
    ScreenEdges Object Slot Action Window :=
  if o.isEmpty then
    s
  else
    let f := if isToReserve then Edge.reserve else Edge.unreserve
    { s with edges := s.edges.map (Edge.forDesktopSwitching s.virtualDesktopLayout f) }

def updateLayout (s : ScreenEdges Object Slot Action Window) (desktopMatrix : Size) :
    ScreenEdges Object Slot Action Window :=
  let newLayout := { horizontal := desktopMatrix.width > 1, vertical := desktopMatrix.height > 1 }
  if newLayout = s.virtualDesktopLayout then
    s
  else
    let s := if s.desktopSwitching then s.reserveDesktopSwitching false s.virtualDesktopLayout else s
    let s := { s with virtualDesktopLayout := newLayout }
    if s.desktopSwitching then s.reserveDesktopSwitching true s.virtualDesktopLayout else s

def setDesktopSwitching (s : ScreenEdges Object Slot Action Window) (enable : Bool) :
    ScreenEdges Object Slot Action Window :=
  if enable = s.desktopSwitching then
    s
  else
    let s := { s with desktopSwitching := enable }
    s.reserveDesktopSwitching enable s.virtualDesktopLayout

def setAllScreenCorners (s : ScreenEdges Object Slot Action Window) (workspace : Workspace Window) (enable : Bool) :
    ScreenEdges Object Slot Action Window :=
  if enable = s.allScreenCorners then
    s
  else
    recreateEdges { s with allScreenCorners := enable } workspace

def setTouchTarget (s : ScreenEdges Object Slot Action Window) (workspace : Workspace Window) (newTouchTarget : Int) :
    ScreenEdges Object Slot Action Window :=
  if newTouchTarget = s.touchTarget then
    s
  else
    recreateEdges { s with touchTarget := newTouchTarget } workspace

def reserve (s : ScreenEdges Object Slot Action Window) (border : ElectricBorder) (object : Object) (slot : Slot) :
    ScreenEdges Object Slot Action Window :=
  s.mapBorder border (Edge.reserveObject object slot)

def unreserve (s : ScreenEdges Object Slot Action Window) (border : ElectricBorder) (object : Object) :
    ScreenEdges Object Slot Action Window :=
  s.mapBorder border (Edge.unreserveObject object)

def reserveTouch (s : ScreenEdges Object Slot Action Window) (border : ElectricBorder) (action : Action) :
    ScreenEdges Object Slot Action Window :=
  s.mapBorder border (Edge.reserveTouchCallBack action)

def unreserveTouch (s : ScreenEdges Object Slot Action Window) (border : ElectricBorder) (action : Action) :
    ScreenEdges Object Slot Action Window :=
  s.mapBorder border (Edge.unreserveTouchCallBack action)

def checkBlocking (s : ScreenEdges Object Slot Action Window) (covers : Point → Bool) :
    ScreenEdges Object Slot Action Window :=
  { s with edges := s.edges.map (Edge.checkBlocking s.remainActiveOnFullscreen covers) }

-- Whether an edge that is there for everybody holds a reservation of the object.
def Holds (s : ScreenEdges Object Slot Action Window) (border : ElectricBorder) (object : Object) : Prop :=
  ∃ edge ∈ s.edges, edge.client = none ∧ edge.border = border ∧ object ∈ edge.callBacks

instance (s : ScreenEdges Object Slot Action Window) (border : ElectricBorder) (object : Object) :
    Decidable (s.Holds border object) :=
  inferInstanceAs (Decidable (∃ edge ∈ s.edges, _))

inductive Event (Object Slot Action Window : Type)
  | setActionForBorder (border : ElectricBorder) (newValue : ElectricBorderAction)
  | setActionForTouchBorder (border : ElectricBorder) (newValue : ElectricBorderAction)
  | updateLayout (desktopMatrix : Size)
  | setDesktopSwitching (enable : Bool)
  | setAllScreenCorners (workspace : Workspace Window) (enable : Bool)
  | setTouchTarget (workspace : Workspace Window) (newTouchTarget : Int)
  | setRemainActiveOnFullscreen (remainActive : Bool)
  | recreateEdges (workspace : Workspace Window)
  | checkBlocking (covers : Point → Bool)
  | reserve (border : ElectricBorder) (object : Object) (slot : Slot)
  | unreserve (border : ElectricBorder) (object : Object)
  | objectDestroyed (object : Object)
  | reserveTouch (border : ElectricBorder) (action : Action)
  | unreserveTouch (border : ElectricBorder) (action : Action)
  | actionDestroyed (action : Action)
  | reserveClient (workspace : Workspace Window) (client : Window) (border : Option ElectricBorder)
  | windowClosed (window : Window)
  -- The edge of a window is triggered, and the window shown.
  | clientTriggered (window : Window)
  -- The pointer or a gesture gets near the edge at this position, and away from it.
  | startApproaching (i : ℕ)
  | stopApproaching (i : ℕ)

-- An object that has a reservation at the border does not ask for another one.
def step (s : ScreenEdges Object Slot Action Window) :
    Event Object Slot Action Window → Option (ScreenEdges Object Slot Action Window)
  | .setActionForBorder border newValue => some (s.setActionForBorder border newValue)
  | .setActionForTouchBorder border newValue => some (s.setActionForTouchBorder border newValue)
  | .updateLayout desktopMatrix => some (s.updateLayout desktopMatrix)
  | .setDesktopSwitching enable => some (s.setDesktopSwitching enable)
  | .setAllScreenCorners workspace enable => some (s.setAllScreenCorners workspace enable)
  | .setTouchTarget workspace newTouchTarget => some (s.setTouchTarget workspace newTouchTarget)
  | .setRemainActiveOnFullscreen remainActive => some { s with remainActiveOnFullscreen := remainActive }
  | .recreateEdges workspace => some (s.recreateEdges workspace)
  | .checkBlocking covers => some (s.checkBlocking covers)
  | .reserve border object slot => if s.Holds border object then none else some (s.reserve border object slot)
  | .unreserve border object => some (s.unreserve border object)
  | .objectDestroyed object => some { s with edges := s.edges.map (Edge.unreserveObject object) }
  | .reserveTouch border action => some (s.reserveTouch border action)
  | .unreserveTouch border action => some (s.unreserveTouch border action)
  | .actionDestroyed action => some { s with edges := s.edges.map (Edge.unreserveTouchCallBack action) }
  | .reserveClient workspace client border => some (s.reserveClient workspace client border)
  | .windowClosed window => some (s.deleteEdgeForClient window)
  | .clientTriggered window =>
    some { s with edges := s.edges.map fun edge => if edge.client = some window then edge.unreserve else edge }
  | .startApproaching i =>
    some { s with edges := s.edges.modify i fun edge => if edge.isReserved then edge.startApproaching else edge }
  | .stopApproaching i => some { s with edges := s.edges.modify i Edge.stopApproaching }

end ScreenEdges

end KWin
