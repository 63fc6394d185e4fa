import PlasmaModel.Lib.RoseTree
import PlasmaModel.Outputs.Transform

namespace KWin

def Size.toSizeF (size : Size) : SizeF :=
  ⟨size.width, size.height⟩

def RectF.topLeft (r : RectF) : PointF :=
  ⟨r.left, r.top⟩

def RectF.size (r : RectF) : SizeF :=
  ⟨r.right - r.left, r.bottom - r.top⟩

namespace Scene

structure RenderView where
  viewport     : RectF
  scale        : ℚ
  renderOffset : Point := 0

namespace RenderView

variable (view : RenderView)

def deviceRect : Rect :=
  .ofSize view.renderOffset
    ⟨roundAway (view.viewport.size.width * view.scale), roundAway (view.viewport.size.height * view.scale)⟩

def mapToDeviceCoordinates (logicalGeometry : RectF) : RectF :=
  ((logicalGeometry.translated ⟨-view.viewport.left, -view.viewport.top⟩).scaled view.scale).translated
    ⟨view.renderOffset.x, view.renderOffset.y⟩

def mapToDeviceCoordinatesAligned (logicalGeometry : RectF) : Rect :=
  (view.mapToDeviceCoordinates logicalGeometry).roundedOut

end RenderView

-- The positions are those of the item and of the items above it, none of which is transformed.
structure SurfaceItem where
  positions                : List PointF := []
  surfaceToBufferTransform : OutputTransform
  bufferSourceBox          : RectF
  bufferSize               : Size
  destinationSize          : SizeF

namespace SurfaceItem

variable (item : SurfaceItem)

def bufferToSurfaceTransform : OutputTransform :=
  item.surfaceToBufferTransform.inverted

def sourceBox : RectF :=
  item.bufferToSurfaceTransform.mapRectF item.bufferSourceBox item.bufferSize.toSizeF

-- The rectangles are aligned, so that the region has integral edges.
def mapFromBuffer (region : Region) : Region :=
  let xScale := item.destinationSize.width / item.sourceBox.size.width
  let yScale := item.destinationSize.height / item.sourceBox.size.height
  region.rects.foldl
    (fun result rect =>
      let r := (item.bufferToSurfaceTransform.mapRectF rect.toRectF item.bufferSize.toSizeF).translated
        ⟨-item.sourceBox.left, -item.sourceBox.top⟩
      let scaled : RectF := ⟨r.left * xScale, r.top * yScale, r.left * xScale + r.size.width * xScale,
        r.top * yScale + r.size.height * yScale⟩
      result.united (.ofRect scaled.roundedOut))
    {}

def paintedDeviceArea (view : Scene.RenderView) (rect : Rect) : Rect :=
  let snapped := (rect.scaled view.scale view.scale).rounded.toRectF
  let snapped := item.positions.foldl
    (fun snapped position =>
      snapped.translated ⟨roundAway (position.x * view.scale), roundAway (position.y * view.scale)⟩)
    snapped
  (view.mapToDeviceCoordinatesAligned (snapped.scaled (1 / view.scale))).intersected view.deviceRect

def paintedDeviceRegion (view : Scene.RenderView) (region : Region) : Region :=
  region.rects.foldl (fun ret part => ret.united (.ofRect (item.paintedDeviceArea view part))) {}

-- How many buffer pixels there are to a logical one.
def xScale : ℚ :=
  item.sourceBox.size.width / item.destinationSize.width

def yScale : ℚ :=
  item.sourceBox.size.height / item.destinationSize.height

-- The part of a view that is scheduled for repaint, the item being visible there.
def addDamage (view : Scene.RenderView) (region : Region) : Option Region :=
  let logicalDamage := item.mapFromBuffer region
  let viewDamage :=
    if item.xScale ≠ view.scale ∨ item.yScale ≠ view.scale then
      let xPadding := ⌈(1 / 2) / item.xScale⌉
      let yPadding := ⌈(1 / 2) / item.yScale⌉
      logicalDamage.grownBy ⟨xPadding, yPadding, xPadding, yPadding⟩
    else
      some logicalDamage
  viewDamage.map (item.paintedDeviceRegion view)

-- Where a point of the item is in the buffer, as it is for the corners of the quads before they are rounded.
def mapToBuffer (point : PointF) : PointF :=
  let mapped := item.surfaceToBufferTransform.mapPointF ⟨point.x * item.xScale, point.y * item.yScale⟩
    item.sourceBox.size
  ⟨item.bufferSourceBox.left + mapped.x, item.bufferSourceBox.top + mapped.y⟩

end SurfaceItem
end Scene

def qFuzzyIsNull (d : ℚ) : Bool :=
  |d| ≤ 1 / 1000000000000

namespace RectF

-- The parts of a rectangle that are around another one.
def subtracted (r other : RectF) : List RectF :=
  let top    := max r.top other.top
  let bottom := min r.bottom other.bottom
  [⟨r.left, r.top, r.right, min r.bottom other.top⟩, ⟨r.left, top, min r.right other.left, bottom⟩,
    ⟨max r.left other.right, top, r.right, bottom⟩, ⟨r.left, max r.top other.bottom, r.right, r.bottom⟩].filter
    (!·.isEmpty)

end RectF

namespace Scene

structure BorderRadius where
  topLeft     : ℚ := 0
  topRight    : ℚ := 0
  bottomRight : ℚ := 0
  bottomLeft  : ℚ := 0

namespace BorderRadius

variable (radius : BorderRadius)

def isNull : Bool :=
  qFuzzyIsNull radius.topLeft && qFuzzyIsNull radius.topRight && qFuzzyIsNull radius.bottomRight &&
    qFuzzyIsNull radius.bottomLeft

-- A region is the list of its rectangles here. What the scene makes of it depends on their union only.
def clip (region : List RectF) (bounds : RectF) : List RectF :=
  let clipped := region
  let clipped :=
    if 0 < radius.topLeft then
      clipped.flatMap (·.subtracted ⟨bounds.left, bounds.top, bounds.left + radius.topLeft,
        bounds.top + radius.topLeft⟩)
    else
      clipped
  let clipped :=
    if 0 < radius.topRight then
      clipped.flatMap (·.subtracted ⟨bounds.right - radius.topRight, bounds.top, bounds.right,
        bounds.top + radius.topRight⟩)
    else
      clipped
  let clipped :=
    if 0 < radius.bottomRight then
      clipped.flatMap (·.subtracted ⟨bounds.right - radius.bottomRight, bounds.bottom - radius.bottomRight,
        bounds.right, bounds.bottom⟩)
    else
      clipped
  if 0 < radius.bottomLeft then
    clipped.flatMap (·.subtracted ⟨bounds.left, bounds.bottom - radius.bottomLeft, bounds.left + radius.bottomLeft,
      bounds.bottom⟩)
  else
    clipped

end BorderRadius

structure ClipCorner where
  box    : RectF
  radius : BorderRadius

-- An item which is moved and not transformed otherwise.
structure SceneItem where
  position        : PointF := ⟨0, 0⟩
  size            : SizeF
  borderRadius    : BorderRadius := {}
  opacity         : ℚ := 1
  explicitVisible : Bool := true
  opaqueRegion    : RegionF := {}

def SceneItem.rect (item : SceneItem) : RectF :=
  ⟨0, 0, item.size.width, item.size.height⟩

def calculateClipCorner (item : SceneItem) (parentClip : Option ClipCorner) : Option ClipCorner :=
  if !item.borderRadius.isNull then
    some { box := item.rect, radius := item.borderRadius }
  else
    parentClip.map fun parentClip =>
      { box := parentClip.box.translated ⟨-item.position.x, -item.position.y⟩, radius := parentClip.radius }

-- Below, the items above the one in question are listed on the way up.
def mapToView (view : Scene.RenderView) (rect : RectF) (items : List SceneItem) : RectF :=
  items.foldl (fun ret item => ret.translated (snapToPixels item.position view.scale)) rect

def mapToDevice (view : Scene.RenderView) (item : SceneItem) (parents : List SceneItem) (rect : RectF) : Rect :=
  (view.mapToDeviceCoordinates (mapToView view rect (item :: parents))).rounded

mutual

def addOpaqueRegionRecursive (view : Scene.RenderView) (parents : List SceneItem) (parentCorner : Option ClipCorner)
    (ret : Region) : RoseTree SceneItem → Region
  | .node item children =>
    let corner := calculateClipCorner item parentCorner
    let opaqueRects :=
      match corner with
      | some corner => corner.radius.clip item.opaqueRegion.rects corner.box
      | none        => item.opaqueRegion.rects
    let deviceRect := mapToDevice view item parents item.rect
    let ret := opaqueRects.foldl
      (fun ret rect => ret.united (.ofRect ((mapToDevice view item parents rect).intersected deviceRect))) ret
    addOpaqueRegionChildren view (item :: parents) corner ret children

def addOpaqueRegionChildren (view : Scene.RenderView) (parents : List SceneItem) (parentCorner : Option ClipCorner)
    (ret : Region) : List (RoseTree SceneItem) → Region
  | [] => ret
  | child :: children =>
    addOpaqueRegionChildren view parents parentCorner (addOpaqueRegionRecursive view parents parentCorner ret child)
      children

end

end Scene
end KWin
