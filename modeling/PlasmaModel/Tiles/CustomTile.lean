import Mathlib.Algebra.Order.Field.Rat
import Mathlib.Algebra.Order.Ring.Rat
import Mathlib.Tactic.MkIffOfInductiveProp
import PlasmaModel.Lib.RoseTree
import PlasmaModel.Region.RectF

-- The geometry of custom tiles, in units of the screen.
namespace KWin

inductive Edge
  | left | top | right | bottom
deriving DecidableEq

namespace Edge

def opposite : Edge → Edge
  | left => right
  | top => bottom
  | right => left
  | bottom => top

-- Where the screen ends.
def border : Edge → ℚ
  | left | top => 0
  | right | bottom => 1

end Edge

namespace RectF

def ofSize (x y width height : ℚ) : RectF where
  left   := x
  top    := y
  right  := x + width
  bottom := y + height

def width (r : RectF) : ℚ :=
  r.right - r.left

def height (r : RectF) : ℚ :=
  r.bottom - r.top

def horizontalCenter (r : RectF) : ℚ :=
  r.left + (r.right - r.left) / 2

def verticalCenter (r : RectF) : ℚ :=
  r.top + (r.bottom - r.top) / 2

def setWidth (r : RectF) (width : ℚ) : RectF :=
  { r with right := r.left + width }

def setHeight (r : RectF) (height : ℚ) : RectF :=
  { r with bottom := r.top + height }

def intersected (r s : RectF) : RectF :=
  if r.isEmpty || s.isEmpty then
    {}
  else
    let i : RectF :=
      { left := max r.left s.left, top := max r.top s.top, right := min r.right s.right, bottom := min r.bottom s.bottom }
    if i.isEmpty then {} else i

def edge (r : RectF) : Edge → ℚ
  | .left => r.left
  | .top => r.top
  | .right => r.right
  | .bottom => r.bottom

def center (r : RectF) : Edge → ℚ
  | .left | .right => r.horizontalCenter
  | .top | .bottom => r.verticalCenter

def setEdge (r : RectF) (e : Edge) (v : ℚ) : RectF :=
  match e with
  | .left => { r with left := v }
  | .top => { r with top := v }
  | .right => { r with right := v }
  | .bottom => { r with bottom := v }

-- The size across the edge.
def extent (r : RectF) : Edge → ℚ
  | .left | .right => r.width
  | .top | .bottom => r.height

end RectF

inductive LayoutDirection
  | floating | horizontal | vertical
deriving DecidableEq

structure Tile (Window : Type) where
  relativeGeometry : RectF := {}
  layoutDirection  : LayoutDirection := .floating
  geometryLock     : Bool := true
  windows          : List Window := []

def screen : RectF :=
  .ofSize 0 0 1 1

-- The minimum width, and the minimum height, of every tile.
def minimumSize : ℚ :=
  15 / 100

-- A root tile and its descendants.
abbrev Tiles (Window : Type) :=
  RoseTree (Tile Window)

namespace Tiles

variable {Window : Type}

-- A root tile as it is created.
def rootTile : Tiles Window :=
  .node { relativeGeometry := screen, geometryLock := false } []

def relativeGeometry (t : Tiles Window) (p : List Nat) : RectF :=
  (t.value? p).elim {} Tile.relativeGeometry

def layoutDirection (t : Tiles Window) (p : List Nat) : LayoutDirection :=
  (t.value? p).elim .floating Tile.layoutDirection

def geometryLock (t : Tiles Window) (p : List Nat) : Bool :=
  (t.value? p).any Tile.geometryLock

def windows (t : Tiles Window) (p : List Nat) : List Window :=
  (t.value? p).elim [] Tile.windows

-- The row of a tile comes first in its path, and its parent comes then.
def parentLayoutDirection (t : Tiles Window) : List Nat → Option LayoutDirection
  | [] => none
  | _ :: parent => some (t.layoutDirection parent)

def setGeometryLock (t : Tiles Window) (p : List Nat) (geometryLock : Bool) : Tiles Window :=
  t.modifyValue (fun tile => { tile with geometryLock }) p

def setLayoutDirection (t : Tiles Window) (p : List Nat) (layoutDirection : LayoutDirection) : Tiles Window :=
  t.modifyValue (fun tile => { tile with layoutDirection }) p

-- The geometry as `Tile::setRelativeGeometry` constrains it.
def constrained (geom : RectF) : RectF :=
  let geom := geom.setWidth (max geom.width minimumSize)
  geom.setHeight (max geom.height minimumSize)

def setTileGeometry (t : Tiles Window) (p : List Nat) (geom : RectF) : Tiles Window :=
  t.modifyValue (fun tile => { tile with relativeGeometry := constrained geom }) p

-- A horizontal layout is a row of columns, a vertical one a column of rows. The neighbour in the layout
-- of the parent, or else that of the parent.
def nextTileAt (t : Tiles Window) (edge : Edge) : List Nat → Option (List Nat)
  | [] => none
  | index :: parent =>
    let layoutRows := if t.layoutDirection parent = .vertical then max 1 (t.childCount parent) else 1
    let layoutColumns := if t.layoutDirection parent = .vertical then 1 else max 1 (t.childCount parent)
    let row := index / layoutColumns
    let column := index % layoutColumns
    let sibling :=
      match edge with
      | .left => if 0 < column then some (index - 1) else none
      | .top => if 0 < row then some (layoutColumns * (row - 1) + column) else none
      | .right => if column < layoutColumns - 1 then some (index + 1) else none
      | .bottom =>
        if row < layoutRows - 1 && layoutColumns * (row + 1) + column < t.childCount parent then
          some (layoutColumns * (row + 1) + column)
        else
          none
    match sibling with
    | some i => some (i :: parent)
    | none => nextTileAt t edge parent

end Tiles
end KWin

namespace KWin.Tiles

variable {Window : Type}

-- The geometry on the screen and with the minimum size, if there is one that remains in boundaries.
def fitted (geom : RectF) : Option RectF :=
  let finalGeom := constrained (geom.intersected screen)
  if 1 < finalGeom.right || 1 < finalGeom.bottom then none else some finalGeom

section
-- How the geometry of other tiles is set meanwhile.
variable (set : Tiles Window → List Nat → RectF → Option (Tiles Window))

-- Where an edge moves, the neighbour there follows. Its geometry may not be what we set due to size
-- constraints. There is no geometry left if the neighbour would get too small.
def moveEdge (p : List Nat) (edge : Edge) (t : Tiles Window) (finalGeom : RectF) :
    Option (Tiles Window × Option RectF) :=
  if finalGeom.edge edge = (t.relativeGeometry p).edge edge then
    some (t, some finalGeom)
  else
    match t.nextTileAt edge p with
    | some tile =>
      let tileGeom := (t.relativeGeometry tile).setEdge edge.opposite (finalGeom.edge edge)
      if tileGeom.extent edge ≤ minimumSize then
        some (t.setGeometryLock p false, none)
      else do
        let t ← set t tile tileGeom
        some (t, some (finalGeom.setEdge edge ((t.relativeGeometry tile).edge edge.opposite)))
    -- We are at the border of the screen.
    | none => some (t, some (finalGeom.setEdge edge edge.border))

def moveEdges (p : List Nat) : List Edge → Tiles Window → RectF → Option (Tiles Window × Option RectF)
  | [], t, finalGeom => some (t.setGeometryLock p false, some finalGeom)
  | edge :: edges, t, finalGeom => do
    match ← moveEdge set p edge t finalGeom with
    | (t, some finalGeom) => moveEdges p edges t finalGeom
    | (t, none) => some (t, none)

-- Resize all the children to fit in new size.
def resizeChildren (p : List Nat) (finalGeom : RectF) : List Nat → Tiles Window → Option (Tiles Window)
  | [], t => some t
  | i :: rows, t => do
    let childGeom := (t.relativeGeometry (i :: p)).intersected finalGeom
    let childGeom :=
      match t.layoutDirection p with
      | .horizontal => { childGeom with top := finalGeom.top, bottom := finalGeom.bottom }
      | .vertical => { childGeom with left := finalGeom.left, right := finalGeom.right }
      | .floating => childGeom
    resizeChildren p finalGeom rows (← set t (i :: p) childGeom)

def resizeFirst (p : List Nat) (finalGeom : RectF) (t : Tiles Window) : Option (Tiles Window) :=
  if t.childCount p = 0 then
    some t
  else
    let childGeom := t.relativeGeometry (0 :: p)
    set t (0 :: p) (
      match t.layoutDirection p with
      | .horizontal => { childGeom with left := finalGeom.left }
      | .vertical => { childGeom with top := finalGeom.top }
      | .floating => childGeom)

-- Make sure the last child item fills the area.
def resizeLast (p : List Nat) (finalGeom : RectF) (t : Tiles Window) : Option (Tiles Window) :=
  if t.geometryLock p || t.childCount p = 0 || t.layoutDirection p = .floating then
    some t
  else
    let last := (t.childCount p - 1) :: p
    set t last { t.relativeGeometry last with right := finalGeom.right, bottom := finalGeom.bottom }

end

-- Tiles that set the geometry of each other do so at most `fuel` deep.
def setRelativeGeometry : Nat → Tiles Window → List Nat → RectF → Option (Tiles Window)
  | 0, _, _, _ => none
  | fuel + 1, t, p, geom =>
    if t.relativeGeometry p = geom then
      some t
    else
      match fitted geom with
      -- We couldn't set the minimum size and still remain in boundaries, do nothing
      | none => some t
      | some finalGeom => do
        let set := setRelativeGeometry fuel
        let floating := t.parentLayoutDirection p = some .floating
        let (t, moved) ←
          if !t.geometryLock p && p ≠ [] && !floating then
            moveEdges set p [.left, .top, .right, .bottom] (t.setGeometryLock p true) finalGeom
          else
            some (t, some (if floating then geom.intersected (t.relativeGeometry p.tail) else finalGeom))
        match moved with
        | none => some t
        | some finalGeom => do
          let t ← resizeChildren set p finalGeom (List.range (t.childCount p)) t
          let t ← resizeFirst set p finalGeom t
          let t ← resizeLast set p finalGeom t
          some ((t.setTileGeometry p finalGeom).setGeometryLock p false)

-- The new tile is in its place before it gets a geometry. It keeps its lock until then.
def createChildAt (fuel : Nat) (t : Tiles Window) (p : List Nat) (relativeGeometry : RectF)
    (layoutDirection : LayoutDirection) (position : Nat) : Option (Tiles Window) := do
  let position := min position (t.childCount p)
  let t := t.modify (fun n => .node n.value (n.children.insertIdx position (.node {} []))) p
  let t ← setRelativeGeometry fuel t (position :: p) relativeGeometry
  some (setLayoutDirection t (position :: p) layoutDirection)

end KWin.Tiles

namespace KWin

namespace Edge

-- The start edges are `left` and `top`.
def across : Edge → Edge
  | left | right => top
  | top | bottom => left

end Edge

namespace RectF

def Contains (r s : RectF) : Prop :=
  r.left ≤ s.left ∧ r.top ≤ s.top ∧ s.right ≤ r.right ∧ s.bottom ≤ r.bottom

instance (r s : RectF) : Decidable (r.Contains s) :=
  inferInstanceAs (Decidable (_ ∧ _))

-- From one edge to the opposite one, without gaps and overlaps.
@[mk_iff] structure Divided (geom : RectF) (start : Edge) (children : List RectF) : Prop where
  across    : ∀ c ∈ children, c.edge start.across = geom.edge start.across
  opposite  : ∀ c ∈ children, c.edge start.across.opposite = geom.edge start.across.opposite
  first     : ∀ c ∈ children.head?, c.edge start = geom.edge start
  last      : ∀ c ∈ children.getLast?, c.edge start.opposite = geom.edge start.opposite
  touching  : children.IsChain fun c d => c.edge start.opposite = d.edge start

def Partitioned (geom : RectF) (children : List RectF) : LayoutDirection → Prop
  | .horizontal => geom.Divided .left children
  | .vertical => geom.Divided .top children
  | .floating => ∀ c ∈ children, geom.Contains c

@[mk_iff] structure MinimumSize (r : RectF) : Prop where
  width  : minimumSize ≤ r.width
  height : minimumSize ≤ r.height

end RectF

namespace Tiles

variable {Window : Type}

-- Every layout is a partition of its tile.
def Partitioned : Tiles Window → Prop :=
  RoseTree.Forall fun tile children =>
    tile.relativeGeometry.Partitioned (children.map Tile.relativeGeometry) tile.layoutDirection

def MinimumSizes : Tiles Window → Prop :=
  RoseTree.Forall fun tile _ => tile.relativeGeometry.MinimumSize

end Tiles
end KWin
