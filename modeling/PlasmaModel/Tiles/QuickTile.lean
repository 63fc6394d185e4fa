import Mathlib.Logic.Function.Basic
import PlasmaModel.Lib.Runs
import PlasmaModel.Tiles.CustomTile

-- The quick tiles of an output: the halves and the quarters of the screen.
namespace KWin

-- The edges that follow the pointer.
def Gravity.edges : Gravity → List Edge
  | none        => []
  | left        => [.left]
  | right       => [.right]
  | top         => [.top]
  | bottom      => [.bottom]
  | topLeft     => [.left, .top]
  | topRight    => [.right, .top]
  | bottomLeft  => [.left, .bottom]
  | bottomRight => [.right, .bottom]

-- The geometry of an output is not empty.
structure Output where
  geometryF : RectF
  nonempty  : geometryF.isEmpty = false

-- The pointer in units of the output.
def relativeX (output : Output) (xRoot : ℤ) : ℚ :=
  (xRoot - output.geometryF.left) / output.geometryF.width

def relativeY (output : Output) (yRoot : ℤ) : ℚ :=
  (yRoot - output.geometryF.top) / output.geometryF.height

-- Where an edge goes that follows the pointer.
def edgePosition (output : Output) (padding : ℚ) (xRoot yRoot : ℤ) : Edge → ℚ
  | .left   => relativeX output xRoot - padding / output.geometryF.width
  | .top    => relativeY output yRoot - padding / output.geometryF.height
  | .right  => relativeX output xRoot + padding / output.geometryF.width
  | .bottom => relativeY output yRoot + padding / output.geometryF.height

inductive QuickTile
  | leftVertical
  | rightVertical
  | topHorizontal
  | bottomHorizontal
  | topLeft
  | topRight
  | bottomLeft
  | bottomRight
deriving DecidableEq

-- The paddings are 0.
def QuickTile.padding : ℚ :=
  0

def QuickTile.created : QuickTile → RectF
  | leftVertical     => .ofSize 0 0 (1 / 2) 1
  | rightVertical    => .ofSize (1 / 2) 0 (1 / 2) 1
  | topHorizontal    => .ofSize 0 0 1 (1 / 2)
  | bottomHorizontal => .ofSize 0 (1 / 2) 1 (1 / 2)
  | topLeft          => .ofSize 0 0 (1 / 2) (1 / 2)
  | topRight         => .ofSize (1 / 2) 0 (1 / 2) (1 / 2)
  | bottomLeft       => .ofSize 0 (1 / 2) (1 / 2) (1 / 2)
  | bottomRight      => .ofSize (1 / 2) (1 / 2) (1 / 2) (1 / 2)

structure QuickRootTile (Window : Type) where
  relativeGeometry : QuickTile → RectF := QuickTile.created
  windows          : QuickTile → List Window := fun _ => []

namespace QuickRootTile

variable {Window : Type}

def supportsEdge (geometry : RectF) : Edge → Bool
  | .left   => 0 < geometry.left
  | .top    => 0 < geometry.top
  | .right  => geometry.right < 1
  | .bottom => geometry.bottom < 1

def supportsResizeGravity (s : QuickRootTile Window) (tile : QuickTile) (gravity : Gravity) : Bool :=
  gravity ≠ .none && gravity.edges.all (supportsEdge (s.relativeGeometry tile))

-- `Tile::setRelativeGeometry` while another tile is being resized, when nothing is laid out again.
def assign (s : QuickRootTile Window) (tile : QuickTile) (geom : RectF) : QuickRootTile Window :=
  { s with relativeGeometry := Function.update s.relativeGeometry tile (Tiles.constrained geom) }

abbrev Assign (Window : Type) :=
  QuickRootTile Window → QuickTile → RectF → QuickRootTile Window

def effectiveSplit (split : ℚ) : ℚ :=
  max minimumSize (min (1 - minimumSize) split)

def setSplit (set : Assign Window) (edges : List (QuickTile × Edge)) (s : QuickRootTile Window) (split : ℚ) :
    QuickRootTile Window :=
  edges.foldl (fun s (tile, edge) => set s tile ((s.relativeGeometry tile).setEdge edge (effectiveSplit split))) s

-- The edges in the middle, from left to right and from top to bottom.
def horizontalEdges : List (QuickTile × Edge) :=
  [(.leftVertical, .right), (.rightVertical, .left), (.topLeft, .right), (.topRight, .left), (.bottomLeft, .right),
    (.bottomRight, .left)]

def verticalEdges : List (QuickTile × Edge) :=
  [(.topHorizontal, .bottom), (.bottomHorizontal, .top), (.topLeft, .bottom), (.topRight, .bottom),
    (.bottomLeft, .top), (.bottomRight, .top)]

def setHorizontalSplit (set : Assign Window) : QuickRootTile Window → ℚ → QuickRootTile Window :=
  setSplit set horizontalEdges

def setVerticalSplit (set : Assign Window) : QuickRootTile Window → ℚ → QuickRootTile Window :=
  setSplit set verticalEdges

-- The signals of the tiles that are set here end at `m_resizedTile`.
def relayoutToFit (s : QuickRootTile Window) (tile : QuickTile) : QuickRootTile Window :=
  let geometry := s.relativeGeometry tile
  match tile with
  | .topHorizontal => s.setVerticalSplit assign geometry.bottom
  | .bottomHorizontal => s.setVerticalSplit assign geometry.top
  | .leftVertical => s.setHorizontalSplit assign geometry.right
  | .rightVertical => s.setHorizontalSplit assign geometry.left
  | .topLeft => (s.setHorizontalSplit assign geometry.right).setVerticalSplit assign geometry.bottom
  | .topRight => (s.setHorizontalSplit assign geometry.left).setVerticalSplit assign geometry.bottom
  | .bottomRight => (s.setHorizontalSplit assign geometry.left).setVerticalSplit assign geometry.top
  | .bottomLeft => (s.setHorizontalSplit assign geometry.right).setVerticalSplit assign geometry.top

def setRelativeGeometry (s : QuickRootTile Window) (tile : QuickTile) (geom : RectF) : QuickRootTile Window :=
  if s.relativeGeometry tile = Tiles.constrained geom then s else (s.assign tile geom).relayoutToFit tile

def resizeFromGravity (s : QuickRootTile Window) (output : Output) (tile : QuickTile) (gravity : Gravity)
    (xRoot yRoot : ℤ) : QuickRootTile Window :=
  s.setRelativeGeometry tile (gravity.edges.foldl
    (fun geom edge => geom.setEdge edge (edgePosition output QuickTile.padding xRoot yRoot edge))
    (s.relativeGeometry tile))

def tryReset (s : QuickRootTile Window) : QuickRootTile Window :=
  let isEmpty (tile : QuickTile) : Bool := (s.windows tile).isEmpty
  if isEmpty .topLeft && isEmpty .topRight && isEmpty .bottomLeft && isEmpty .bottomRight then
    let s := if isEmpty .leftVertical && isEmpty .rightVertical then
      s.setHorizontalSplit setRelativeGeometry (1 / 2) else s
    if isEmpty .topHorizontal && isEmpty .bottomHorizontal then s.setVerticalSplit setRelativeGeometry (1 / 2) else s
  else
    s

variable [DecidableEq Window]

def add (s : QuickRootTile Window) (tile : QuickTile) (window : Window) : QuickRootTile Window :=
  { s with windows := Function.update s.windows tile (s.windows tile ++ [window]) }

def remove (s : QuickRootTile Window) (tile : QuickTile) (window : Window) : QuickRootTile Window :=
  if window ∈ s.windows tile then
    { s with windows := Function.update s.windows tile ((s.windows tile).erase window) }.tryReset
  else
    s

inductive Event (Window : Type)
  | resizeFromGravity (output : Output) (tile : QuickTile) (gravity : Gravity) (xRoot yRoot : ℤ)
  | add (tile : QuickTile) (window : Window)
  | remove (tile : QuickTile) (window : Window)

-- A tile is only resized where it supports the gravity.
def step (s : QuickRootTile Window) : Event Window → Option (QuickRootTile Window)
  | .resizeFromGravity output tile gravity xRoot yRoot =>
    if s.supportsResizeGravity tile gravity then
      some (s.resizeFromGravity output tile gravity xRoot yRoot)
    else
      none
  | .add tile window => if window ∈ s.windows tile then none else some (s.add tile window)
  | .remove tile window => some (s.remove tile window)

end QuickRootTile
end KWin
