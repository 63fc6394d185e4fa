import Mathlib.Data.Rat.Floor
import PlasmaModel.Lib.Cuts

namespace KWin

structure WindowVertex where
  px : ℚ
  py : ℚ
  tx : ℚ
  ty : ℚ

-- The vertices are clockwise, starting from the top left one.
structure WindowQuad where
  vert0 : WindowVertex
  vert1 : WindowVertex
  vert2 : WindowVertex
  vert3 : WindowVertex

namespace WindowQuad

def verts (quad : WindowQuad) : List WindowVertex :=
  [quad.vert0, quad.vert1, quad.vert2, quad.vert3]

def left (quad : WindowQuad) : ℚ :=
  min quad.vert0.px (min quad.vert1.px (min quad.vert2.px quad.vert3.px))

def right (quad : WindowQuad) : ℚ :=
  max quad.vert0.px (max quad.vert1.px (max quad.vert2.px quad.vert3.px))

def top (quad : WindowQuad) : ℚ :=
  min quad.vert0.py (min quad.vert1.py (min quad.vert2.py quad.vert3.py))

def bottom (quad : WindowQuad) : ℚ :=
  max quad.vert0.py (max quad.vert1.py (max quad.vert2.py quad.vert3.py))

-- This is the bilinear interpolation of one of the two texture coordinates.
def interpolate (quad : WindowQuad) (coord : WindowVertex → ℚ) (px py : ℚ) : ℚ :=
  let widthReciprocal  := 1 / (quad.right - quad.left)
  let heightReciprocal := 1 / (quad.bottom - quad.top)
  let w1 := (px - quad.left) * widthReciprocal
  let w2 := (py - quad.top) * heightReciprocal
  (1 - w1) * (1 - w2) * coord quad.vert0 + w1 * (1 - w2) * coord quad.vert1 +
    w1 * w2 * coord quad.vert2 + (1 - w1) * w2 * coord quad.vert3

def subVertex (quad : WindowQuad) (px py : ℚ) : WindowVertex :=
  { px, py, tx := quad.interpolate WindowVertex.tx px py, ty := quad.interpolate WindowVertex.ty px py }

def makeSubQuad (quad : WindowQuad) (x1 y1 x2 y2 : ℚ) : WindowQuad where
  vert0 := quad.subVertex x1 y1
  vert1 := quad.subVertex x2 y1
  vert2 := quad.subVertex x2 y2
  vert3 := quad.subVertex x1 y2

-- The quad has no size.
def hasNoSize (quad : WindowQuad) : Bool :=
  quad.top = quad.bottom || quad.left = quad.right

end WindowQuad

open Cuts

namespace WindowQuadList

def splitAtX (quads : List WindowQuad) (x : ℚ) : List WindowQuad :=
  quads.flatMap fun quad =>
    let wholeleft  := quad.verts.all (·.px ≤ x)
    let wholeright := quad.verts.all (x ≤ ·.px)
    if wholeleft || wholeright then
      [quad]
    else if quad.hasNoSize then
      [quad]
    else
      [quad.makeSubQuad quad.left quad.top x quad.bottom, quad.makeSubQuad x quad.top quad.right quad.bottom]

def splitAtY (quads : List WindowQuad) (y : ℚ) : List WindowQuad :=
  quads.flatMap fun quad =>
    let wholetop    := quad.verts.all (·.py ≤ y)
    let wholebottom := quad.verts.all (y ≤ ·.py)
    if wholetop || wholebottom then
      [quad]
    else if quad.hasNoSize then
      [quad]
    else
      [quad.makeSubQuad quad.left quad.top quad.right y, quad.makeSubQuad quad.left y quad.right quad.bottom]

-- The loops over the cells of a grid that the quad intersects. They do not end if a step is not positive.
def cells (quad : WindowQuad) (left top xIncrement yIncrement : ℚ) : Option (List WindowQuad) := do
  let xBegin := left + ⌊(quad.left - left) / xIncrement⌋ * xIncrement
  let yBegin := top + ⌊(quad.top - top) / yIncrement⌋ * yIncrement
  let ys ← lines? yIncrement quad.bottom yBegin
  let xs ← lines? xIncrement quad.right xBegin
  return ys.flatMap fun y =>
    xs.map fun x =>
      let (y0, y1) := clip quad.top quad.bottom yIncrement y
      let (x0, x1) := clip quad.left quad.right xIncrement x
      quad.makeSubQuad x0 y0 x1 y1

-- The left, top, right and bottom edge of all the quads.
def bounds (first : WindowQuad) (quads : List WindowQuad) : ℚ × ℚ × ℚ × ℚ :=
  quads.foldl
    (fun (left, top, right, bottom) quad =>
      (min left quad.left, min top quad.top, max right quad.right, max bottom quad.bottom))
    (first.left, first.top, first.right, first.bottom)

def grid (quads : List WindowQuad) (left top xIncrement yIncrement : ℚ) : Option (List WindowQuad) := do
  let pieces ← quads.mapM fun quad =>
    if quad.hasNoSize then some [quad] else cells quad left top xIncrement yIncrement
  return pieces.flatten

def makeGrid (quads : List WindowQuad) (maxQuadSize : Int) : Option (List WindowQuad) :=
  match quads with
  | [] => some []
  | first :: _ =>
    let (left, top, _, _) := bounds first quads
    grid quads left top maxQuadSize maxQuadSize

def makeRegularGrid (quads : List WindowQuad) (xSubdivisions ySubdivisions : Int) : Option (List WindowQuad) :=
  match quads with
  | [] => some []
  | first :: _ =>
    let (left, top, right, bottom) := bounds first quads
    grid quads left top ((right - left) / xSubdivisions) ((bottom - top) / ySubdivisions)

end WindowQuadList

end KWin
