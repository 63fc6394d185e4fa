import Mathlib.Data.List.SplitBy
import PlasmaModel.Region.Rect

namespace KWin

-- `mRects` is only used by regions of at least two rectangles. A region of one rectangle is stored
-- in `mBounds` alone.
structure Region where
  mBounds : Rect := default
  mRects  : List Rect := []
deriving DecidableEq, Inhabited

-- The half-open range of indices which the rectangles of one band have in `mRects`.
structure BandRef where
  start : Nat := 0
  stop  : Nat := 0

def BandRef.rects (band : BandRef) (mRects : List Rect) : List Rect :=
  (mRects.take band.stop).drop band.start

def Rect.setRight (rect : Rect) (right : Int) : Rect :=
  { rect with right }

def Rect.setBottom (rect : Rect) (bottom : Int) : Rect :=
  { rect with bottom }

def slicedRect (rect : Rect) (top bottom : Int) : Rect :=
  ⟨rect.left, top, rect.right, bottom⟩

namespace Region

def ofRect (rect : Rect) : Region :=
  { mBounds := rect }

def isEmpty (r : Region) : Bool :=
  r.mBounds.isEmpty

def rects (r : Region) : List Rect :=
  if r.isEmpty then
    []
  else if r.mRects.isEmpty then
    [r.mBounds]
  else
    r.mRects

-- This is `operator==`.
def equals (r other : Region) : Bool :=
  r.mBounds = other.mBounds && r.mRects = other.mRects

-- The rectangles from the index `bandByY(y)` on.
def bandByY (mRects : List Rect) (y : Int) : List Rect :=
  mRects.dropWhile (¬y < ·.bottom)

def contains (r : Region) (rect : Rect) : Bool :=
  if r.isEmpty then
    false
  else if rect.isEmpty then
    false
  else if r.mRects.isEmpty then
    r.mBounds.contains rect
  else if !r.mBounds.intersects rect then
    false
  else
    go rect rect.top (bandByY r.mRects rect.top)
where
  go (rect : Rect) (scanline : Int) : List Rect → Bool
    | [] => false
    | hd :: tl =>
      if hd.bottom ≤ scanline then
        go rect scanline tl
      -- The given rect is either partially outside the region or there is a gap between bands.
      else if scanline < hd.top then
        false
      -- Skip a rectangle in the current band if it is far to the left.
      else if hd.right ≤ rect.left then
        go rect scanline tl
      else if hd.left ≤ rect.left && rect.right ≤ hd.right then
        if rect.bottom ≤ hd.bottom then true else go rect hd.bottom tl
      -- The band rect either partially covers the given rect or it is far to the right.
      else
        false

end Region
end KWin

namespace KWin.Region

-- Returns `current`, or `previous` if `current` was merged into it.
def coalesceBands (mRects : List Rect) (previous current : BandRef) : List Rect × BandRef :=
  match previous.rects mRects, current.rects mRects with
  | p :: ps, c :: cs =>
    if (p :: ps).length ≠ (c :: cs).length then
      (mRects, current)
    else if p.bottom ≠ c.top then
      (mRects, current)
    else if (p :: ps).map (fun r => (r.left, r.right)) ≠ (c :: cs).map (fun r => (r.left, r.right)) then
      (mRects, current)
    else
      let stretched :=
        mRects.take previous.start ++ (p :: ps).map (·.setBottom c.bottom) ++
          mRects.drop previous.stop
      (stretched.take current.start ++ stretched.drop current.stop, previous)
  | _, _ => (mRects, current)

-- Every band function first emits the rectangles of the new band at the end of `mRects`, and then
-- tries to coalesce them with the previous band.
def emitBand (mRects rects : List Rect) (previousBand : BandRef) : List Rect × BandRef :=
  coalesceBands (mRects ++ rects) previousBand ⟨previousBand.stop, (mRects ++ rects).length⟩

def sliceBand
    (mRects rects : List Rect) (top bottom : Int) (previousBand : BandRef) : List Rect × BandRef :=
  emitBand mRects (rects.map (slicedRect · top bottom)) previousBand

-- The functions below hold the rectangles which they have emitted so far in reverse order, so the
-- `previousRect` of the source is the head of that list.

def mergeRect (top bottom : Int) (rect : Rect) : List Rect → List Rect
  | previousRect :: emitted =>
    if rect.left ≤ previousRect.right then
      if previousRect.right < rect.right then
        previousRect.setRight rect.right :: emitted
      else
        previousRect :: emitted
    else
      slicedRect rect top bottom :: previousRect :: emitted
  | [] => [slicedRect rect top bottom]

def mergedRects (top bottom : Int) (emitted : List Rect) : List Rect → List Rect → List Rect
  | leftRect :: left, rightRect :: right =>
    if leftRect.left < rightRect.left then
      mergedRects top bottom (mergeRect top bottom leftRect emitted) left (rightRect :: right)
    else
      mergedRects top bottom (mergeRect top bottom rightRect emitted) (leftRect :: left) right
  | leftRect :: left, [] => mergedRects top bottom (mergeRect top bottom leftRect emitted) left []
  | [], rightRect :: right => mergedRects top bottom (mergeRect top bottom rightRect emitted) [] right
  | [], [] => emitted.reverse
termination_by left right => left.length + right.length

def mergeBands
    (mRects left right : List Rect) (top bottom : Int) (previousBand : BandRef) :
    List Rect × BandRef :=
  emitBand mRects (mergedRects top bottom [] left right) previousBand

def advance (scanline : Int) : List Rect → List Rect
  | rect :: rest => if rect.right = scanline then rest else rect :: rest
  | [] => []

-- The loops advance past a rectangle, or move the scanline to the right, at most once before the next advance.
def scanSteps (scanline : Int) : List Rect → List Rect → Nat
  | leftRect :: left, rightRect :: right =>
    2 * ((leftRect :: left).length + (rightRect :: right).length) +
      if scanline < max leftRect.left rightRect.left then 1 else 0
  | _, _ => 0

theorem length_advance_le (scanline : Int) (band : List Rect) : (advance scanline band).length ≤ band.length := by
  unfold advance
  split
  case h_1 => split <;> simp
  case h_2 => simp

theorem length_advance_add_lt (left right : List Rect)
    (h : leftRect.right = scanline ∨ rightRect.right = scanline) :
    (advance scanline (leftRect :: left)).length + (advance scanline (rightRect :: right)).length <
      (leftRect :: left).length + (rightRect :: right).length := by
  have h₁ := length_advance_le scanline (leftRect :: left)
  have h₂ := length_advance_le scanline (rightRect :: right)
  cases h
  case inl h =>
    have : (advance scanline (leftRect :: left)).length < (leftRect :: left).length := by
      simp [advance, h]
    omega
  case inr h =>
    have : (advance scanline (rightRect :: right)).length < (rightRect :: right).length := by
      simp [advance, h]
    omega

theorem length_advance_min_lt :
    (advance (min leftRect.right rightRect.right) (leftRect :: left)).length +
        (advance (min leftRect.right rightRect.right) (rightRect :: right)).length <
      (leftRect :: left).length + (rightRect :: right).length :=
  length_advance_add_lt _ _ (by omega)

theorem scanSteps_le {left right : List Rect} :
    scanSteps scanline left right ≤ 2 * (left.length + right.length) + 1 := by
  unfold scanSteps
  split
  case h_1 => split <;> omega
  case h_2 => omega

theorem scanSteps_lt_of_advance (h : leftRect.right = scanline' ∨ rightRect.right = scanline') :
    scanSteps scanline' (advance scanline' (leftRect :: left)) (advance scanline' (rightRect :: right)) <
      scanSteps scanline (leftRect :: left) (rightRect :: right) := by
  have h₁ := length_advance_add_lt left right h
  refine Nat.lt_of_le_of_lt scanSteps_le ?_
  simp only [scanSteps]
  omega

theorem scanSteps_lt_of_min_right :
    scanSteps (min leftRect.right rightRect.right)
        (advance (min leftRect.right rightRect.right) (leftRect :: left))
        (advance (min leftRect.right rightRect.right) (rightRect :: right)) <
      scanSteps scanline (leftRect :: left) (rightRect :: right) :=
  scanSteps_lt_of_advance (by omega)

theorem scanSteps_lt_of_edge
    (h : scanline < scanline') (hm : scanline' = max leftRect.left rightRect.left) :
    scanSteps scanline' (advance scanline' (leftRect :: left)) (advance scanline' (rightRect :: right)) <
      scanSteps scanline (leftRect :: left) (rightRect :: right) := by
  by_cases ha : leftRect.right = scanline' ∨ rightRect.right = scanline'
  case pos => exact scanSteps_lt_of_advance ha
  case neg =>
    rw [not_or] at ha
    simp only [advance, ha, if_false, scanSteps]
    rw [if_neg (by omega), if_pos (by omega)]
    omega

theorem scanSteps_lt_of_min_left (h : scanline < rightRect.left) (hl : leftRect.left ≤ rightRect.left) :
    scanSteps (min leftRect.right rightRect.left)
        (advance (min leftRect.right rightRect.left) (leftRect :: left))
        (advance (min leftRect.right rightRect.left) (rightRect :: right)) <
      scanSteps scanline (leftRect :: left) (rightRect :: right) := by
  by_cases hr : leftRect.right ≤ rightRect.left
  case pos => exact scanSteps_lt_of_advance (.inl (by omega))
  case neg =>
    rw [Int.min_eq_right (by omega)]
    exact scanSteps_lt_of_edge h (by omega)

theorem scanSteps_lt_of_min_left' (h : scanline < leftRect.left) (hl : rightRect.left ≤ leftRect.left) :
    scanSteps (min leftRect.left rightRect.right)
        (advance (min leftRect.left rightRect.right) (leftRect :: left))
        (advance (min leftRect.left rightRect.right) (rightRect :: right)) <
      scanSteps scanline (leftRect :: left) (rightRect :: right) := by
  by_cases hr : rightRect.right ≤ leftRect.left
  case pos => exact scanSteps_lt_of_advance (.inr (by omega))
  case neg =>
    rw [Int.min_eq_left (by omega)]
    exact scanSteps_lt_of_edge h (by omega)

def subtractedRects
    (top bottom scanline : Int) (emitted : List Rect) : List Rect → List Rect → List Rect
  | leftRect :: left, rightRect :: right =>
    if leftRect.left ≤ rightRect.left then
      let x := max leftRect.left scanline
      if x < rightRect.left then
        let scanline := min leftRect.right rightRect.left
        subtractedRects top bottom scanline (⟨x, top, scanline, bottom⟩ :: emitted)
          (advance scanline (leftRect :: left)) (advance scanline (rightRect :: right))
      else
        let scanline := min leftRect.right rightRect.right
        subtractedRects top bottom scanline emitted
          (advance scanline (leftRect :: left)) (advance scanline (rightRect :: right))
    else
      let scanline := min leftRect.right rightRect.right
      subtractedRects top bottom scanline emitted
        (advance scanline (leftRect :: left)) (advance scanline (rightRect :: right))
  | leftRect :: left, [] =>
    emitted.reverse ++ ⟨max leftRect.left scanline, top, leftRect.right, bottom⟩ ::
      left.map (slicedRect · top bottom)
  | [], _ => emitted.reverse
termination_by left right => scanSteps scanline left right
decreasing_by
  · exact scanSteps_lt_of_min_left (by omega) ‹_›
  · exact scanSteps_lt_of_min_right
  · exact scanSteps_lt_of_min_right

-- The scanline starts at the leftmost edge of the two bands, neither of which is ever empty.
def leftmost : List Rect → List Rect → Int
  | leftRect :: _, rightRect :: _ => min leftRect.left rightRect.left
  | _, _ => 0

def subtractBands
    (mRects left right : List Rect) (top bottom : Int) (previousBand : BandRef) :
    List Rect × BandRef :=
  emitBand mRects (subtractedRects top bottom (leftmost left right) [] left right) previousBand

-- Extends `previousRect` if the new rectangle touches it.
def emitTouching (rect : Rect) : List Rect → List Rect
  | previousRect :: emitted =>
    if previousRect.right = rect.left then
      previousRect.setRight rect.right :: emitted
    else
      rect :: previousRect :: emitted
  | [] => [rect]

def xoredRects
    (top bottom scanline : Int) (emitted : List Rect) : List Rect → List Rect → List Rect
  | leftRect :: left, rightRect :: right =>
    if leftRect.left ≤ rightRect.left then
      let x := max leftRect.left scanline
      if x < rightRect.left then
        let scanline := min leftRect.right rightRect.left
        xoredRects top bottom scanline (emitTouching ⟨x, top, scanline, bottom⟩ emitted)
          (advance scanline (leftRect :: left)) (advance scanline (rightRect :: right))
      else
        let scanline := min leftRect.right rightRect.right
        xoredRects top bottom scanline emitted
          (advance scanline (leftRect :: left)) (advance scanline (rightRect :: right))
    else
      let x := max rightRect.left scanline
      if x < leftRect.left then
        let scanline := min leftRect.left rightRect.right
        xoredRects top bottom scanline (emitTouching ⟨x, top, scanline, bottom⟩ emitted)
          (advance scanline (leftRect :: left)) (advance scanline (rightRect :: right))
      else
        let scanline := min leftRect.right rightRect.right
        xoredRects top bottom scanline emitted
          (advance scanline (leftRect :: left)) (advance scanline (rightRect :: right))
  | leftRect :: left, [] => tail top bottom scanline emitted leftRect left
  | [], rightRect :: right => tail top bottom scanline emitted rightRect right
  | [], [] => emitted.reverse
termination_by left right => scanSteps scanline left right
decreasing_by
  · exact scanSteps_lt_of_min_left (by omega) ‹_›
  · exact scanSteps_lt_of_min_right
  · exact scanSteps_lt_of_min_left' (by omega) (by omega)
  · exact scanSteps_lt_of_min_right
where
  tail (top bottom scanline : Int) (emitted : List Rect) (rect : Rect) (rest : List Rect) : List Rect :=
    let y := max rect.left scanline
    (emitTouching ⟨y, top, rect.right, bottom⟩ emitted).reverse ++
      rest.map (slicedRect · top bottom)

def xorBands
    (mRects left right : List Rect) (top bottom : Int) (previousBand : BandRef) :
    List Rect × BandRef :=
  emitBand mRects (xoredRects top bottom (leftmost left right) [] left right) previousBand

def intersectedRects (top bottom : Int) (emitted : List Rect) : List Rect → List Rect → List Rect
  | leftRect :: left, rightRect :: right =>
    let x₁ := max leftRect.left rightRect.left
    let x₂ := min leftRect.right rightRect.right
    intersectedRects top bottom (if x₁ < x₂ then ⟨x₁, top, x₂, bottom⟩ :: emitted else emitted)
      (advance x₂ (leftRect :: left)) (advance x₂ (rightRect :: right))
  | _, _ => emitted.reverse
termination_by left right => left.length + right.length
decreasing_by exact length_advance_min_lt

def intersectBands
    (mRects left right : List Rect) (top bottom : Int) (previousBand : BandRef) :
    List Rect × BandRef :=
  emitBand mRects (intersectedRects top bottom [] left right) previousBand

end KWin.Region
