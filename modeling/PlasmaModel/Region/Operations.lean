import PlasmaModel.Region.Bands

namespace KWin.Region

def leadingBand : List Rect → List Rect
  | rect :: rest => rect :: rest.takeWhile (·.top = rect.top)
  | [] => []

def afterBand : List Rect → List Rect
  | rect :: rest => rest.dropWhile (·.top = rect.top)
  | [] => []

def advanceBand (scanline : Int) : List Rect → List Rect
  | rect :: rest => if rect.bottom = scanline then afterBand (rect :: rest) else rect :: rest
  | [] => []

-- The scanline starts at the topmost edge of the two regions, neither of which is ever empty.
def topmost : List Rect → List Rect → Int
  | leftRect :: _, rightRect :: _ => min leftRect.top rightRect.top
  | _, _ => 0

-- The four operations run the same loop over the bands. They differ in how they combine two overlapping bands, and
-- whether they keep what only one region covers.
structure Sweep where
  sliceLeft    : Bool
  sliceRight   : Bool
  combineBands :
    (mRects left right : List Rect) → (top bottom : Int) → (previousBand : BandRef) →
      List Rect × BandRef

-- An iteration reaches the end of a band, or moves the scanline down, at most once before the next band.
def sweepSteps (scanline : Int) : List Rect → List Rect → Nat
  | leftRect :: left, rightRect :: right =>
    2 * ((leftRect :: left).length + (rightRect :: right).length) +
      if scanline < max leftRect.top rightRect.top then 1 else 0
  | _, _ => 0

theorem length_afterBand_lt : (afterBand (rect :: rest)).length < (rect :: rest).length :=
  Nat.lt_succ_of_le (List.dropWhile_sublist _).length_le

theorem length_advanceBand_le (scanline : Int) (rects : List Rect) :
    (advanceBand scanline rects).length ≤ rects.length := by
  cases rects
  case nil => simp [advanceBand]
  case cons rect rest =>
    simp only [advanceBand]
    split
    · exact length_afterBand_lt.le
    · exact le_rfl

theorem length_advanceBand_lt (rest : List Rect) (h : rect.bottom = scanline) :
    (advanceBand scanline (rect :: rest)).length < (rect :: rest).length := by
  rw [advanceBand, if_pos h]
  exact length_afterBand_lt

theorem sweepSteps_le {left right : List Rect} :
    sweepSteps scanline left right ≤ 2 * (left.length + right.length) + 1 := by
  unfold sweepSteps
  split
  case h_1 => split <;> omega
  case h_2 => omega

theorem sweepSteps_lt_of_bottom (h : leftRect.bottom = scanline' ∨ rightRect.bottom = scanline') :
    sweepSteps scanline'
        (advanceBand scanline' (leftRect :: left)) (advanceBand scanline' (rightRect :: right)) <
      sweepSteps scanline (leftRect :: left) (rightRect :: right) := by
  have h₁ := length_advanceBand_le scanline' (leftRect :: left)
  have h₂ := length_advanceBand_le scanline' (rightRect :: right)
  refine Nat.lt_of_le_of_lt sweepSteps_le ?_
  simp only [sweepSteps]
  cases h
  case inl h => have := length_advanceBand_lt left h; omega
  case inr h => have := length_advanceBand_lt right h; omega

theorem sweepSteps_lt_of_bottoms :
    sweepSteps (min leftRect.bottom rightRect.bottom)
        (advanceBand (min leftRect.bottom rightRect.bottom) (leftRect :: left))
        (advanceBand (min leftRect.bottom rightRect.bottom) (rightRect :: right)) <
      sweepSteps scanline (leftRect :: left) (rightRect :: right) :=
  sweepSteps_lt_of_bottom (by omega)

theorem sweepSteps_lt_of_top
    (h : scanline < scanline') (hm : scanline' = max leftRect.top rightRect.top) :
    sweepSteps scanline'
        (advanceBand scanline' (leftRect :: left)) (advanceBand scanline' (rightRect :: right)) <
      sweepSteps scanline (leftRect :: left) (rightRect :: right) := by
  by_cases ha : leftRect.bottom = scanline' ∨ rightRect.bottom = scanline'
  case pos => exact sweepSteps_lt_of_bottom ha
  case neg =>
    rw [not_or] at ha
    simp only [advanceBand, ha, if_false, sweepSteps]
    rw [if_neg (by omega), if_pos (by omega)]
    omega

theorem sweepSteps_lt_of_left (h : scanline < rightRect.top) (hl : leftRect.top ≤ rightRect.top) :
    sweepSteps (min leftRect.bottom rightRect.top)
        (advanceBand (min leftRect.bottom rightRect.top) (leftRect :: left))
        (advanceBand (min leftRect.bottom rightRect.top) (rightRect :: right)) <
      sweepSteps scanline (leftRect :: left) (rightRect :: right) := by
  by_cases hr : leftRect.bottom ≤ rightRect.top
  case pos => exact sweepSteps_lt_of_bottom (.inl (by omega))
  case neg =>
    rw [Int.min_eq_right (by omega)]
    exact sweepSteps_lt_of_top h (by omega)

theorem sweepSteps_lt_of_right (h : scanline < leftRect.top) (hl : rightRect.top ≤ leftRect.top) :
    sweepSteps (min leftRect.top rightRect.bottom)
        (advanceBand (min leftRect.top rightRect.bottom) (leftRect :: left))
        (advanceBand (min leftRect.top rightRect.bottom) (rightRect :: right)) <
      sweepSteps scanline (leftRect :: left) (rightRect :: right) := by
  by_cases hr : rightRect.bottom ≤ leftRect.top
  case pos => exact sweepSteps_lt_of_bottom (.inr (by omega))
  case neg =>
    rw [Int.min_eq_left (by omega)]
    exact sweepSteps_lt_of_top h (by omega)

def sweepBand
    (slice : Bool) (mRects band : List Rect) (top bottom : Int) (currentBand : BandRef) :
    List Rect × BandRef :=
  if slice then sliceBand mRects band top bottom currentBand else (mRects, currentBand)

-- What is left of one region once the other one has ended: the rest of the current band is sliced,
-- and all further bands are copied as they are.
def sweepTail
    (slice : Bool) (mRects rects : List Rect) (scanline : Int) (currentBand : BandRef) : List Rect :=
  match slice, rects with
  | true, rect :: rest =>
    (sliceBand mRects (leadingBand (rect :: rest)) (max rect.top scanline) rect.bottom currentBand).1 ++
      afterBand (rect :: rest)
  | _, _ => mRects

def sweep (op : Sweep) (mRects : List Rect) (scanline : Int) (currentBand : BandRef) :
    List Rect → List Rect → List Rect
  | leftRect :: left, rightRect :: right =>
    let leftBand  := leadingBand (leftRect :: left)
    let rightBand := leadingBand (rightRect :: right)
    if leftRect.top ≤ rightRect.top then
      let y := max leftRect.top scanline
      if y < rightRect.top then
        let scanline := min leftRect.bottom rightRect.top
        let next := sweepBand op.sliceLeft mRects leftBand y scanline currentBand
        sweep op next.1 scanline next.2
          (advanceBand scanline (leftRect :: left)) (advanceBand scanline (rightRect :: right))
      else
        let scanline := min leftRect.bottom rightRect.bottom
        let next := op.combineBands mRects leftBand rightBand y scanline currentBand
        sweep op next.1 scanline next.2
          (advanceBand scanline (leftRect :: left)) (advanceBand scanline (rightRect :: right))
    else
      let y := max rightRect.top scanline
      if y < leftRect.top then
        let scanline := min leftRect.top rightRect.bottom
        let next := sweepBand op.sliceRight mRects rightBand y scanline currentBand
        sweep op next.1 scanline next.2
          (advanceBand scanline (leftRect :: left)) (advanceBand scanline (rightRect :: right))
      else
        let scanline := min leftRect.bottom rightRect.bottom
        let next := op.combineBands mRects leftBand rightBand y scanline currentBand
        sweep op next.1 scanline next.2
          (advanceBand scanline (leftRect :: left)) (advanceBand scanline (rightRect :: right))
  | leftRect :: left, [] => sweepTail op.sliceLeft mRects (leftRect :: left) scanline currentBand
  | [], rightRect :: right => sweepTail op.sliceRight mRects (rightRect :: right) scanline currentBand
  | [], [] => mRects
termination_by left right => sweepSteps scanline left right
decreasing_by
  · exact sweepSteps_lt_of_left (by omega) ‹_›
  · exact sweepSteps_lt_of_bottoms
  · exact sweepSteps_lt_of_right (by omega) (by omega)
  · exact sweepSteps_lt_of_bottoms

def Sweep.run (op : Sweep) (left right : List Rect) : List Rect :=
  sweep op [] (topmost left right) {} left right

def unite (left right : List Rect) : List Rect :=
  Sweep.run { sliceLeft := true, sliceRight := true, combineBands := mergeBands } left right

def subtract (left right : List Rect) : List Rect :=
  Sweep.run { sliceLeft := true, sliceRight := false, combineBands := subtractBands } left right

def exclusiveOr (left right : List Rect) : List Rect :=
  Sweep.run { sliceLeft := true, sliceRight := true, combineBands := xorBands } left right

def intersect (left right : List Rect) : List Rect :=
  Sweep.run { sliceLeft := false, sliceRight := false, combineBands := intersectBands } left right

def computeBounds (mRects : List Rect) : Region :=
  match mRects with
  | [rect] => { mBounds := rect }
  | rects  => { mBounds := rects.foldl Rect.united default, mRects := rects }

def united (r other : Region) : Region :=
  if r.isEmpty then
    other
  else if other.isEmpty then
    r
  else if r.mRects.isEmpty && other.contains r.mBounds then
    other
  else if other.mRects.isEmpty && r.contains other.mBounds then
    r
  else if r = other then
    r
  else
    match unite r.rects other.rects with
    | [rect] => { mBounds := rect }
    | rects  => { mBounds := r.mBounds.united other.mBounds, mRects := rects }

def subtracted (r other : Region) : Region :=
  if r.isEmpty then
    {}
  else if other.isEmpty then
    r
  else if !r.mBounds.intersects other.mBounds then
    r
  else if r = other then
    {}
  else
    computeBounds (subtract r.rects other.rects)

def xored (r other : Region) : Region :=
  if r.isEmpty then
    other
  else if other.isEmpty then
    r
  else if r = other then
    {}
  else
    computeBounds (exclusiveOr r.rects other.rects)

def intersected (r other : Region) : Region :=
  if r.isEmpty then
    {}
  else if other.isEmpty then
    {}
  else
    let intersectedBounds := r.mBounds.intersected other.mBounds
    if intersectedBounds.isEmpty then
      {}
    else if r.mRects.isEmpty && other.mRects.isEmpty then
      ofRect intersectedBounds
    else if r.mRects.isEmpty && r.mBounds.contains other.mBounds then
      other
    else if other.mRects.isEmpty && other.mBounds.contains r.mBounds then
      r
    else
      computeBounds (intersect r.rects other.rects)

def containsPoint (r : Region) (point : Point) : Bool :=
  if r.isEmpty then
    false
  else if r.mRects.isEmpty then
    r.mBounds.containsPoint point
  else
    go point (bandByY r.mRects point.y)
where
  go (point : Point) : List Rect → Bool
    | [] => false
    | hd :: tl =>
      if point.y < hd.top then
        false
      else if hd.right ≤ point.x then
        go point tl
      else if hd.left ≤ point.x then
        true
      else if hd.left > point.x then
        false
      else
        go point tl

def intersectsRect (r : Region) (rect : Rect) : Bool :=
  if r.isEmpty then
    false
  else if rect.isEmpty then
    false
  else if r.mRects.isEmpty then
    r.mBounds.intersects rect
  else if !r.mBounds.intersects rect then
    false
  else
    go rect rect.top (bandByY r.mRects rect.top)
where
  go (rect : Rect) (scanline : Int) : List Rect → Bool
    | [] => false
    | hd :: tl =>
      if hd.bottom ≤ scanline then
        go rect scanline tl
      -- The current band is below the specified rectangle, no intersection is possible.
      else if rect.bottom ≤ hd.top then
        false
      -- Skip a rectangle in the current band if it is far to the left.
      else if hd.right ≤ rect.left then
        go rect scanline tl
      -- Jump to the next band if a rectangle in the current band is far to the right.
      else if rect.right ≤ hd.left then
        if rect.bottom ≤ hd.bottom then false else go rect hd.bottom tl
      -- A rectangle in the current band partially overlaps with the specified rectangle.
      else
        true

def intersects (r other : Region) : Bool :=
  if r.isEmpty then
    false
  else if other.isEmpty then
    false
  else if (r.mBounds.intersected other.mBounds).isEmpty then
    false
  else if r.mRects.isEmpty && other.mRects.isEmpty then
    true
  else
    other.rects.any r.intersectsRect

end KWin.Region
