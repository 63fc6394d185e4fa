import Mathlib.Data.List.Sort
import PlasmaModel.Region.Operations
import PlasmaModel.Region.RectF

namespace KWin

-- What the standard library says of its sort by the top edges: equal ones may come in any order.
structure RectSort where
  sort   : List Rect → List Rect
  perm   : ∀ rects, (sort rects).Perm rects
  sorted : ∀ rects, (sort rects).Pairwise fun a b => a.top ≤ b.top

namespace Region

def organizeBand
    (mRects rects : List Rect) (top bottom : Int) (previousBand : BandRef) : List Rect × BandRef :=
  emitBand mRects (rects.foldl (fun emitted rect => mergeRect top bottom rect emitted) []).reverse previousBand

-- The buffer is ordered by the left edges.
def insertRect (buffer : List Rect) (rect : Rect) : List Rect :=
  buffer.orderedInsert (fun a b => a.left ≤ b.left) rect

def pushRects (scanline : Int) (buffer rects : List Rect) : List Rect :=
  (rects.takeWhile (·.top = scanline)).foldl insertRect buffer

def nearestBottom (buffer : List Rect) : Option Int :=
  (buffer.map (·.bottom)).min?

def eraseBottom (bottom : Int) (buffer : List Rect) : List Rect :=
  buffer.filter (·.bottom ≠ bottom)

variable {scanline bottom : Int} {buffer rects rest : List Rect} {rect : Rect}

theorem nearestBottom_eq_some :
    nearestBottom buffer = some bottom ↔ (∃ r ∈ buffer, r.bottom = bottom) ∧ ∀ r ∈ buffer, bottom ≤ r.bottom := by
  simp [nearestBottom, List.min?_eq_some_iff]

theorem nearestBottom_eq_none : nearestBottom buffer = none ↔ buffer = [] := by
  simp [nearestBottom]

theorem length_eraseBottom_lt (h : nearestBottom buffer = some bottom) :
    (eraseBottom bottom buffer).length < buffer.length := by
  have ⟨r, hr, hb⟩ := (nearestBottom_eq_some.mp h).1
  exact List.length_filter_lt_length_iff_exists.mpr ⟨r, hr, by simp [hb]⟩

theorem length_pushRects :
    (pushRects scanline buffer rects).length = buffer.length + (rects.takeWhile (·.top = scanline)).length := by
  rw [pushRects]
  generalize rects.takeWhile (·.top = scanline) = pushed
  induction pushed generalizing buffer
  case nil => rfl
  case cons r pushed ih =>
    rw [List.foldl_cons, ih, insertRect, List.orderedInsert_length, List.length_cons]
    omega

-- An iteration moves rectangles from the list to the buffer or out of the buffer, or the next one can push.
def pendingSteps (scanline : Int) (buffer rects : List Rect) : Nat :=
  4 * rects.length + 2 * buffer.length + if ∀ r ∈ rects.head?, r.top = scanline then 0 else 1

theorem pendingSteps_le : pendingSteps scanline buffer rects ≤ 4 * rects.length + 2 * buffer.length + 1 := by
  rw [pendingSteps]
  split <;> omega

theorem pendingSteps_lt {scanline' : Int} {buffer' : List Rect}
    (hr : rects.dropWhile (·.top = scanline) = rect :: rest)
    (h : buffer'.length < (pushRects scanline buffer rects).length ∨
      buffer'.length ≤ (pushRects scanline buffer rects).length ∧ scanline' = rect.top) :
    pendingSteps scanline' buffer' (rect :: rest) < pendingSteps scanline buffer rects := by
  have hlength := congrArg List.length (List.takeWhile_append_dropWhile (p := (·.top = scanline)) (l := rects))
  rw [hr, List.length_append, List.length_cons] at hlength
  rw [length_pushRects] at h
  cases rects with
  | nil => cases hr
  | cons r rects =>
    by_cases htop : r.top = scanline
    case pos =>
      have htake : 0 < ((r :: rects).takeWhile (·.top = scanline)).length := by simp [htop]
      have hle : pendingSteps scanline' buffer' (rect :: rest) ≤ _ := pendingSteps_le
      rw [pendingSteps.eq_def scanline buffer]
      simp only [List.length_cons] at *
      omega
    case neg =>
      have htake : (r :: rects).takeWhile (·.top = scanline) = [] := by simp [htop]
      have hflag : pendingSteps scanline buffer (r :: rects) = 4 * (r :: rects).length + 2 * buffer.length + 1 := by
        simp [pendingSteps, htop]
      rw [htake, List.length_nil] at hlength h
      rw [hflag]
      cases h with
      | inl h =>
        have hle : pendingSteps scanline' buffer' (rect :: rest) ≤ _ := pendingSteps_le
        simp only [List.length_cons] at *
        omega
      | inr h =>
        have hzero : pendingSteps scanline' buffer' (rect :: rest) = 4 * (rect :: rest).length + 2 * buffer'.length :=
          by simp [pendingSteps, h.2]
        simp only [List.length_cons] at *
        omega

-- Takes what is left in the buffer out of it, band by band.
def drainBuffer (mRects : List Rect) (currentBand : BandRef) (scanline : Int) (buffer : List Rect) : List Rect :=
  match h : nearestBottom buffer with
  | none => mRects
  | some bottom =>
    let next := organizeBand mRects buffer scanline bottom currentBand
    drainBuffer next.1 next.2 bottom (eraseBottom bottom buffer)
termination_by buffer.length
decreasing_by exact length_eraseBottom_lt h

-- There is nothing if the smallest bottom edge of an empty buffer is read.
def sweepRects (mRects : List Rect) (currentBand : BandRef) (scanline : Int) (buffer rects : List Rect) :
    Option (List Rect) :=
  match hr : rects.dropWhile (·.top = scanline) with
  | [] => some (drainBuffer mRects currentBand scanline (pushRects scanline buffer rects))
  | rect :: rest =>
    match hb : nearestBottom (pushRects scanline buffer rects) with
    | none => none
    | some bottom =>
      let next := organizeBand mRects (pushRects scanline buffer rects) scanline (min rect.top bottom) currentBand
      if min rect.top bottom = bottom then
        let remaining := eraseBottom bottom (pushRects scanline buffer rects)
        sweepRects next.1 next.2 (if remaining.isEmpty then rect.top else bottom) remaining (rect :: rest)
      else
        sweepRects next.1 next.2 (min rect.top bottom) (pushRects scanline buffer rects) (rect :: rest)
termination_by pendingSteps scanline buffer rects
decreasing_by
  · exact pendingSteps_lt hr (.inl (length_eraseBottom_lt hb))
  · exact pendingSteps_lt hr (.inr ⟨Nat.le_refl _, by omega⟩)

def assignRectsSortedByY : List Rect → Option (List Rect)
  | [] => none
  | rect :: rects => sweepRects [] {} rect.top [] (rect :: rects)

def fromRectsSortedByY : List Rect → Option Region
  | []     => some {}
  | [rect] => some (ofRect rect)
  | rects  => (assignRectsSortedByY rects).map computeBounds

def fromUnsortedRects (sort : RectSort) : List Rect → Option Region
  | []     => some {}
  | [rect] => some (ofRect rect)
  | rects  => fromRectsSortedByY (sort.sort rects)

end Region

structure RegionF where
  mBounds : RectF := default
  mRects  : List RectF := []

namespace Region

def infinite : Region :=
  ofRect (Rect.ofSize ⟨-1073741824, -1073741824⟩ ⟨2147483647, 2147483647⟩)

-- The rectangles are swept again, and the bounds are computed on their own.
def remapped (f : Rect → Rect) (r : Region) : Option Region :=
  (assignRectsSortedByY (r.mRects.map f)).map fun mRects => { mBounds := f r.mBounds, mRects }

def grownBy (r : Region) (margins : Margins) : Option Region :=
  if r.mRects.isEmpty then
    some (ofRect (r.mBounds.grownBy margins))
  else
    remapped (·.grownBy margins) r

def scaledAndRoundedOut (r : Region) (xScale yScale : ℚ) : Option Region :=
  if r = infinite then
    some r
  else if r.isEmpty then
    some {}
  else if r.mRects.isEmpty then
    some (ofRect (r.mBounds.scaled xScale yScale).roundedOut)
  else if xScale = 1 ∧ yScale = 1 then
    some r
  else
    remapped (fun rect => (rect.scaled xScale yScale).roundedOut) r

def fromSortedRects : List Rect → Region
  | []     => {}
  | [rect] => ofRect rect
  | rects  => computeBounds rects

end Region

namespace RegionF

def isEmpty (r : RegionF) : Bool :=
  r.mBounds.isEmpty

def rects (r : RegionF) : List RectF :=
  if r.isEmpty then
    []
  else if r.mRects.isEmpty then
    [r.mBounds]
  else
    r.mRects

-- Rectangles which round to nothing are left out.
def roundedBy (round : RectF → Rect) (r : RegionF) : Region :=
  if r.isEmpty then
    {}
  else if r.mRects.isEmpty then
    Region.ofRect (round r.mBounds)
  else
    Region.fromSortedRects ((r.mRects.map round).filter (!·.isEmpty))

def rounded (r : RegionF) : Region :=
  r.roundedBy RectF.rounded

def roundedIn (r : RegionF) : Region :=
  r.roundedBy RectF.roundedIn

end RegionF

end KWin
