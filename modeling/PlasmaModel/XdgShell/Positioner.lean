import PlasmaModel.Lib.Runs
import PlasmaModel.Region.RectF

-- An interval, moved and cut to fit in another one.
@[ext]
structure Span where
  lower : ℚ
  upper : ℚ

namespace Span

def length (s : Span) : ℚ :=
  s.upper - s.lower

def moveLower (s : Span) (lower : ℚ) : Span :=
  ⟨lower, s.upper + (lower - s.lower)⟩

def moveUpper (s : Span) (upper : ℚ) : Span :=
  ⟨s.lower + (upper - s.upper), upper⟩

def Within (s b : Span) : Prop :=
  b.lower ≤ s.lower ∧ s.upper ≤ b.upper

def Overlaps (s b : Span) : Prop :=
  max s.lower b.lower < min s.upper b.upper

instance (s b : Span) : Decidable (s.Within b) :=
  inferInstanceAs (Decidable (_ ∧ _))

instance (s b : Span) : Decidable (s.Overlaps b) :=
  inferInstanceAs (Decidable (_ < _))

-- If both ends stick out, the upper one is moved last.
def slide (s b : Span) : Span :=
  let s := if s.lower < b.lower then s.moveLower b.lower else s
  if b.upper < s.upper then s.moveUpper b.upper else s

def inter (s b : Span) : Span :=
  ⟨max s.lower b.lower, min s.upper b.upper⟩

def resize (s b : Span) : Span :=
  if s.Overlaps b then s.inter b else s

variable {s b : Span} {x : ℚ}

@[simp]
theorem length_moveLower : (s.moveLower x).length = s.length := by
  simp only [length, moveLower]
  ring

@[simp]
theorem length_moveUpper : (s.moveUpper x).length = s.length := by
  simp only [length, moveUpper]
  ring

@[simp]
theorem length_slide : (s.slide b).length = s.length := by
  simp only [slide]
  split_ifs <;> simp

theorem slide_of_within (h : s.Within b) : s.slide b = s := by
  rw [slide, if_neg (not_lt.mpr h.1), if_neg (not_lt.mpr h.2)]

theorem resize_of_within (h : s.Within b) : s.resize b = s := by
  have hinter : s.inter b = s := Span.ext (max_eq_left h.1) (min_eq_left h.2)
  rw [resize, hinter, ite_self]

theorem slide_within (h : s.length ≤ b.length) : (s.slide b).Within b := by
  simp only [length] at h
  rw [slide, moveLower]
  split_ifs with hl hu hu
  all_goals
    simp only [moveUpper, Within, not_lt] at *
    constructor <;> linarith

-- A longer interval keeps covering what it had in common with the bounds.
theorem Overlaps.slide (h : s.Overlaps b) : (s.slide b).Overlaps b := by
  have ⟨h₁, h₂⟩ := lt_min_iff.mp h
  have ⟨hs, hb⟩ := max_lt_iff.mp h₁
  have ⟨hs', hb'⟩ := max_lt_iff.mp h₂
  rw [Span.slide, moveLower]
  split_ifs with hl hu hu
  all_goals
    simp only [moveUpper, Overlaps, lt_min_iff, max_lt_iff, not_lt] at *
    refine ⟨⟨?_, ?_⟩, ?_, ?_⟩ <;> linarith

theorem Overlaps.resize_within (h : s.Overlaps b) : (s.resize b).Within b := by
  rw [resize, if_pos h]
  exact ⟨le_max_right .., min_le_right ..⟩

theorem Overlaps.length_pos (h : s.Overlaps b) : 0 < s.length :=
  sub_pos.mpr ((le_max_left ..).trans_lt (h.trans_le (min_le_left ..)))

theorem resize_length_pos : 0 < (s.resize b).length ↔ 0 < s.length := by
  rw [resize]
  split_ifs with h
  · exact ⟨fun _ => h.length_pos, fun _ => sub_pos.mpr h⟩
  · rfl

end Span

namespace KWin

inductive Orientation
  | horizontal
  | vertical
deriving DecidableEq

structure Edges where
  left   : Bool := false
  top    : Bool := false
  right  : Bool := false
  bottom : Bool := false

def Orientations.has (orientations : Orientations) : Orientation → Bool
  | .horizontal => orientations.horizontal
  | .vertical   => orientations.vertical

namespace Edges

def lower (edges : Edges) : Orientation → Bool
  | .horizontal => edges.left
  | .vertical   => edges.top

def upper (edges : Edges) : Orientation → Bool
  | .horizontal => edges.right
  | .vertical   => edges.bottom

def all : Edges :=
  ⟨true, true, true, true⟩

def along : Orientation → Edges
  | .horizontal => { left := true, right := true }
  | .vertical   => { top := true, bottom := true }

def lowest : Orientation → Edges
  | .horizontal => { left := true }
  | .vertical   => { top := true }

def uppermost : Orientation → Edges
  | .horizontal => { right := true }
  | .vertical   => { bottom := true }

-- If either edge is set, both are toggled.
def flipped (edges : Edges) : Orientation → Edges
  | .horizontal =>
    if edges.left || edges.right then { edges with left := !edges.left, right := !edges.right } else edges
  | .vertical =>
    if edges.top || edges.bottom then { edges with top := !edges.top, bottom := !edges.bottom } else edges

end Edges

namespace RectF

def span (r : RectF) : Orientation → Span
  | .horizontal => ⟨r.left, r.right⟩
  | .vertical   => ⟨r.top, r.bottom⟩

def moveLower (r : RectF) : Orientation → ℚ → RectF
  | .horizontal => r.moveLeft
  | .vertical   => r.moveTop

def moveUpper (r : RectF) : Orientation → ℚ → RectF
  | .horizontal => r.moveRight
  | .vertical   => r.moveBottom

def setLower (r : RectF) : Orientation → ℚ → RectF
  | .horizontal, left => { r with left }
  | .vertical, top    => { r with top }

def setUpper (r : RectF) : Orientation → ℚ → RectF
  | .horizontal, right => { r with right }
  | .vertical, bottom  => { r with bottom }

end RectF

structure XdgPositionerData where
  slideConstraintAdjustments  : Orientations := {}
  flipConstraintAdjustments   : Orientations := {}
  resizeConstraintAdjustments : Orientations := {}
  anchorEdges                 : Edges := {}
  gravityEdges                : Edges := {}
  offset                      : Point := ⟨0, 0⟩
  size                        : Size := ⟨-1, -1⟩
  anchorRect                  : Rect := ⟨0, 0, 0, 0⟩

namespace XdgPositionerData

inductive Request
  | setSize (width height : Int)
  | setAnchorRect (x y width height : Int)
  | setAnchor (anchor : Nat)
  | setGravity (gravity : Nat)
  | setConstraintAdjustment (constraintAdjustment : Nat)
  | setOffset (x y : Int)

def setSize (data : XdgPositionerData) (width height : Int) : Except String XdgPositionerData :=
  if width < 1 ∨ height < 1 then
    .error "width and height must be positive and non-zero"
  else
    .ok { data with size := ⟨width, height⟩ }

def setAnchorRect (data : XdgPositionerData) (x y width height : Int) : Except String XdgPositionerData :=
  if width < 1 ∨ height < 1 then
    .error "width and height must be positive and non-zero"
  else
    .ok { data with anchorRect := ⟨x, y, x + width, y + height⟩ }

-- The protocol numbers anchors and gravities alike.
def edges : Nat → Edges
  | 1 => { top := true }
  | 2 => { bottom := true }
  | 3 => { left := true }
  | 4 => { right := true }
  | 5 => { top := true, left := true }
  | 6 => { bottom := true, left := true }
  | 7 => { top := true, right := true }
  | 8 => { bottom := true, right := true }
  | _ => {}

def setAnchor (data : XdgPositionerData) (anchor : Nat) : Except String XdgPositionerData :=
  if anchor > 8 then
    .error "unknown anchor point"
  else
    .ok { data with anchorEdges := edges anchor }

def setGravity (data : XdgPositionerData) (gravity : Nat) : Except String XdgPositionerData :=
  if gravity > 8 then
    .error "unknown gravity direction"
  else
    .ok { data with gravityEdges := edges gravity }

def setConstraintAdjustment (data : XdgPositionerData) (constraintAdjustment : Nat) : XdgPositionerData :=
  { data with
    slideConstraintAdjustments  := ⟨constraintAdjustment.testBit 0, constraintAdjustment.testBit 1⟩
    flipConstraintAdjustments   := ⟨constraintAdjustment.testBit 2, constraintAdjustment.testBit 3⟩
    resizeConstraintAdjustments := ⟨constraintAdjustment.testBit 4, constraintAdjustment.testBit 5⟩ }

def setOffset (data : XdgPositionerData) (x y : Int) : XdgPositionerData :=
  { data with offset := ⟨x, y⟩ }

def request (data : XdgPositionerData) : Request → Except String XdgPositionerData
  | .setSize width height => data.setSize width height
  | .setAnchorRect x y width height => data.setAnchorRect x y width height
  | .setAnchor anchor => data.setAnchor anchor
  | .setGravity gravity => data.setGravity gravity
  | .setConstraintAdjustment constraintAdjustment => .ok (data.setConstraintAdjustment constraintAdjustment)
  | .setOffset x y => .ok (data.setOffset x y)

def step (data : XdgPositionerData) (request : Request) : Option XdgPositionerData :=
  (data.request request).toOption

-- An error ends the client.
abbrev Reachable (data : XdgPositionerData) : Prop :=
  Machine.Reaches step (fun _ _ => True) {} data

end XdgPositionerData

-- A popup may be repositioned by a positioner that is not complete.
structure XdgPositioner where
  d               : XdgPositionerData
  reachable       : d.Reachable
  popupScale      : ℚ := 1
  parentScale     : ℚ := 1
  popupScale_pos  : 0 < popupScale := by norm_num
  parentScale_pos : 0 < parentScale := by norm_num

def anchorCoordinate (lower upper : Bool) (start length : ℚ) : ℚ :=
  match lower, upper with
  | true, false => start
  | false, true => start + length
  | _, _        => roundAway (start + length / 2)

def gravityAdjust (lower upper : Bool) (length : ℚ) : ℚ :=
  match lower, upper with
  | true, false => -length
  | false, true => 0
  | _, _        => roundAway (-length / 2)

def popupOffset (anchorRect : RectF) (anchorEdge gravity : Edges) (popupSize : SizeF) : PointF where
  x := anchorCoordinate anchorEdge.left anchorEdge.right anchorRect.left (anchorRect.right - anchorRect.left) +
    gravityAdjust gravity.left gravity.right popupSize.width
  y := anchorCoordinate anchorEdge.top anchorEdge.bottom anchorRect.top (anchorRect.bottom - anchorRect.top) +
    gravityAdjust gravity.top gravity.bottom popupSize.height

def inBounds (bounds target : RectF) (edges : Edges) : Bool :=
  !(edges.left && target.left < bounds.left) && !(edges.top && target.top < bounds.top) &&
    !(edges.right && target.right > bounds.right) && !(edges.bottom && target.bottom > bounds.bottom)

def unconstrainedRect (bounds : RectF) (o : Orientation) (popupRect : RectF) : RectF :=
  let unconstrainedRect :=
    if inBounds bounds popupRect (.lowest o) then popupRect else popupRect.setLower o (bounds.span o).lower
  if inBounds bounds unconstrainedRect (.uppermost o) then
    unconstrainedRect
  else
    unconstrainedRect.setUpper o (bounds.span o).upper

namespace XdgPositioner

variable (p : XdgPositioner)

def size : SizeF :=
  ⟨p.d.size.width / p.popupScale, p.d.size.height / p.popupScale⟩

def popupRect (anchorEdge gravity : Edges) : RectF :=
  let anchorRect := p.d.anchorRect.scaled (1 / p.parentScale) (1 / p.parentScale)
  let popupOffset := popupOffset anchorRect anchorEdge gravity p.size
  let left := popupOffset.x + p.d.offset.x / p.parentScale
  let top := popupOffset.y + p.d.offset.y / p.parentScale
  ⟨left, top, left + p.size.width, top + p.size.height⟩

def unconstrained : RectF :=
  p.popupRect p.d.anchorEdges p.d.gravityEdges

def flippedPopupRect (o : Orientation) : RectF :=
  p.popupRect (p.d.anchorEdges.flipped o) (p.d.gravityEdges.flipped o)

def flip (bounds : RectF) (o : Orientation) (popupRect : RectF) : RectF :=
  if p.d.flipConstraintAdjustments.has o && !inBounds bounds popupRect (.along o) then
    if inBounds bounds (p.flippedPopupRect o) (.along o) then
      popupRect.moveLower o ((p.flippedPopupRect o).span o).lower
    else
      popupRect
  else
    popupRect

def slide (bounds : RectF) (o : Orientation) (popupRect : RectF) : RectF :=
  if p.d.slideConstraintAdjustments.has o then
    let popupRect :=
      if inBounds bounds popupRect (.lowest o) then popupRect else popupRect.moveLower o (bounds.span o).lower
    if inBounds bounds popupRect (.uppermost o) then popupRect else popupRect.moveUpper o (bounds.span o).upper
  else
    popupRect

def resize (bounds : RectF) (o : Orientation) (popupRect : RectF) : RectF :=
  if p.d.resizeConstraintAdjustments.has o then
    let unconstrainedRect := unconstrainedRect bounds o popupRect
    if unconstrainedRect.isEmpty then popupRect else unconstrainedRect
  else
    popupRect

def adjust (bounds : RectF) (o : Orientation) (popupRect : RectF) : RectF :=
  p.resize bounds o (p.slide bounds o (p.flip bounds o popupRect))

def placement (bounds : RectF) : RectF :=
  if inBounds bounds p.unconstrained .all then
    p.unconstrained
  else
    p.adjust bounds .vertical (p.adjust bounds .horizontal p.unconstrained)

end XdgPositioner

-- What the placement along one axis depends on.
structure Along where
  anchorLower  : Bool
  anchorUpper  : Bool
  gravityLower : Bool
  gravityUpper : Bool
  anchorRect   : Span
  offset       : ℚ
  size         : ℚ
  popupScale   : ℚ
  parentScale  : ℚ
  flip         : Bool
  slide        : Bool
  resize       : Bool

namespace Along

variable (a : Along)

def length : ℚ :=
  a.size / a.popupScale

def popupSpan (anchorLower anchorUpper gravityLower gravityUpper : Bool) : Span :=
  let start := a.anchorRect.lower * (1 / a.parentScale)
  let length := a.anchorRect.upper * (1 / a.parentScale) - start
  let lower := anchorCoordinate anchorLower anchorUpper start length +
    gravityAdjust gravityLower gravityUpper a.length + a.offset / a.parentScale
  ⟨lower, lower + a.length⟩

def unconstrained : Span :=
  a.popupSpan a.anchorLower a.anchorUpper a.gravityLower a.gravityUpper

def toggled (lower upper edge : Bool) : Bool :=
  if lower || upper then !edge else edge

def flipped : Span :=
  a.popupSpan (toggled a.anchorLower a.anchorUpper a.anchorLower) (toggled a.anchorLower a.anchorUpper a.anchorUpper)
    (toggled a.gravityLower a.gravityUpper a.gravityLower) (toggled a.gravityLower a.gravityUpper a.gravityUpper)

def flippedIn (b : Span) : Span :=
  if a.flip ∧ ¬a.unconstrained.Within b ∧ a.flipped.Within b then a.flipped else a.unconstrained

def slidIn (b : Span) : Span :=
  if a.slide then (a.flippedIn b).slide b else a.flippedIn b

def placement (b : Span) : Span :=
  if a.resize then (a.slidIn b).resize b else a.slidIn b

variable {a : Along} {b : Span} {al au gl gu : Bool}

@[simp]
theorem length_popupSpan : (a.popupSpan al au gl gu).length = a.length := by
  rw [Span.length, popupSpan, add_sub_cancel_left]

@[simp]
theorem length_flippedIn : (a.flippedIn b).length = a.length := by
  rw [flippedIn]
  split <;> exact length_popupSpan

@[simp]
theorem length_slidIn : (a.slidIn b).length = a.length := by
  rw [slidIn]
  split <;> simp

theorem length_placement (h : a.resize = false) : (a.placement b).length = a.length := by
  rw [placement, if_neg (by simp [h]), length_slidIn]

theorem length_placement_pos : 0 < (a.placement b).length ↔ 0 < a.length := by
  rw [placement]
  split
  case isTrue => rw [Span.resize_length_pos, length_slidIn]
  case isFalse => rw [length_slidIn]

-- What fits is left as it is.
theorem placement_of_within (h : (a.flippedIn b).Within b) : a.placement b = a.flippedIn b := by
  have hslid : a.slidIn b = a.flippedIn b := by
    rw [slidIn, Span.slide_of_within h, ite_self]
  rw [placement, hslid, Span.resize_of_within h, ite_self]

theorem placement_of_fits (h : a.unconstrained.Within b) : a.placement b = a.unconstrained := by
  have hflipped : a.flippedIn b = a.unconstrained := if_neg fun hn => hn.2.1 h
  rw [placement_of_within (hflipped ▸ h), hflipped]

theorem slid_within (h : a.slide = true) (hl : a.length ≤ b.length) : (a.placement b).Within b := by
  have hw : (a.slidIn b).Within b := by
    rw [slidIn, if_pos h]
    exact Span.slide_within (length_flippedIn.trans_le hl)
  rw [placement, Span.resize_of_within hw, ite_self]
  exact hw

theorem slidIn_overlaps (h : a.unconstrained.Overlaps b) : (a.slidIn b).Overlaps b ∨ (a.placement b).Within b := by
  rw [slidIn, flippedIn]
  by_cases hf : a.flip ∧ ¬a.unconstrained.Within b ∧ a.flipped.Within b
  case pos =>
    right
    have hflipped : a.flippedIn b = a.flipped := if_pos hf
    rw [placement_of_within (hflipped ▸ hf.2.2), hflipped]
    exact hf.2.2
  case neg =>
    left
    rw [if_neg hf]
    split
    case isTrue => exact h.slide
    case isFalse => exact h

theorem resized_within (h : a.resize = true) (ho : (a.slidIn b).Overlaps b) : (a.placement b).Within b := by
  rw [placement, if_pos h]
  exact ho.resize_within

theorem placement_flip (b : Span) : a.placement b = { a with flip := false }.placement b ∨
    a.flip = true ∧ ¬a.unconstrained.Within b ∧ a.flipped.Within b ∧ a.placement b = a.flipped := by
  by_cases hf : a.flip ∧ ¬a.unconstrained.Within b ∧ a.flipped.Within b
  case pos =>
    have hflipped : a.flippedIn b = a.flipped := if_pos hf
    refine .inr ⟨hf.1, hf.2.1, hf.2.2, ?_⟩
    rw [placement_of_within (hflipped ▸ hf.2.2), hflipped]
  case neg =>
    left
    have hflipped : a.flippedIn b = a.unconstrained := if_neg hf
    have hunflipped : { a with flip := false }.flippedIn b = a.unconstrained := if_neg (by simp)
    rw [placement, placement, slidIn, slidIn, hflipped, hunflipped]

end Along

namespace RectF

variable {r bounds : RectF} {o o' : Orientation} {x : ℚ}

@[simp]
theorem span_moveLower : (r.moveLower o x).span o = (r.span o).moveLower x := by
  cases o <;> rfl

@[simp]
theorem span_moveUpper : (r.moveUpper o x).span o = (r.span o).moveUpper x := by
  cases o <;> rfl

theorem span_moveLower_ne (h : o' ≠ o) : (r.moveLower o x).span o' = r.span o' := by
  cases o <;> cases o' <;> first | rfl | exact absurd rfl h

theorem span_moveUpper_ne (h : o' ≠ o) : (r.moveUpper o x).span o' = r.span o' := by
  cases o <;> cases o' <;> first | rfl | exact absurd rfl h

@[simp]
theorem span_setLower : (r.setLower o x).span o = ⟨x, (r.span o).upper⟩ := by
  cases o <;> rfl

@[simp]
theorem span_setUpper : (r.setUpper o x).span o = ⟨(r.span o).lower, x⟩ := by
  cases o <;> rfl

theorem span_setLower_ne (h : o' ≠ o) : (r.setLower o x).span o' = r.span o' := by
  cases o <;> cases o' <;> first | rfl | exact absurd rfl h

theorem span_setUpper_ne (h : o' ≠ o) : (r.setUpper o x).span o' = r.span o' := by
  cases o <;> cases o' <;> first | rfl | exact absurd rfl h

theorem isEmpty_eq_false_iff_span : r.isEmpty = false ↔ ∀ o, 0 < (r.span o).length := by
  rw [isEmpty_eq_false_iff]
  refine ⟨fun h o => ?_, fun h => ⟨sub_pos.mp (h .horizontal), sub_pos.mp (h .vertical)⟩⟩
  cases o
  case horizontal => exact sub_pos.mpr h.1
  case vertical => exact sub_pos.mpr h.2

end RectF

section InBounds

variable {bounds target : RectF} {o : Orientation}

theorem inBounds_lowest :
    inBounds bounds target (.lowest o) = true ↔ (bounds.span o).lower ≤ (target.span o).lower := by
  cases o <;> simp [inBounds, Edges.lowest, RectF.span]

theorem inBounds_uppermost :
    inBounds bounds target (.uppermost o) = true ↔ (target.span o).upper ≤ (bounds.span o).upper := by
  cases o <;> simp [inBounds, Edges.uppermost, RectF.span]

theorem inBounds_along : inBounds bounds target (.along o) = true ↔ (target.span o).Within (bounds.span o) := by
  cases o <;> simp [inBounds, Edges.along, RectF.span, Span.Within]

theorem inBounds_all : inBounds bounds target .all = true ↔ ∀ o, (target.span o).Within (bounds.span o) := by
  refine ⟨fun h o => ?_, fun h => ?_⟩
  · cases o <;> simp_all [inBounds, Edges.all, RectF.span, Span.Within]
  · have hh := h .horizontal
    have hv := h .vertical
    simp_all [inBounds, Edges.all, RectF.span, Span.Within]

end InBounds

namespace XdgPositioner

def along (p : XdgPositioner) (o : Orientation) : Along where
  anchorLower  := p.d.anchorEdges.lower o
  anchorUpper  := p.d.anchorEdges.upper o
  gravityLower := p.d.gravityEdges.lower o
  gravityUpper := p.d.gravityEdges.upper o
  anchorRect   := p.d.anchorRect.toRectF.span o
  offset       := match o with | .horizontal => p.d.offset.x | .vertical => p.d.offset.y
  size         := match o with | .horizontal => p.d.size.width | .vertical => p.d.size.height
  popupScale   := p.popupScale
  parentScale  := p.parentScale
  flip         := p.d.flipConstraintAdjustments.has o
  slide        := p.d.slideConstraintAdjustments.has o
  resize       := p.d.resizeConstraintAdjustments.has o

variable {p : XdgPositioner} {bounds r : RectF} {o o' : Orientation} {anchorEdge gravity : Edges}

theorem popupRect_span : (p.popupRect anchorEdge gravity).span o =
    (p.along o).popupSpan (anchorEdge.lower o) (anchorEdge.upper o) (gravity.lower o) (gravity.upper o) := by
  cases o <;> rfl

theorem unconstrained_span : p.unconstrained.span o = (p.along o).unconstrained :=
  popupRect_span

theorem flipped_lower {edges : Edges} :
    (edges.flipped o).lower o = Along.toggled (edges.lower o) (edges.upper o) (edges.lower o) := by
  cases o
  case horizontal => exact apply_ite Edges.left ..
  case vertical => exact apply_ite Edges.top ..

theorem flipped_upper {edges : Edges} :
    (edges.flipped o).upper o = Along.toggled (edges.lower o) (edges.upper o) (edges.upper o) := by
  cases o
  case horizontal => exact apply_ite Edges.right ..
  case vertical => exact apply_ite Edges.bottom ..

theorem flippedPopupRect_span : (p.flippedPopupRect o).span o = (p.along o).flipped := by
  rw [flippedPopupRect, popupRect_span, flipped_lower, flipped_upper, flipped_lower, flipped_upper]
  rfl

theorem flip_span (h : r.span o = p.unconstrained.span o) :
    (p.flip bounds o r).span o = (p.along o).flippedIn (bounds.span o) := by
  have hr : r.span o = (p.along o).unconstrained := h.trans unconstrained_span
  rw [flip, Along.flippedIn]
  simp only [Bool.and_eq_true, Bool.not_eq_true', Bool.eq_false_iff, ne_eq, inBounds_along, flippedPopupRect_span, hr]
  split
  case isTrue hf =>
    split
    case isTrue hin =>
      have hlength : (p.along o).unconstrained.length = (p.along o).flipped.length := by
        rw [Along.unconstrained, Along.flipped, Along.length_popupSpan, Along.length_popupSpan]
      rw [if_pos ⟨hf.1, hf.2, hin⟩, RectF.span_moveLower, hr]
      refine Span.ext rfl ?_
      simp only [Span.length] at hlength
      simp only [Span.moveLower]
      linarith
    case isFalse hin => rw [if_neg fun hn => hin hn.2.2, hr]
  case isFalse hf => rw [if_neg fun hn => hf ⟨hn.1, hn.2.1⟩, hr]

theorem flip_span_ne (h : o' ≠ o) : (p.flip bounds o r).span o' = r.span o' := by
  rw [flip]
  split_ifs
  · exact RectF.span_moveLower_ne h
  · rfl
  · rfl

theorem slide_span : (p.slide bounds o r).span o =
    if (p.along o).slide then (r.span o).slide (bounds.span o) else r.span o := by
  rw [slide]
  simp only [inBounds_lowest, inBounds_uppermost]
  refine (apply_ite (RectF.span · o) _ _ _).trans (if_congr Iff.rfl ?_ rfl)
  rw [Span.slide]
  by_cases hl : (bounds.span o).lower ≤ (r.span o).lower
  case pos =>
    rw [if_pos hl, if_neg (not_lt.mpr hl), ← ite_not]
    simp only [not_le]
    split <;> simp
  case neg =>
    rw [if_neg hl, if_pos (not_le.mp hl), ← ite_not, RectF.span_moveLower]
    simp only [not_le]
    split <;> simp

theorem slide_span_ne (h : o' ≠ o) : (p.slide bounds o r).span o' = r.span o' := by
  rw [slide]
  dsimp only
  split_ifs
  all_goals simp only [RectF.span_moveLower_ne h, RectF.span_moveUpper_ne h]

theorem unconstrainedRect_span : (unconstrainedRect bounds o r).span o = (r.span o).inter (bounds.span o) := by
  rw [unconstrainedRect, Span.inter]
  simp only [inBounds_lowest, inBounds_uppermost]
  by_cases hl : (bounds.span o).lower ≤ (r.span o).lower
  case pos =>
    rw [if_pos hl, max_eq_left hl]
    split
    case isTrue hu => rw [min_eq_left hu]
    case isFalse hu => rw [RectF.span_setUpper, min_eq_right (not_le.mp hu).le]
  case neg =>
    rw [if_neg hl, max_eq_right (not_le.mp hl).le, RectF.span_setLower]
    split
    case isTrue hu => rw [RectF.span_setLower, min_eq_left hu]
    case isFalse hu => rw [RectF.span_setUpper, RectF.span_setLower, min_eq_right (not_le.mp hu).le]

theorem unconstrainedRect_span_ne (h : o' ≠ o) : (unconstrainedRect bounds o r).span o' = r.span o' := by
  rw [unconstrainedRect]
  split_ifs
  all_goals simp only [RectF.span_setLower_ne h, RectF.span_setUpper_ne h]

-- The cut rectangle is valid if it is so along both axes.
theorem resize_span (h : ∀ o', 0 < (r.span o').length ↔ 0 < (r.span o).length) : (p.resize bounds o r).span o =
    if (p.along o).resize then (r.span o).resize (bounds.span o) else r.span o := by
  have hempty : (unconstrainedRect bounds o r).isEmpty = false ↔ (r.span o).Overlaps (bounds.span o) := by
    rw [RectF.isEmpty_eq_false_iff_span]
    refine ⟨fun hpos => ?_, fun ho o' => ?_⟩
    · have hlength := hpos o
      rw [unconstrainedRect_span] at hlength
      exact sub_pos.mp hlength
    · by_cases heq : o' = o
      case pos =>
        rw [heq, unconstrainedRect_span]
        exact sub_pos.mpr ho
      case neg =>
        rw [unconstrainedRect_span_ne heq, h]
        exact ho.length_pos
  rw [resize, Span.resize]
  refine (apply_ite (RectF.span · o) _ _ _).trans (if_congr Iff.rfl ?_ rfl)
  by_cases ho : (r.span o).Overlaps (bounds.span o)
  case pos => rw [if_pos ho, if_neg (by simp [hempty.mpr ho]), unconstrainedRect_span]
  case neg => rw [if_neg ho, if_pos (by simpa using mt hempty.mp ho)]

theorem resize_span_ne (h : o' ≠ o) : (p.resize bounds o r).span o' = r.span o' := by
  rw [resize]
  dsimp only
  split_ifs
  · rfl
  · exact unconstrainedRect_span_ne h
  · rfl

theorem adjust_span_ne (h : o' ≠ o) : (p.adjust bounds o r).span o' = r.span o' := by
  rw [adjust, resize_span_ne h, slide_span_ne h, flip_span_ne h]

theorem adjust_span (hr : r.span o = p.unconstrained.span o)
    (hpos : ∀ o', 0 < (r.span o').length ↔ 0 < (r.span o).length) :
    (p.adjust bounds o r).span o = (p.along o).placement (bounds.span o) := by
  have hslid : (p.slide bounds o (p.flip bounds o r)).span o = (p.along o).slidIn (bounds.span o) := by
    rw [slide_span, flip_span hr, Along.slidIn]
  have hlength : (r.span o).length = (p.along o).length := by
    rw [hr, unconstrained_span, Along.unconstrained, Along.length_popupSpan]
  rw [adjust, resize_span, hslid, Along.placement]
  intro o'
  rw [hslid, Along.length_slidIn, ← hlength, ← hpos o']
  by_cases heq : o' = o
  case pos => rw [heq, hslid, Along.length_slidIn, hlength]
  case neg => rw [slide_span_ne heq, flip_span_ne heq]

theorem size_pos (p : XdgPositioner) : 0 < p.d.size.width ↔ 0 < p.d.size.height := by
  refine @Machine.Reaches.invariant _ _ _ _ _ _ (fun d => 0 < d.size.width ↔ 0 < d.size.height) p.reachable
    (by decide) ?_
  intro d d' request hd _ hstep
  cases request
  case setSize width height =>
    simp only [XdgPositionerData.step, XdgPositionerData.request, XdgPositionerData.setSize] at hstep
    split at hstep
    case isTrue => cases hstep
    case isFalse hn =>
      cases hstep
      dsimp only
      omega
  case setConstraintAdjustment => exact Option.some.inj hstep ▸ hd
  case setOffset => exact Option.some.inj hstep ▸ hd
  all_goals
    simp only [XdgPositionerData.step, XdgPositionerData.request, XdgPositionerData.setAnchorRect,
      XdgPositionerData.setAnchor, XdgPositionerData.setGravity] at hstep
    split at hstep
    case isTrue => cases hstep
    case isFalse =>
      cases hstep
      exact hd

theorem length_pos (p : XdgPositioner) (o o' : Orientation) : 0 < (p.along o).length ↔ 0 < (p.along o').length := by
  have hlength : ∀ o, 0 < (p.along o).length ↔ 0 < p.d.size.width := by
    intro o
    cases o
    case horizontal => exact (div_pos_iff_of_pos_right p.popupScale_pos).trans Int.cast_pos
    case vertical => exact (div_pos_iff_of_pos_right p.popupScale_pos).trans (Int.cast_pos.trans p.size_pos.symm)
  rw [hlength, hlength]

-- The placement is one along each axis.
theorem placement_span (p : XdgPositioner) (bounds : RectF) (o : Orientation) :
    (p.placement bounds).span o = (p.along o).placement (bounds.span o) := by
  have hunconstrained : ∀ o', (p.unconstrained.span o').length = (p.along o').length := by
    intro o'
    rw [unconstrained_span, Along.unconstrained, Along.length_popupSpan]
  rw [placement]
  split
  case isTrue h =>
    have hwithin := inBounds_all.mp h o
    rw [unconstrained_span] at hwithin ⊢
    rw [Along.placement_of_fits hwithin]
  case isFalse =>
    have hh : (p.adjust bounds .horizontal p.unconstrained).span .horizontal =
        (p.along .horizontal).placement (bounds.span .horizontal) := by
      refine adjust_span rfl fun o' => ?_
      rw [hunconstrained, hunconstrained, p.length_pos]
    have hv : (p.adjust bounds .horizontal p.unconstrained).span .vertical = p.unconstrained.span .vertical :=
      adjust_span_ne (by decide)
    cases o
    case horizontal => rw [adjust_span_ne (by decide), hh]
    case vertical =>
      refine adjust_span hv fun o' => ?_
      cases o'
      case horizontal => rw [hh, hv, Along.length_placement_pos, hunconstrained, p.length_pos]
      case vertical => rfl

-- What holds along one axis, whatever happens along the other one.
structure Adjusted (p : XdgPositioner) (bounds : RectF) (o : Orientation) : Prop where
  independent : ∀ (q : XdgPositioner) (bounds' : RectF), q.along o = p.along o → bounds'.span o = bounds.span o →
    (q.placement bounds').span o = (p.placement bounds).span o
  slide : p.d.slideConstraintAdjustments.has o = true → (p.unconstrained.span o).length ≤ (bounds.span o).length →
    ((p.placement bounds).span o).Within (bounds.span o)
  resize : p.d.resizeConstraintAdjustments.has o = true → (p.unconstrained.span o).Overlaps (bounds.span o) ∨
    ((p.slide bounds o (p.flip bounds o p.unconstrained)).span o).Overlaps (bounds.span o) →
      ((p.placement bounds).span o).Within (bounds.span o)
  flip : (∀ q : XdgPositioner, q.along o = { p.along o with flip := false } →
      (q.placement bounds).span o = (p.placement bounds).span o) ∨
    p.d.flipConstraintAdjustments.has o = true ∧ ¬(p.unconstrained.span o).Within (bounds.span o) ∧
      ((p.flippedPopupRect o).span o).Within (bounds.span o) ∧
        (p.placement bounds).span o = (p.flippedPopupRect o).span o
  length : p.d.resizeConstraintAdjustments.has o = false →
    ((p.placement bounds).span o).length = (p.unconstrained.span o).length

theorem placement_spec (p : XdgPositioner) (bounds : RectF) :
    (inBounds bounds p.unconstrained .all = true → p.placement bounds = p.unconstrained) ∧
      ∀ o, p.Adjusted bounds o := by
  refine ⟨fun h => if_pos h, fun o => ?_⟩
  have hslid : (p.slide bounds o (p.flip bounds o p.unconstrained)).span o = (p.along o).slidIn (bounds.span o) := by
    rw [slide_span, flip_span rfl, Along.slidIn]
  constructor
  case independent =>
    intro q bounds' hq hb
    rw [placement_span, placement_span, hq, hb]
  case slide =>
    intro hs hl
    rw [unconstrained_span, Along.unconstrained, Along.length_popupSpan] at hl
    rw [placement_span]
    exact Along.slid_within hs hl
  case resize =>
    intro hr ho
    rw [unconstrained_span, hslid] at ho
    rw [placement_span]
    rcases ho with ho | ho
    · exact (Along.slidIn_overlaps ho).elim (Along.resized_within hr) id
    · exact Along.resized_within hr ho
  case flip =>
    refine (Along.placement_flip (a := p.along o) (bounds.span o)).imp (fun h q hq => ?_) fun ⟨hf, hn, hw, heq⟩ => ?_
    · rw [placement_span, placement_span, hq, h]
    · rw [placement_span, unconstrained_span, flippedPopupRect_span]
      exact ⟨hf, hn, hw, heq⟩
  case length =>
    intro hr
    rw [placement_span, unconstrained_span, Along.unconstrained, Along.length_popupSpan]
    exact Along.length_placement hr

end XdgPositioner

end KWin
