import Mathlib.Tactic.Positivity
import PlasmaModel.Region.Theorems.Transformed
import PlasmaModel.Scene.SurfaceItem

namespace KWin

-- The cell of the integer grid that `x` is in. A grid line belongs to the cell on the side of zero.
def cellOf (x : ℚ) : Int :=
  if 0 < x then ⌈x⌉ - 1 else ⌊x⌋

variable {x v : ℚ} {a b : Int}

theorem le_cellOf (h : a < x) : a ≤ cellOf x := by
  unfold cellOf
  split_ifs
  · exact Int.le_sub_one_of_lt (Int.lt_ceil.mpr h)
  · exact Int.le_floor.mpr h.le

theorem cellOf_lt (h : x < b) : cellOf x < b := by
  unfold cellOf
  split_ifs
  · exact Int.sub_one_lt_of_le (Int.ceil_le.mpr h.le)
  · exact Int.floor_lt.mpr h

theorem roundAway_lt_of_nonpos (h : x ≤ 0) : roundAway x < x + 1 / 2 := by
  unfold roundAway
  split_ifs with h'
  · obtain rfl := le_antisymm h h'
    norm_num
  · have := Int.ceil_lt_add_one (x - 1 / 2)
    linarith

theorem lt_roundAway_of_nonneg (h : 0 ≤ x) : x - 1 / 2 < roundAway x := by
  rw [roundAway, if_pos h]
  have := Int.lt_floor_add_one (x + 1 / 2)
  linarith

theorem roundAway_lt_of_le_cellOf (hv : 0 < v) (h : a ≤ cellOf x) : roundAway (a * v) < x * v + 1 / 2 := by
  unfold cellOf at h
  split_ifs at h with hx
  · have ha : (a : ℚ) < x := Int.lt_ceil.mp (Int.lt_of_le_sub_one h)
    have := mul_lt_mul_of_pos_right ha hv
    have := roundAway_le (a * v)
    linarith
  · have ha : (a : ℚ) ≤ x := Int.le_floor.mp h
    have hav := mul_le_mul_of_nonneg_right ha hv.le
    have := roundAway_lt_of_nonpos (mul_nonpos_of_nonpos_of_nonneg (ha.trans (not_lt.mp hx)) hv.le)
    linarith

theorem lt_roundAway_of_cellOf_lt (hv : 0 < v) (h : cellOf x < b) : x * v - 1 / 2 < roundAway (b * v) := by
  unfold cellOf at h
  split_ifs at h with hx
  · have hb : x ≤ (b : ℚ) := Int.ceil_le.mp (Int.le_of_sub_one_lt h)
    have := mul_le_mul_of_nonneg_right hb hv.le
    have := lt_roundAway_of_nonneg (mul_nonneg (hx.le.trans hb) hv.le)
    linarith
  · have hb : x < (b : ℚ) := Int.floor_lt.mp h
    have := mul_lt_mul_of_pos_right hb hv
    have := le_roundAway (b * v)
    linarith

namespace Scene

-- How much of a texel there is in a sample at `x`.
def bilinearWeight (x : ℚ) (texel : Int) : ℚ :=
  max 0 (1 - |x - (texel + 1 / 2)|)

def InFootprint (sample : PointF) (texel : Point) : Prop :=
  0 < bilinearWeight sample.x texel.x * bilinearWeight sample.y texel.y

theorem near_of_bilinearWeight_ne_zero (h : bilinearWeight x a ≠ 0) : a - 1 / 2 < x ∧ x < a + 1 + 1 / 2 := by
  have hpos : 0 < 1 - |x - (a + 1 / 2)| := by
    by_contra hle
    exact h (max_eq_left (not_lt.mp hle))
  have ⟨hlo, hhi⟩ := abs_lt.mp (sub_pos.mp hpos)
  constructor <;> linarith

theorem near_of_inFootprint {sample : PointF} {texel : Point} (h : InFootprint sample texel) :
    (texel.x - 1 / 2 < sample.x ∧ sample.x < texel.x + 1 + 1 / 2) ∧
      (texel.y - 1 / 2 < sample.y ∧ sample.y < texel.y + 1 + 1 / 2) :=
  ⟨near_of_bilinearWeight_ne_zero (left_ne_zero_of_mul h.ne'),
    near_of_bilinearWeight_ne_zero (right_ne_zero_of_mul h.ne')⟩

namespace SurfaceItem

variable {item : SurfaceItem} {view : Scene.RenderView} {region : Region} {rect : Rect} {p q : Point} {point : PointF}

-- Where the item is on the pixel grid of the view.
def snappedPosition (item : SurfaceItem) (scale : ℚ) : PointF where
  x := (item.positions.map fun position => (roundAway (position.x * scale) : ℚ)).sum
  y := (item.positions.map fun position => (roundAway (position.y * scale) : ℚ)).sum

-- Where the centre of a device pixel is in the item.
def mapFromDevice (item : SurfaceItem) (view : Scene.RenderView) (p : Point) : PointF :=
  let position := item.snappedPosition view.scale
  ⟨(p.x + 1 / 2 - view.renderOffset.x - position.x) / view.scale + view.viewport.left,
    (p.y + 1 / 2 - view.renderOffset.y - position.y) / view.scale + view.viewport.top⟩

theorem foldl_translated {r : RectF} (scale : ℚ) :
    item.positions.foldl (fun snapped position =>
        snapped.translated ⟨roundAway (position.x * scale), roundAway (position.y * scale)⟩) r =
      r.translated (item.snappedPosition scale) := by
  unfold snappedPosition
  induction item.positions generalizing r
  case nil => simp [RectF.translated]
  case cons position positions ih =>
    rw [List.foldl_cons, ih]
    simp [RectF.translated, add_assoc]

-- The device rectangle of a logical one has every pixel whose centre is in one of its cells.
theorem mem_paintedDeviceArea (hv : 0 < view.scale) (hp : p ∈ view.deviceRect)
    (h : (⟨cellOf (item.mapFromDevice view p).x, cellOf (item.mapFromDevice view p).y⟩ : Point) ∈ rect) :
    p ∈ item.paintedDeviceArea view rect := by
  have ⟨⟨hl, hr⟩, ht, hb⟩ := Rect.mem_iff.mp h
  have hleft := roundAway_lt_of_le_cellOf hv hl
  have hright := lt_roundAway_of_cellOf_lt hv hr
  have htop := roundAway_lt_of_le_cellOf hv ht
  have hbottom := lt_roundAway_of_cellOf_lt hv hb
  have hx : (item.mapFromDevice view p).x * view.scale =
      p.x + 1 / 2 - view.renderOffset.x - (item.snappedPosition view.scale).x + view.viewport.left * view.scale := by
    simp only [mapFromDevice]
    field_simp
  have hy : (item.mapFromDevice view p).y * view.scale =
      p.y + 1 / 2 - view.renderOffset.y - (item.snappedPosition view.scale).y + view.viewport.top * view.scale := by
    simp only [mapFromDevice]
    field_simp
  rw [hx] at hleft hright
  rw [hy] at htop hbottom
  refine Rect.mem_intersected.mpr ⟨Rect.mem_iff.mpr ?_, hp⟩
  rw [foldl_translated]
  simp only [RenderView.mapToDeviceCoordinatesAligned, RenderView.mapToDeviceCoordinates,
    RectF.roundedOut, RectF.translated, RectF.scaled, RectF.rounded, Rect.scaled, Rect.toRectF, Int.floor_le_iff,
    Int.lt_ceil]
  have hs (y w : ℚ) : (y * (1 / view.scale) + -w) * view.scale = y - w * view.scale := by
    field_simp
    ring
  simp only [hs]
  refine ⟨⟨?_, ?_⟩, ?_, ?_⟩ <;> linarith

theorem mem_paintedDeviceRegion (hv : 0 < view.scale) (hp : p ∈ view.deviceRect)
    (h : (⟨cellOf (item.mapFromDevice view p).x, cellOf (item.mapFromDevice view p).y⟩ : Point) ∈ region) :
    p ∈ item.paintedDeviceRegion view region := by
  have ⟨rect, hrect, hmem⟩ := Region.mem_iff.mp h
  have hdraws := Region.foldl_ofRect_draws (item.paintedDeviceArea view) region.rects Region.wellFormed_empty
  exact (hdraws.2 p).mpr (.inr ⟨rect, hrect, mem_paintedDeviceArea hv hp hmem⟩)

-- The rectangle of the buffer, in the orientation of the surface.
def surfaceRect (item : SurfaceItem) (rect : Rect) : RectF :=
  item.bufferToSurfaceTransform.mapRectF rect.toRectF item.bufferSize.toSizeF

def logicalRect (item : SurfaceItem) (rect : Rect) : Rect :=
  let xScale := item.destinationSize.width / item.sourceBox.size.width
  let yScale := item.destinationSize.height / item.sourceBox.size.height
  let r := (item.surfaceRect rect).translated ⟨-item.sourceBox.left, -item.sourceBox.top⟩
  RectF.roundedOut ⟨r.left * xScale, r.top * yScale, r.left * xScale + r.size.width * xScale,
    r.top * yScale + r.size.height * yScale⟩

theorem mapFromBuffer_draws (item : SurfaceItem) (region : Region) :
    (item.mapFromBuffer region).Draws fun p => ∃ rect ∈ region.rects, p ∈ item.logicalRect rect :=
  have ⟨hw, hp⟩ := Region.foldl_ofRect_draws item.logicalRect region.rects Region.wellFormed_empty
  ⟨hw, fun p => (hp p).trans (or_iff_right Region.not_mem_empty)⟩

theorem nonempty_of_mem_rects (hr : region.WellFormed) (h : rect ∈ region.rects) : rect.isEmpty = false := by
  cases hr with
  | inl he => simp [Region.rects, he] at h
  | inr c => exact c.banded.nonempty rect h

theorem surfaceRect_lt (h : rect.isEmpty = false) :
    (item.surfaceRect rect).left < (item.surfaceRect rect).right ∧
      (item.surfaceRect rect).top < (item.surfaceRect rect).bottom := by
  have ⟨hx, hy⟩ := Rect.isEmpty_false_iff.mp h
  have hx : (rect.left : ℚ) < rect.right := by exact_mod_cast hx
  have hy : (rect.top : ℚ) < rect.bottom := by exact_mod_cast hy
  cases ht : item.surfaceToBufferTransform
  all_goals
    simp only [surfaceRect, bufferToSurfaceTransform, ht, OutputTransform.inverted, OutputTransform.mapRectF,
      Rect.toRectF]
    constructor <;> linarith

theorem logicalRect_eq :
    item.logicalRect rect =
      ⟨⌊((item.surfaceRect rect).left + -item.sourceBox.left) *
          (item.destinationSize.width / item.sourceBox.size.width)⌋,
        ⌊((item.surfaceRect rect).top + -item.sourceBox.top) *
          (item.destinationSize.height / item.sourceBox.size.height)⌋,
        ⌈((item.surfaceRect rect).right + -item.sourceBox.left) *
          (item.destinationSize.width / item.sourceBox.size.width)⌉,
        ⌈((item.surfaceRect rect).bottom + -item.sourceBox.top) *
          (item.destinationSize.height / item.sourceBox.size.height)⌉⟩ := by
  simp only [logicalRect, RectF.translated, RectF.roundedOut, RectF.size, ← add_mul]
  ring_nf

-- A sample with `q` in its footprint is within half a pixel of every rectangle that has `q`.
theorem near_surfaceRect (hq : q ∈ rect) (h : InFootprint (item.mapToBuffer point) q) :
    ((item.surfaceRect rect).left - 1 / 2 < item.sourceBox.left + point.x * item.xScale ∧
        item.sourceBox.left + point.x * item.xScale < (item.surfaceRect rect).right + 1 / 2) ∧
      ((item.surfaceRect rect).top - 1 / 2 < item.sourceBox.top + point.y * item.yScale ∧
        item.sourceBox.top + point.y * item.yScale < (item.surfaceRect rect).bottom + 1 / 2) := by
  have ⟨⟨hl, hr⟩, ht, hb⟩ := Rect.mem_iff.mp hq
  have ⟨⟨hxl, hxr⟩, hyt, hyb⟩ := near_of_inFootprint h
  have hl : (rect.left : ℚ) ≤ q.x := by exact_mod_cast hl
  have hr : (q.x + 1 : ℚ) ≤ rect.right := by exact_mod_cast hr
  have ht : (rect.top : ℚ) ≤ q.y := by exact_mod_cast ht
  have hb : (q.y + 1 : ℚ) ≤ rect.bottom := by exact_mod_cast hb
  generalize hX : point.x * item.xScale = X at *
  generalize hY : point.y * item.yScale = Y at *
  cases htr : item.surfaceToBufferTransform
  all_goals
    simp only [mapToBuffer, surfaceRect, sourceBox, bufferToSurfaceTransform, htr, hX, hY, OutputTransform.inverted,
      OutputTransform.mapRectF, OutputTransform.mapPointF, Rect.toRectF, RectF.size] at *
    refine ⟨⟨?_, ?_⟩, ?_, ?_⟩ <;> linarith

section

variable {lo hi s k d : ℚ}

-- The padding is at least what half a buffer pixel is in logical ones.
theorem floor_sub_padding_lt (hd : 0 < d) (hk : 0 < k) (hdk : k * d = 1) (h : lo - 1 / 2 < s + x * k) :
    ((⌊(lo + -s) * d⌋ - ⌈1 / 2 / k⌉ : Int) : ℚ) < x := by
  have hfloor := Int.floor_le ((lo + -s) * d)
  have hceil := Int.le_ceil (1 / 2 / k)
  have hpad : 1 / 2 / k = 1 / 2 * d := by
    rw [div_eq_iff hk.ne', mul_assoc, mul_comm d, hdk, mul_one]
  have hx : x * k * d = x := by
    rw [mul_assoc, hdk, mul_one]
  have := mul_lt_mul_of_pos_right h hd
  push_cast
  linarith

theorem lt_ceil_add_padding (hd : 0 < d) (hk : 0 < k) (hdk : k * d = 1) (h : s + x * k < hi + 1 / 2) :
    x < ((⌈(hi + -s) * d⌉ + ⌈1 / 2 / k⌉ : Int) : ℚ) := by
  have hround := Int.le_ceil ((hi + -s) * d)
  have hceil := Int.le_ceil (1 / 2 / k)
  have hpad : 1 / 2 / k = 1 / 2 * d := by
    rw [div_eq_iff hk.ne', mul_assoc, mul_comm d, hdk, mul_one]
  have hx : x * k * d = x := by
    rw [mul_assoc, hdk, mul_one]
  have := mul_lt_mul_of_pos_right h hd
  push_cast
  linarith

end

-- The source box and the destination have an area, so that the item has a scale.
structure Drawable (item : SurfaceItem) : Prop where
  sourceWidth       : 0 < item.sourceBox.size.width
  sourceHeight      : 0 < item.sourceBox.size.height
  destinationWidth  : 0 < item.destinationSize.width
  destinationHeight : 0 < item.destinationSize.height

def padding (item : SurfaceItem) : Margins :=
  ⟨⌈1 / 2 / item.xScale⌉, ⌈1 / 2 / item.yScale⌉, ⌈1 / 2 / item.xScale⌉, ⌈1 / 2 / item.yScale⌉⟩

namespace Drawable

variable (d : item.Drawable)
include d

theorem xScale_pos : 0 < item.xScale :=
  div_pos d.sourceWidth d.destinationWidth

theorem yScale_pos : 0 < item.yScale :=
  div_pos d.sourceHeight d.destinationHeight

theorem xScale_mul : item.xScale * (item.destinationSize.width / item.sourceBox.size.width) = 1 :=
  div_mul_div_cancel₀ d.destinationWidth.ne' |>.trans (div_self d.sourceWidth.ne')

theorem yScale_mul : item.yScale * (item.destinationSize.height / item.sourceBox.size.height) = 1 :=
  div_mul_div_cancel₀ d.destinationHeight.ne' |>.trans (div_self d.sourceHeight.ne')

theorem padding_nonneg : item.padding.Nonneg := by
  have := d.xScale_pos
  have := d.yScale_pos
  constructor <;> exact Int.ceil_nonneg (by positivity)

theorem logicalRect_nonempty (h : rect.isEmpty = false) : (item.logicalRect rect).isEmpty = false := by
  have ⟨hx, hy⟩ := item.surfaceRect_lt h
  have hw := div_pos d.destinationWidth d.sourceWidth
  have hh := div_pos d.destinationHeight d.sourceHeight
  rw [logicalRect_eq]
  refine Rect.isEmpty_false_iff.mpr ⟨?_, ?_⟩
  · have := mul_lt_mul_of_pos_right (add_lt_add_left hx (-item.sourceBox.left)) hw
    exact_mod_cast (Int.floor_le _).trans_lt (this.trans_le (Int.le_ceil _))
  · have := mul_lt_mul_of_pos_right (add_lt_add_left hy (-item.sourceBox.top)) hh
    exact_mod_cast (Int.floor_le _).trans_lt (this.trans_le (Int.le_ceil _))

-- The cell of a sample with `q` in its footprint is within the padding of every rectangle that has `q`.
theorem cell_mem (hq : q ∈ rect) (h : InFootprint (item.mapToBuffer point) q) :
    (⟨cellOf point.x, cellOf point.y⟩ : Point) ∈ (item.logicalRect rect).grownBy item.padding := by
  have ⟨⟨hl, hr⟩, ht, hb⟩ := near_surfaceRect hq h
  have hw := div_pos d.destinationWidth d.sourceWidth
  have hh := div_pos d.destinationHeight d.sourceHeight
  rw [logicalRect_eq]
  refine Rect.mem_iff.mpr ⟨⟨?_, ?_⟩, ?_, ?_⟩
  · exact le_cellOf (floor_sub_padding_lt hw d.xScale_pos d.xScale_mul hl)
  · exact cellOf_lt (lt_ceil_add_padding hw d.xScale_pos d.xScale_mul hr)
  · exact le_cellOf (floor_sub_padding_lt hh d.yScale_pos d.yScale_mul ht)
  · exact cellOf_lt (lt_ceil_add_padding hh d.yScale_pos d.yScale_mul hb)

theorem mapFromBuffer_isEmpty (hr : region.WellFormed) (h : (item.mapFromBuffer region).isEmpty) :
    item.mapFromBuffer region = {} := by
  cases hrects : region.rects
  case nil => rw [mapFromBuffer, hrects]; rfl
  case cons rect rects =>
    have hmem : rect ∈ region.rects := by simp [hrects]
    have hn := nonempty_of_mem_rects hr hmem
    have hcorner := Rect.corner_mem (d.logicalRect_nonempty hn)
    exact absurd (((mapFromBuffer_draws item region).2 _).mpr ⟨rect, hmem, hcorner⟩) (Region.not_mem_of_isEmpty h)

-- What is damaged in the logical grid, with the padding.
theorem padded_draws (hr : region.WellFormed) :
    ∃ g, (item.mapFromBuffer region).grownBy item.padding = some g ∧
      ∀ rect ∈ region.rects, ∀ p ∈ (item.logicalRect rect).grownBy item.padding, p ∈ g := by
  have ⟨hw, hmem⟩ := mapFromBuffer_draws item region
  have hin {rect : Rect} (h : rect ∈ region.rects) : ∀ p ∈ item.logicalRect rect, p ∈ item.mapFromBuffer region :=
    fun p hp => (hmem p).mpr ⟨rect, h, hp⟩
  have hne {rect : Rect} (h : rect ∈ region.rects) := d.logicalRect_nonempty (nonempty_of_mem_rects hr h)
  cases he : (item.mapFromBuffer region).isEmpty
  case true =>
    refine ⟨_, by rw [d.mapFromBuffer_isEmpty hr he]; rfl, fun rect h => ?_⟩
    exact absurd (hin h _ (Rect.corner_mem (hne h))) (Region.not_mem_of_isEmpty he)
  case false =>
    have ⟨g, hg, hdilated, _⟩ := Region.grownBy_draws (hw.canonical he) d.padding_nonneg
    refine ⟨g, hg, fun rect h p hp => (hdilated p).mpr ?_⟩
    have ⟨q, hq, hpq⟩ := (Region.mem_grownBy_iff (hne h) d.padding_nonneg).mp hp
    exact ⟨q, hin h q hq, hpq⟩

end Drawable

-- Every pixel that a damaged buffer pixel contributes to is scheduled.
theorem addDamage_covers (d : item.Drawable) (hv : 0 < view.scale) (hr : region.WellFormed)
    (hs : item.xScale ≠ view.scale ∨ item.yScale ≠ view.scale) :
    ∃ scheduled, item.addDamage view region = some scheduled ∧
      ∀ p ∈ view.deviceRect, ∀ q ∈ region, InFootprint (item.mapToBuffer (item.mapFromDevice view p)) q →
        p ∈ scheduled := by
  have ⟨g, hg, hpadded⟩ := d.padded_draws hr
  refine ⟨item.paintedDeviceRegion view g, ?_, fun p hp q hq hfoot => ?_⟩
  · rw [addDamage, if_pos hs]
    exact congrArg (Option.map (item.paintedDeviceRegion view)) hg
  · have ⟨rect, hrect, hmem⟩ := Region.mem_iff.mp hq
    exact mem_paintedDeviceRegion hv hp (hpadded rect hrect _ (d.cell_mem hmem hfoot))

-- A rotated buffer with two pixels to a logical one, shown with three device pixels to two logical ones.
def rotatedItem : SurfaceItem where
  surfaceToBufferTransform := .rotate90
  bufferSourceBox          := ⟨0, 0, 8, 4⟩
  bufferSize               := ⟨8, 4⟩
  destinationSize          := ⟨2, 4⟩

def fractionalView : Scene.RenderView where
  viewport := ⟨0, 0, 10, 10⟩
  scale    := 3 / 2

theorem addDamage_covers_rotated :
    ∃ scheduled, rotatedItem.addDamage fractionalView (.ofRect ⟨3, 1, 4, 2⟩) = some scheduled ∧
      ∀ p ∈ fractionalView.deviceRect, ∀ q ∈ Region.ofRect ⟨3, 1, 4, 2⟩,
        InFootprint (rotatedItem.mapToBuffer (rotatedItem.mapFromDevice fractionalView p)) q → p ∈ scheduled :=
  addDamage_covers (by constructor <;> decide +kernel) (by decide +kernel) (Region.wellFormed_ofRect _)
    (.inl (by decide +kernel))

end SurfaceItem
end Scene
end KWin
