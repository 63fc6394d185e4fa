import PlasmaModel.Region.Theorems.FromRects

namespace KWin

structure Margins.Nonneg (margins : Margins) : Prop where
  left   : 0 ≤ margins.left
  top    : 0 ≤ margins.top
  right  : 0 ≤ margins.right
  bottom : 0 ≤ margins.bottom

namespace Region

-- A map of rectangles that moves each of their edges on its own, and keeps these in order.
structure EdgeMap where
  left   : Int → Int
  top    : Int → Int
  right  : Int → Int
  bottom : Int → Int
  left_mono   : Monotone left
  top_mono    : Monotone top
  right_mono  : Monotone right
  bottom_mono : Monotone bottom
  wide : ∀ x y, x < y → left x < right y
  tall : ∀ x y, x < y → top x < bottom y

namespace EdgeMap

def apply (e : EdgeMap) (rect : Rect) : Rect :=
  ⟨e.left rect.left, e.top rect.top, e.right rect.right, e.bottom rect.bottom⟩

variable {e : EdgeMap} {rects : List Rect} {rect bounds : Rect}

theorem nonempty (e : EdgeMap) (h : rect.isEmpty = false) : (e.apply rect).isEmpty = false := by
  rw [Rect.isEmpty_false_iff] at *
  exact ⟨e.wide _ _ h.1, e.tall _ _ h.2⟩

theorem all_nonempty (e : EdgeMap) (h : ∀ r ∈ rects, r.isEmpty = false) :
    ∀ r ∈ rects.map e.apply, r.isEmpty = false := by
  simpa using fun r hr => e.nonempty (h r hr)

theorem isBoundingRect (e : EdgeMap) (h : IsBoundingRect rects bounds) :
    IsBoundingRect (rects.map e.apply) (e.apply bounds) where
  bounded r hr := by
    have ⟨a, ha, heq⟩ := List.mem_map.mp hr
    have ⟨hl, ht, hr, hb⟩ := h.bounded a ha
    exact heq ▸ ⟨e.left_mono hl, e.top_mono ht, e.right_mono hr, e.bottom_mono hb⟩
  left   := have ⟨a, ha, heq⟩ := h.left;   ⟨e.apply a, List.mem_map_of_mem ha, congrArg e.left heq⟩
  top    := have ⟨a, ha, heq⟩ := h.top;    ⟨e.apply a, List.mem_map_of_mem ha, congrArg e.top heq⟩
  right  := have ⟨a, ha, heq⟩ := h.right;  ⟨e.apply a, List.mem_map_of_mem ha, congrArg e.right heq⟩
  bottom := have ⟨a, ha, heq⟩ := h.bottom; ⟨e.apply a, List.mem_map_of_mem ha, congrArg e.bottom heq⟩

end EdgeMap

variable {r g : Region} {rects out : List Rect} {rect bounds : Rect} {p : Point} {margins : Margins}
variable {xScale yScale : ℚ}

theorem banded_singleton (h : rect.isEmpty = false) : Banded [rect] :=
  rects_ofRect h ▸ ((wellFormed_ofRect rect).canonical h).banded

-- A canonical list is a single rectangle if and only if that one is the bounding rectangle.
theorem Banded.single_iff (b : Banded rects) (hb : IsBoundingRect rects bounds) :
    rects.length = 1 ↔ ∀ p ∈ bounds, Drawn rects p := by
  constructor
  case mp =>
    intro h p hp
    have ⟨rect, hrect⟩ := List.length_eq_one_iff.mp h
    subst hrect
    exact ⟨rect, by simp, hb.unique (IsBoundingRect.singleton rect) ▸ hp⟩
  case mpr =>
    intro h
    have hn := hb.isEmpty_eq_false b.nonempty
    have hin := ((isBoundingRect_iff b.nonempty).mp hb).1
    rw [b.eq_of_covered (banded_singleton hn) fun p => ⟨fun hp => ⟨bounds, by simp, hin p hp⟩, fun ⟨c, hc, hp⟩ => ?_⟩]
    · rfl
    · exact h p (List.mem_singleton.mp hc ▸ hp)

-- The swept rectangles are always stored in `mRects`, also when there is only one.
theorem remapped_draws (e : EdgeMap) (c : r.Canonical) (hm : r.mRects.isEmpty = false) :
    ∃ g, remapped e.apply r = some g ∧ (∀ p, p ∈ g ↔ Drawn (r.mRects.map e.apply) p) ∧
      (g.WellFormed ↔ ∃ p ∈ e.apply r.mBounds, ¬Drawn (r.mRects.map e.apply) p) := by
  have hb := c.bounds
  have hbanded := c.banded
  rw [c.rects_eq hm] at hb hbanded
  have hn := e.all_nonempty hbanded.nonempty
  have hsorted : (r.mRects.map e.apply).Pairwise fun a b => a.top ≤ b.top :=
    List.pairwise_map.mpr (hbanded.sorted.imp fun h => e.top_mono (by omega))
  obtain ⟨out, hout, hbout, hdrawn⟩ := assignRectsSortedByY_banded (by simpa using hm) hn hsorted
  have hbounds : IsBoundingRect out (e.apply r.mBounds) :=
    (e.isBoundingRect hb).congr hn hbout.nonempty fun p => (hdrawn p).symm
  have hne : isEmpty { mBounds := e.apply r.mBounds, mRects := out } = false := hbounds.isEmpty_eq_false hbout.nonempty
  have hrects : rects { mBounds := e.apply r.mBounds, mRects := out } = out := by
    obtain ⟨a, ha, _⟩ := hbounds.left
    simp [rects, hne, List.ne_nil_of_mem ha]
  refine ⟨_, by rw [remapped, hout, Option.map_some], fun p => ?_, ?_⟩
  · rw [mem_iff, hrects, ← hdrawn, Drawn]
  · have hsingle := hbout.single_iff hbounds
    simp only [hdrawn] at hsingle
    constructor
    case mp =>
      intro hw
      simpa using fun hall => (hw.canonical hne).notSingle (hsingle.mpr hall)
    case mpr =>
      rintro ⟨p, hp, hnot⟩
      exact (wellFormed_of_banded hbout hbounds fun h => hnot (hsingle.mp h p hp)).1

-- Some point of the region lies within the margins of `p`.
def Dilated (r : Region) (margins : Margins) (p : Point) : Prop :=
  ∃ q ∈ r, (q.x - margins.left ≤ p.x ∧ p.x ≤ q.x + margins.right) ∧
    (q.y - margins.top ≤ p.y ∧ p.y ≤ q.y + margins.bottom)

def growth (margins : Margins) (h : margins.Nonneg) : EdgeMap where
  left x   := x - margins.left
  top y    := y - margins.top
  right x  := x + margins.right
  bottom y := y + margins.bottom
  left_mono _ _ h   := Int.sub_le_sub_right h _
  top_mono _ _ h    := Int.sub_le_sub_right h _
  right_mono _ _ h  := Int.add_le_add_right h _
  bottom_mono _ _ h := Int.add_le_add_right h _
  wide _ _ hlt := by have := h.left; have := h.right; omega
  tall _ _ hlt := by have := h.top; have := h.bottom; omega

theorem mem_grownBy_iff (hn : rect.isEmpty = false) (h : margins.Nonneg) :
    p ∈ rect.grownBy margins ↔
      ∃ q ∈ rect, (q.x - margins.left ≤ p.x ∧ p.x ≤ q.x + margins.right) ∧
        (q.y - margins.top ≤ p.y ∧ p.y ≤ q.y + margins.bottom) := by
  have := Rect.isEmpty_false_iff.mp hn
  have ⟨_, _, _, _⟩ := h
  simp only [Rect.mem_iff, Rect.grownBy]
  constructor
  case mp =>
    intro hp
    -- The point of the rectangle which is nearest to `p`.
    refine ⟨⟨max rect.left (min p.x (rect.right - 1)), max rect.top (min p.y (rect.bottom - 1))⟩, ?_, ?_⟩
    all_goals simp only; omega
  case mpr =>
    intro ⟨q, hq⟩
    omega

theorem dilated_iff (hn : ∀ rect ∈ r.rects, rect.isEmpty = false) (h : margins.Nonneg) :
    r.Dilated margins p ↔ Drawn (r.rects.map (·.grownBy margins)) p := by
  simp only [Dilated, mem_iff, Drawn, List.mem_map]
  constructor
  case mp =>
    rintro ⟨q, ⟨rect, hrect, hq⟩, hp⟩
    exact ⟨_, ⟨rect, hrect, rfl⟩, (mem_grownBy_iff (hn rect hrect) h).mpr ⟨q, hq, hp⟩⟩
  case mpr =>
    rintro ⟨_, ⟨rect, hrect, heq⟩, hp⟩
    obtain ⟨q, hq, hp⟩ := (mem_grownBy_iff (hn rect hrect) h).mp (heq ▸ hp)
    exact ⟨q, ⟨rect, hrect, hq⟩, hp⟩

theorem grownBy_draws (c : r.Canonical) (h : margins.Nonneg) :
    ∃ g, r.grownBy margins = some g ∧ (∀ p, p ∈ g ↔ r.Dilated margins p) ∧
      (g.WellFormed ↔ r.mRects = [] ∨ ∃ p ∈ r.mBounds.grownBy margins, ¬r.Dilated margins p) := by
  simp only [dilated_iff c.banded.nonempty h]
  rw [grownBy]
  split
  case isTrue hm =>
    rw [c.rects_single hm]
    refine ⟨_, rfl, fun p => mem_ofRect.trans (by simp [Drawn]), iff_of_true (wellFormed_ofRect _) (.inl ?_)⟩
    exact List.isEmpty_iff.mp hm
  case isFalse hm =>
    rw [Bool.not_eq_true] at hm
    rw [c.rects_eq hm]
    obtain ⟨g, hg, hp, hw⟩ := remapped_draws (growth margins h) c hm
    exact ⟨g, hg, hp, hw.trans (or_iff_right (by simpa using hm)).symm⟩

-- Two rectangles that one more column joins.
def joined : Region :=
  { mBounds := ⟨0, 0, 20, 10⟩, mRects := [⟨0, 0, 10, 10⟩, ⟨11, 0, 20, 10⟩] }

theorem grownBy_not_dilated :
    ¬∀ (r : Region) (margins : Margins), r.WellFormed → margins.Nonneg →
      ∃ g, r.grownBy margins = some g ∧ g.WellFormed ∧ ∀ p, p ∈ g ↔ r.Dilated margins p := by
  intro h
  have ⟨g, hg, _, hp⟩ := h {} ⟨1, 2, 3, 4⟩ wellFormed_empty (by constructor <;> decide)
  obtain rfl : ofRect ⟨-1, -2, 3, 4⟩ = g := Option.some.inj hg
  have ⟨q, hq, _⟩ := (hp ⟨0, 0⟩).mp (mem_ofRect.mpr (Rect.mem_iff.mpr (by decide)))
  exact not_mem_empty hq

theorem grownBy_dilates (hr : r.WellFormed) (h : margins.Nonneg) :
    (r.isEmpty → r.mRects = [] → r.grownBy margins = some (ofRect (r.mBounds.grownBy margins))) ∧
    (r.isEmpty = false → ∃ g, r.grownBy margins = some g ∧ (∀ p, p ∈ g ↔ r.Dilated margins p) ∧
      (r.mRects = [] ∨ (∃ p ∈ r.mBounds.grownBy margins, ¬r.Dilated margins p) → g.WellFormed)) where
  left _ hm := by simp [grownBy, hm]
  right he :=
    have ⟨g, hg, hp, hw⟩ := grownBy_draws (hr.canonical he) h
    ⟨g, hg, hp, hw.mpr⟩

theorem grownBy_dilates_joined :
    ∃ g, joined.grownBy ⟨0, 1, 0, 1⟩ = some g ∧ ∀ p, p ∈ g ↔ joined.Dilated ⟨0, 1, 0, 1⟩ p :=
  have ⟨g, hg, hp, _⟩ := (grownBy_dilates (r := joined) (by decide) (by constructor <;> decide)).2 (by decide)
  ⟨g, hg, hp⟩

-- The cell of the pixel `p` has a point which the factors take back to the region.
def Met (r : Region) (xScale yScale : ℚ) (p : Point) : Prop :=
  ∃ q : PointF, (p.x ≤ q.x ∧ q.x < p.x + 1) ∧ (p.y ≤ q.y ∧ q.y < p.y + 1) ∧
    (⟨⌊q.x / xScale⌋, ⌊q.y / yScale⌋⟩ : Point) ∈ r

-- Rounding an interval out yields the cells which the interval meets.
theorem roundedOut_iff {scale : ℚ} {a b x : Int} (hs : 0 < scale) (hab : a < b) :
    (⌊a * scale⌋ ≤ x ∧ x < ⌈b * scale⌉) ↔ ∃ q : ℚ, (x ≤ q ∧ q < x + 1) ∧ a ≤ ⌊q / scale⌋ ∧ ⌊q / scale⌋ < b := by
  have hlt : a * scale < b * scale := mul_lt_mul_of_pos_right (Int.cast_lt.mpr hab) hs
  simp only [Int.le_floor, Int.floor_lt, le_div_iff₀ hs, div_lt_iff₀ hs, Int.lt_ceil]
  constructor
  case mp =>
    intro ⟨hl, hr⟩
    have hl : a * scale < x + 1 := by simpa using Int.floor_lt.mp (Int.lt_add_one_of_le hl)
    exact ⟨max x (a * scale), ⟨le_max_left _ _, max_lt (lt_add_one _) hl⟩, le_max_right _ _, max_lt hr hlt⟩
  case mpr =>
    intro ⟨q, ⟨hx, hx'⟩, ha, hb⟩
    refine ⟨Int.lt_add_one_iff.mp (Int.floor_lt.mpr ?_), hx.trans_lt hb⟩
    push_cast
    exact ha.trans_lt hx'

theorem mem_scaledAndRoundedOut_iff (hx : 0 < xScale) (hy : 0 < yScale) (hn : rect.isEmpty = false) :
    p ∈ (rect.scaled xScale yScale).roundedOut ↔
      ∃ q : PointF, (p.x ≤ q.x ∧ q.x < p.x + 1) ∧ (p.y ≤ q.y ∧ q.y < p.y + 1) ∧
        (⟨⌊q.x / xScale⌋, ⌊q.y / yScale⌋⟩ : Point) ∈ rect := by
  have hn := Rect.isEmpty_false_iff.mp hn
  simp only [Rect.mem_iff, RectF.roundedOut, Rect.scaled, roundedOut_iff hx hn.1, roundedOut_iff hy hn.2]
  constructor
  case mp => exact fun ⟨⟨x, hx, hx'⟩, y, hy, hy'⟩ => ⟨⟨x, y⟩, hx, hy, hx', hy'⟩
  case mpr => exact fun ⟨q, hx, hy, hx', hy'⟩ => ⟨⟨q.x, hx, hx'⟩, q.y, hy, hy'⟩

theorem met_iff (hx : 0 < xScale) (hy : 0 < yScale) (hn : ∀ rect ∈ r.rects, rect.isEmpty = false) :
    r.Met xScale yScale p ↔ Drawn (r.rects.map fun rect => (rect.scaled xScale yScale).roundedOut) p := by
  simp only [Met, mem_iff, Drawn, List.mem_map]
  constructor
  case mp =>
    rintro ⟨q, hpx, hpy, rect, hrect, hq⟩
    exact ⟨_, ⟨rect, hrect, rfl⟩, (mem_scaledAndRoundedOut_iff hx hy (hn rect hrect)).mpr ⟨q, hpx, hpy, hq⟩⟩
  case mpr =>
    rintro ⟨_, ⟨rect, hrect, heq⟩, hp⟩
    obtain ⟨q, hpx, hpy, hq⟩ := (mem_scaledAndRoundedOut_iff hx hy (hn rect hrect)).mp (heq ▸ hp)
    exact ⟨q, hpx, hpy, rect, hrect, hq⟩

theorem met_one : r.Met 1 1 p ↔ p ∈ r := by
  simp only [Met, div_one]
  constructor
  case mp =>
    intro ⟨q, hx, hy, hq⟩
    rwa [Int.floor_eq_iff.mpr hx, Int.floor_eq_iff.mpr hy] at hq
  case mpr =>
    intro hp
    exact ⟨⟨p.x, p.y⟩, ⟨le_rfl, lt_add_one _⟩, ⟨le_rfl, lt_add_one _⟩, by simpa using hp⟩

def scaling (xScale yScale : ℚ) (hx : 0 < xScale) (hy : 0 < yScale) : EdgeMap where
  left x   := ⌊x * xScale⌋
  top y    := ⌊y * yScale⌋
  right x  := ⌈x * xScale⌉
  bottom y := ⌈y * yScale⌉
  left_mono _ _ h   := Int.floor_mono (mul_le_mul_of_nonneg_right (Int.cast_le.mpr h) hx.le)
  top_mono _ _ h    := Int.floor_mono (mul_le_mul_of_nonneg_right (Int.cast_le.mpr h) hy.le)
  right_mono _ _ h  := Int.ceil_mono (mul_le_mul_of_nonneg_right (Int.cast_le.mpr h) hx.le)
  bottom_mono _ _ h := Int.ceil_mono (mul_le_mul_of_nonneg_right (Int.cast_le.mpr h) hy.le)
  wide _ _ h := Int.floor_lt.mpr ((mul_lt_mul_of_pos_right (Int.cast_lt.mpr h) hx).trans_le (Int.le_ceil _))
  tall _ _ h := Int.floor_lt.mpr ((mul_lt_mul_of_pos_right (Int.cast_lt.mpr h) hy).trans_le (Int.le_ceil _))

theorem scaledAndRoundedOut_draws (hr : r.WellFormed) (hx : 0 < xScale) (hy : 0 < yScale) (hinf : r ≠ infinite) :
    ∃ g, r.scaledAndRoundedOut xScale yScale = some g ∧ (∀ p, p ∈ g ↔ r.Met xScale yScale p) ∧
      (g.WellFormed ↔ r.isEmpty ∨ r.mRects = [] ∨ (xScale = 1 ∧ yScale = 1) ∨
        ∃ p ∈ (r.mBounds.scaled xScale yScale).roundedOut, ¬r.Met xScale yScale p) := by
  rw [scaledAndRoundedOut, if_neg hinf]
  split
  case isTrue he =>
    have hmet : ∀ p, ¬r.Met xScale yScale p := by
      rintro p ⟨q, _, _, hq⟩
      exact not_mem_of_isEmpty he hq
    exact ⟨{}, rfl, fun p => iff_of_false not_mem_empty (hmet p), iff_of_true wellFormed_empty (.inl he)⟩
  case isFalse he =>
    have c := hr.canonical (by simpa using he)
    split
    case isTrue hm =>
      refine ⟨_, rfl, fun p => ?_, iff_of_true (wellFormed_ofRect _) (.inr (.inl (List.isEmpty_iff.mp hm)))⟩
      rw [mem_ofRect, met_iff hx hy c.banded.nonempty, c.rects_single hm]
      simp [Drawn]
    case isFalse hm =>
      rw [Bool.not_eq_true] at hm
      split
      case isTrue hone =>
        obtain ⟨rfl, rfl⟩ := hone
        exact ⟨r, rfl, fun p => met_one.symm, iff_of_true hr (.inr (.inr (.inl ⟨rfl, rfl⟩)))⟩
      case isFalse hone =>
        obtain ⟨g, hg, hp, hw⟩ := remapped_draws (scaling xScale yScale hx hy) c hm
        have hmet p : r.Met xScale yScale p ↔ Drawn (r.mRects.map (scaling xScale yScale hx hy).apply) p := by
          rw [met_iff hx hy c.banded.nonempty, c.rects_eq hm]
          rfl
        refine ⟨g, hg, fun p => (hp p).trans (hmet p).symm, ?_⟩
        rw [hw, or_iff_right he, or_iff_right (by simpa using hm), or_iff_right hone]
        simp only [hmet]
        rfl

theorem scaledAndRoundedOut_correct_iff (hr : r.WellFormed) (hx : 0 < xScale) (hy : 0 < yScale) :
    (∃ g, r.scaledAndRoundedOut xScale yScale = some g ∧ g.WellFormed ∧ (r = infinite → g = r) ∧
      (r ≠ infinite → ∀ p, p ∈ g ↔ r.Met xScale yScale p)) ↔
    r.isEmpty ∨ r.mRects = [] ∨ (xScale = 1 ∧ yScale = 1) ∨
      ∃ p ∈ (r.mBounds.scaled xScale yScale).roundedOut, ¬r.Met xScale yScale p := by
  by_cases hinf : r = infinite
  case pos =>
    have hself : r.scaledAndRoundedOut xScale yScale = some r := if_pos hinf
    exact iff_of_true ⟨r, hself, hr, fun _ => rfl, fun h => absurd hinf h⟩ (.inr (.inl (hinf ▸ rfl)))
  case neg =>
    have ⟨g, hg, hp, hw⟩ := scaledAndRoundedOut_draws hr hx hy hinf
    rw [← hw]
    constructor
    case mp =>
      intro ⟨g', hg', hw', _⟩
      exact Option.some.inj (hg.symm.trans hg') ▸ hw'
    case mpr => exact fun hw => ⟨g, hg, hw, fun h => absurd h hinf, fun _ => hp⟩

theorem scaledAndRoundedOut_correct_iff_joined :
    (∃ g, joined.scaledAndRoundedOut 2 1 = some g ∧ g.WellFormed ∧ (joined = infinite → g = joined) ∧
      (joined ≠ infinite → ∀ p, p ∈ g ↔ joined.Met 2 1 p)) ↔
    joined.isEmpty ∨ joined.mRects = [] ∨ ((2 : ℚ) = 1 ∧ (1 : ℚ) = 1) ∨
      ∃ p ∈ (joined.mBounds.scaled 2 1).roundedOut, ¬joined.Met 2 1 p :=
  scaledAndRoundedOut_correct_iff (by decide) (by norm_num) (by norm_num)

-- At half the width, the column between the two rectangles vanishes.
theorem scaledAndRoundedOut_not_wellFormed :
    ¬∀ (r : Region) (xScale yScale : ℚ), r.WellFormed → 0 < xScale → 0 < yScale →
      ∃ g, r.scaledAndRoundedOut xScale yScale = some g ∧ g.WellFormed ∧ (r = infinite → g = r) ∧
        (r ≠ infinite → ∀ p, p ∈ g ↔ r.Met xScale yScale p) := by
  intro h
  have ⟨g, hg, hw, _⟩ := h joined (1 / 2) 1 (by decide) (by norm_num) (by norm_num)
  have hjoined : joined.scaledAndRoundedOut (1 / 2) 1 =
      some { mBounds := ⟨0, 0, 10, 10⟩, mRects := [⟨0, 0, 10, 10⟩] } := by
    decide +kernel
  cases Option.some.inj (hjoined.symm.trans hg)
  exact absurd hw (by decide)

end Region
end KWin
