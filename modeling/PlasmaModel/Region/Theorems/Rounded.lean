import PlasmaModel.Region.Theorems.Queries
import PlasmaModel.Region.Theorems.Transformed

namespace KWin

namespace RegionF

-- The representation of `RegionF` is the one of `Region`, with fractional edges.
def spansAt (rects : List RectF) (y : ℚ) : List (ℚ × ℚ) :=
  (rects.filter (·.top = y)).map fun r => (r.left, r.right)

structure Banded (rects : List RectF) : Prop where
  nonempty   : ∀ r ∈ rects, r.isEmpty = false
  sorted     : rects.Pairwise fun a b => a.top < b.top ∨ (a.top = b.top ∧ a.left < b.left)
  sameBottom : ∀ a ∈ rects, ∀ b ∈ rects, a.top = b.top → a.bottom = b.bottom
  noOverlap  : ∀ a ∈ rects, ∀ b ∈ rects, a.top < b.top → a.bottom ≤ b.top
  gap        : rects.Pairwise fun a b => a.top = b.top → a.right < b.left
  coalesced  : ∀ a ∈ rects, ∀ b ∈ rects, a.bottom = b.top → spansAt rects a.top ≠ spansAt rects b.top

structure IsBoundingRect (rects : List RectF) (bounds : RectF) : Prop where
  bounded : ∀ r ∈ rects, bounds.left ≤ r.left ∧ bounds.top ≤ r.top ∧
              r.right ≤ bounds.right ∧ r.bottom ≤ bounds.bottom
  left    : ∃ r ∈ rects, r.left = bounds.left
  top     : ∃ r ∈ rects, r.top = bounds.top
  right   : ∃ r ∈ rects, r.right = bounds.right
  bottom  : ∃ r ∈ rects, r.bottom = bounds.bottom

structure Canonical (r : RegionF) : Prop where
  notSingle : r.mRects.length ≠ 1
  banded    : Banded r.rects
  bounds    : IsBoundingRect r.rects r.mBounds

def WellFormed (r : RegionF) : Prop :=
  r.isEmpty ∨ r.Canonical

end RegionF

theorem roundAway_mono : Monotone roundAway := by
  intro x y h
  rw [roundAway, roundAway]
  split
  case isTrue hx =>
    rw [if_pos (hx.trans h)]
    exact Int.floor_mono (by linarith)
  case isFalse hx =>
    have hneg : ⌈x - 1 / 2⌉ ≤ 0 := Int.ceil_le.mpr (by push_cast; linarith)
    split
    case isTrue hy => exact hneg.trans (Int.floor_nonneg.mpr (by linarith))
    case isFalse hy => exact Int.ceil_mono (by linarith)

-- How a pair of edges is rounded: a lower edge is never rounded beyond an upper one that is not above it.
structure Rounding where
  lower : ℚ → Int
  upper : ℚ → Int
  lower_mono : Monotone lower
  upper_mono : Monotone upper
  meets : ∀ x y, x ≤ y → upper x ≤ lower y

namespace Rounding

def apply (ρ : Rounding) (r : RectF) : Rect :=
  ⟨ρ.lower r.left, ρ.lower r.top, ρ.upper r.right, ρ.upper r.bottom⟩

def nearest : Rounding where
  lower := roundAway
  upper := roundAway
  lower_mono := roundAway_mono
  upper_mono := roundAway_mono
  meets _ _ h := roundAway_mono h

def inward : Rounding where
  lower x := ⌈x⌉
  upper x := ⌊x⌋
  lower_mono := Int.ceil_mono
  upper_mono := Int.floor_mono
  meets _ y h := (Int.floor_mono h).trans (Int.floor_le_ceil y)

variable {ρ : Rounding} {rects : List RectF} {r : RegionF} {a b : RectF} {p : Point} {y : ℚ}

def roundedRects (ρ : Rounding) (rects : List RectF) : List Rect :=
  (rects.map ρ.apply).filter (!·.isEmpty)

-- The spans which are left of the band at `y`.
def roundedSpans (ρ : Rounding) (rects : List RectF) (y : ℚ) : List (Int × Int) :=
  (ρ.roundedRects (rects.filter (·.top = y))).map fun r => (r.left, r.right)

-- No two of the spans that are left of a band touch.
def KeepsGaps (ρ : Rounding) (rects : List RectF) : Prop :=
  rects.Pairwise fun a b => a.top = b.top → (ρ.apply a).isEmpty = false → (ρ.apply b).isEmpty = false →
    (ρ.apply a).right < (ρ.apply b).left

-- No two of the bands that are left touch and have the same spans.
def KeepsBands (ρ : Rounding) (rects : List RectF) : Prop :=
  ∀ a ∈ rects, ∀ b ∈ rects, (ρ.apply a).isEmpty = false → (ρ.apply b).isEmpty = false →
    (ρ.apply a).bottom = (ρ.apply b).top → ρ.roundedSpans rects a.top ≠ ρ.roundedSpans rects b.top

theorem roundedRects_eq : ρ.roundedRects rects = (rects.filter fun r => !(ρ.apply r).isEmpty).map ρ.apply := by
  rw [roundedRects, List.filter_map]
  rfl

theorem mem_roundedRects {rect : Rect} :
    rect ∈ ρ.roundedRects rects ↔ ∃ a ∈ rects, (ρ.apply a).isEmpty = false ∧ ρ.apply a = rect := by
  simp [roundedRects_eq, and_assoc]

theorem keeps_nil : ρ.KeepsGaps [] ∧ ρ.KeepsBands [] :=
  ⟨.nil, by simp [KeepsBands]⟩

theorem keeps_singleton : ρ.KeepsGaps [a] ∧ ρ.KeepsBands [a] := by
  refine ⟨List.pairwise_singleton _ _, ?_⟩
  simp only [KeepsBands, List.mem_singleton, forall_eq]
  intro hn _ h
  exact absurd h (Rect.isEmpty_false_iff.mp hn).2.ne'

theorem nonempty_of_mem {rect : Rect} (h : rect ∈ ρ.roundedRects rects) : rect.isEmpty = false := by
  simpa [roundedRects] using (List.mem_filter.mp h).2

variable (banded : RegionF.Banded rects)
include banded

-- Bands that are left stay one above the other.
theorem above (ha : a ∈ rects) (hb : b ∈ rects) (hna : (ρ.apply a).isEmpty = false) (h : a.top < b.top) :
    (ρ.apply a).top < (ρ.apply b).top ∧ (ρ.apply a).bottom ≤ (ρ.apply b).top := by
  have hle : (ρ.apply a).bottom ≤ (ρ.apply b).top := ρ.meets _ _ (banded.noOverlap a ha b hb h)
  exact ⟨(Rect.isEmpty_false_iff.mp hna).2.trans_le hle, hle⟩

theorem top_eq_iff (ha : a ∈ rects) (hb : b ∈ rects) (hna : (ρ.apply a).isEmpty = false)
    (hnb : (ρ.apply b).isEmpty = false) : (ρ.apply a).top = (ρ.apply b).top ↔ a.top = b.top := by
  refine ⟨fun h => ?_, fun h => congrArg ρ.lower h⟩
  rcases lt_trichotomy a.top b.top with hlt | heq | hgt
  · exact absurd h (above banded ha hb hna hlt).1.ne
  · exact heq
  · exact absurd h (above banded hb ha hnb hgt).1.ne'

theorem spansAt_roundedRects (ha : a ∈ rects) (hna : (ρ.apply a).isEmpty = false) :
    Region.spansAt (ρ.roundedRects rects) (ρ.apply a).top = ρ.roundedSpans rects a.top := by
  rw [Region.spansAt, roundedSpans, roundedRects_eq, roundedRects_eq, List.filter_map, List.filter_filter,
    List.filter_filter]
  congr 2
  refine List.filter_congr fun b hb => ?_
  cases hnb : (ρ.apply b).isEmpty with
  | true => simp
  | false => simpa using top_eq_iff banded hb ha hnb hna

theorem gap_iff :
    ((ρ.roundedRects rects).Pairwise fun a b => a.top = b.top → a.right < b.left) ↔ ρ.KeepsGaps rects := by
  rw [roundedRects_eq, List.pairwise_map, List.pairwise_filter, KeepsGaps]
  simp only [Bool.not_eq_true']
  constructor
  case mp =>
    intro h
    refine h.imp_of_mem fun ha hb hab ht hna hnb => hab hna hnb ?_
    exact (top_eq_iff banded ha hb hna hnb).mpr ht
  case mpr =>
    intro h
    refine h.imp_of_mem fun ha hb hab hna hnb ht => hab ?_ hna hnb
    exact (top_eq_iff banded ha hb hna hnb).mp ht

theorem coalesced_iff :
    (∀ a ∈ ρ.roundedRects rects, ∀ b ∈ ρ.roundedRects rects, a.bottom = b.top →
      Region.spansAt (ρ.roundedRects rects) a.top ≠ Region.spansAt (ρ.roundedRects rects) b.top) ↔
      ρ.KeepsBands rects := by
  constructor
  case mp =>
    intro h a ha b hb hna hnb ht
    rw [← spansAt_roundedRects banded ha hna, ← spansAt_roundedRects banded hb hnb]
    exact h _ (mem_roundedRects.mpr ⟨a, ha, hna, rfl⟩) _ (mem_roundedRects.mpr ⟨b, hb, hnb, rfl⟩) ht
  case mpr =>
    intro h c hc d hd ht
    obtain ⟨a, ha, hna, rfl⟩ := mem_roundedRects.mp hc
    obtain ⟨b, hb, hnb, rfl⟩ := mem_roundedRects.mp hd
    rw [spansAt_roundedRects banded ha hna, spansAt_roundedRects banded hb hnb]
    exact h a ha b hb hna hnb ht

theorem sorted_roundedRects :
    (ρ.roundedRects rects).Pairwise fun a b => a.top < b.top ∨ (a.top = b.top ∧ a.left < b.left) := by
  rw [roundedRects_eq, List.pairwise_map, List.pairwise_filter]
  refine (banded.sorted.and banded.gap).imp_of_mem fun {a b} ha hb h hna _ => ?_
  have hna : (ρ.apply a).isEmpty = false := by simpa using hna
  cases h.1 with
  | inl hlt => exact .inl (above banded ha hb hna hlt).1
  | inr heq =>
    have hle : (ρ.apply a).right ≤ (ρ.apply b).left := ρ.meets _ _ (h.2 heq.1).le
    exact .inr ⟨congrArg ρ.lower heq.1, (Rect.isEmpty_false_iff.mp hna).1.trans_le hle⟩

theorem banded_roundedRects_iff : Region.Banded (ρ.roundedRects rects) ↔ ρ.KeepsGaps rects ∧ ρ.KeepsBands rects := by
  refine ⟨fun b => ⟨(gap_iff banded).mp b.gap, (coalesced_iff banded).mp b.coalesced⟩, fun ⟨hg, hk⟩ => ?_⟩
  refine ⟨fun _ => nonempty_of_mem, sorted_roundedRects banded, ?_, ?_, (gap_iff banded).mpr hg,
    (coalesced_iff banded).mpr hk⟩
  · intro c hc d hd ht
    obtain ⟨a, ha, hna, rfl⟩ := mem_roundedRects.mp hc
    obtain ⟨b, hb, hnb, rfl⟩ := mem_roundedRects.mp hd
    exact congrArg ρ.upper (banded.sameBottom a ha b hb ((top_eq_iff banded ha hb hna hnb).mp ht))
  · intro c hc d hd ht
    obtain ⟨a, ha, hna, rfl⟩ := mem_roundedRects.mp hc
    obtain ⟨b, hb, hnb, rfl⟩ := mem_roundedRects.mp hd
    rcases lt_trichotomy a.top b.top with hlt | heq | hgt
    · exact (above banded ha hb hna hlt).2
    · exact absurd (congrArg ρ.lower heq) ht.ne
    · exact absurd (above banded hb ha hnb hgt).1 ht.le.not_gt

end Rounding

namespace Region

variable {rects : List Rect} {p : Point}

theorem isBoundingRect_foldl (hn : ∀ r ∈ rects, r.isEmpty = false) (hne : rects ≠ []) :
    IsBoundingRect rects (rects.foldl Rect.united default) := by
  have ⟨rect, rest, hcons⟩ := List.exists_cons_of_ne_nil hne
  subst hcons
  rw [List.foldl_cons, Rect.united, if_pos Rect.default_isEmpty]
  exact isBoundingRect_foldl_united (IsBoundingRect.singleton rect) (by simpa using hn rect (by simp))
    fun c hc => hn c (by simp [hc])

-- The rectangles are stored as they are, whether they are canonical or not.
theorem fromSortedRects_draws (hn : ∀ r ∈ rects, r.isEmpty = false) :
    (∀ p, p ∈ fromSortedRects rects ↔ Drawn rects p) ∧ ((fromSortedRects rects).WellFormed ↔ Banded rects) := by
  unfold fromSortedRects
  split
  case h_1 => exact ⟨fun p => iff_of_false not_mem_empty (by simp [Drawn]), iff_of_true wellFormed_empty (by decide)⟩
  case h_2 rect =>
    refine ⟨fun p => mem_ofRect.trans (by simp [Drawn]), iff_of_true (wellFormed_ofRect rect) ?_⟩
    exact banded_singleton (hn rect (by simp))
  case h_3 hnil hsingle =>
    have hne : rects ≠ [] := hnil
    have hlen : rects.length ≠ 1 := fun h => by
      obtain ⟨rect, hrect⟩ := List.length_eq_one_iff.mp h
      exact hsingle rect hrect
    have hbounds := isBoundingRect_foldl hn hne
    have heq : computeBounds rects = { mBounds := rects.foldl Rect.united default, mRects := rects } := by
      unfold computeBounds
      split
      case h_1 => exact absurd rfl hlen
      case h_2 => rfl
    have he : (computeBounds rects).isEmpty = false := heq ▸ hbounds.isEmpty_eq_false hn
    have hrects : (computeBounds rects).rects = rects := by
      rw [Region.rects, if_neg (by simp [he]), heq]
      simp [hne]
    refine ⟨fun p => by rw [mem_iff, hrects, Drawn], fun hw => hrects ▸ (hw.canonical he).banded, fun hb => ?_⟩
    exact (computeBounds_wellFormed hb).1

theorem equals_iff_of_wellFormed {r other : Region} (hr : r.WellFormed) (ho : other.WellFormed)
    (he : r.isEmpty = false) (he' : other.isEmpty = false) : r.equals other ↔ ∀ p, p ∈ r ↔ p ∈ other := by
  have c := hr.canonical he
  have c' := ho.canonical he'
  exact equals_iff.trans ⟨fun h p => by rw [h], fun h => c.eq_of_rects c' (c.banded.eq_of_covered c'.banded h)⟩

-- The region is canonical, has the points `P`, and its queries are right.
structure Represents (g : Region) (P : Point → Prop) : Prop where
  wellFormed : g.WellFormed
  points     : ∀ p, p ∈ g ↔ P p
  contains   : ∀ q : Rect, q.isEmpty = false → (g.contains q ↔ ∀ p ∈ q, P p)
  intersects : ∀ s : Region, s.WellFormed → (g.intersects s ↔ ∃ p, P p ∧ p ∈ s)
  equals     : ∀ s : Region, s.WellFormed → g.isEmpty = false → s.isEmpty = false → (g.equals s ↔ ∀ p, P p ↔ p ∈ s)

theorem represents_iff {g : Region} {P : Point → Prop} (hp : ∀ p, p ∈ g ↔ P p) : g.Represents P ↔ g.WellFormed where
  mp h := h.wellFormed
  mpr hw := {
    wellFormed := hw
    points := hp
    contains := fun q hq => by simp only [contains_iff hw hq, hp]
    intersects := fun s hs => by simp only [intersects_iff hw hs, hp]
    equals := fun s hs he he' => by simp only [equals_iff_of_wellFormed hw hs he he', hp]
  }

end Region

namespace RegionF

variable {r : RegionF} {ρ : Rounding} {p : Point}

theorem roundedBy_draws (hr : r.WellFormed) :
    (∀ p, p ∈ r.roundedBy ρ.apply ↔ ∃ rect ∈ r.rects, p ∈ ρ.apply rect) ∧
    ((r.roundedBy ρ.apply).WellFormed ↔ ρ.KeepsGaps r.rects ∧ ρ.KeepsBands r.rects) := by
  rw [roundedBy]
  split
  case isTrue he =>
    have hrects : r.rects = [] := if_pos he
    rw [hrects]
    refine ⟨fun p => iff_of_false Region.not_mem_empty (by simp), ?_⟩
    exact iff_of_true Region.wellFormed_empty Rounding.keeps_nil
  case isFalse he =>
    split
    case isTrue hm =>
      have hrects : r.rects = [r.mBounds] := by rw [rects, if_neg he, if_pos hm]
      rw [hrects]
      refine ⟨fun p => Region.mem_ofRect.trans (by simp), ?_⟩
      exact iff_of_true (Region.wellFormed_ofRect _) Rounding.keeps_singleton
    case isFalse hm =>
      have hrects : r.rects = r.mRects := by rw [rects, if_neg he, if_neg hm]
      have hbanded := (hr.resolve_left he).banded
      rw [hrects] at hbanded ⊢
      have ⟨hp, hw⟩ := Region.fromSortedRects_draws fun rect (h : rect ∈ ρ.roundedRects r.mRects) => ρ.nonempty_of_mem h
      rw [← Rounding.banded_roundedRects_iff hbanded]
      refine ⟨fun p => (hp p).trans ?_, hw⟩
      constructor
      case mp =>
        intro ⟨_, hrect, hp⟩
        have ⟨a, ha, _, heq⟩ := Rounding.mem_roundedRects.mp hrect
        exact ⟨a, ha, heq ▸ hp⟩
      case mpr =>
        intro ⟨a, ha, hp⟩
        have hn : (ρ.apply a).isEmpty = false := by
          cases hn : (ρ.apply a).isEmpty with
          | true => exact absurd hp (Rect.isEmpty_iff_forall_not_mem.mp hn p)
          | false => rfl
        exact ⟨_, Rounding.mem_roundedRects.mpr ⟨a, ha, hn, rfl⟩, hp⟩

-- What is rounded inward does not come closer to anything.
theorem keepsGaps_inward (hr : r.WellFormed) : Rounding.inward.KeepsGaps r.rects := by
  cases hr with
  | inl he =>
    have hrects : r.rects = [] := if_pos he
    exact hrects ▸ Rounding.keeps_nil.1
  | inr c =>
    refine c.banded.gap.imp fun {a b} h ht _ _ => ?_
    have hlt : (⌊a.right⌋ : ℚ) < ⌈b.left⌉ := (Int.floor_le _).trans_lt ((h ht).trans_le (Int.le_ceil _))
    exact Int.cast_lt.mp hlt

theorem rounded_represents_iff (hr : r.WellFormed) :
    (r.rounded.Represents (fun p => ∃ rect ∈ r.rects, p ∈ rect.rounded) ↔
      Rounding.nearest.KeepsGaps r.rects ∧ Rounding.nearest.KeepsBands r.rects) ∧
    (r.roundedIn.Represents (fun p => ∃ rect ∈ r.rects, p ∈ rect.roundedIn) ↔ Rounding.inward.KeepsBands r.rects) := by
  have ⟨hp, hw⟩ := roundedBy_draws (ρ := Rounding.nearest) hr
  have ⟨hp', hw'⟩ := roundedBy_draws (ρ := Rounding.inward) hr
  refine ⟨(Region.represents_iff hp).trans hw, (Region.represents_iff hp').trans (hw'.trans ?_)⟩
  exact and_iff_right (keepsGaps_inward hr)

-- Three rectangles in two bands which stay apart.
def steps : RegionF :=
  { mBounds := ⟨0, 0, 5, 3⟩, mRects := [⟨0, 0, 1, 3 / 2⟩, ⟨9 / 4, 0, 5, 3 / 2⟩, ⟨0, 3 / 2, 5, 3⟩] }

theorem rounded_represents_iff_steps :
    steps.rounded.Represents (fun p => ∃ rect ∈ steps.rects, p ∈ rect.rounded) ↔
      Rounding.nearest.KeepsGaps steps.rects ∧ Rounding.nearest.KeepsBands steps.rects :=
  (rounded_represents_iff (.inr ⟨by decide, by constructor <;> decide +kernel, by constructor <;> decide +kernel⟩)).1

-- The gap between two spans closes.
def closing : RegionF :=
  { mBounds := ⟨0, 0, 3, 1⟩, mRects := [⟨0, 0, 1, 1⟩, ⟨7 / 5, 0, 3, 1⟩] }

theorem rounded_not_represents :
    ¬∀ r : RegionF, r.WellFormed →
      r.rounded.Represents (fun p => ∃ rect ∈ r.rects, p ∈ rect.rounded) ∧
      r.roundedIn.Represents fun p => ∃ rect ∈ r.rects, p ∈ rect.roundedIn := by
  intro h
  have hclosing : closing.WellFormed :=
    .inr ⟨by decide, by constructor <;> decide +kernel, by constructor <;> decide +kernel⟩
  have hw := (h closing hclosing).1.wellFormed
  exact absurd hw (by decide +kernel)

end RegionF

end KWin
