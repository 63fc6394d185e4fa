import PlasmaModel.Region.Theorems.Sweep

namespace KWin.Region

open IntervalList

variable {a b r other : Region} {rect bounds b₁ b₂ : Rect} {left right rects l₁ l₂ : List Rect}
variable {p : Point} {scanline : Int} {op : Sweep} {f : Prop → Prop → Prop}

def Drawn (rects : List Rect) (p : Point) : Prop :=
  ∃ r ∈ rects, p ∈ r

theorem leftmost_le {b c : Band} (h : b.Covers x ∨ c.Covers x) : leftmost b.rects c.rects ≤ x := by
  have ⟨r, _, hr, _⟩ := b.exists_cons
  have ⟨q, _, hq, _⟩ := c.exists_cons
  have sb := b.separated
  have sc := c.separated
  simp only [Band.Covers, hr, hq, leftmost] at *
  cases h
  case inl h => have := sb.le_of_covers h; omega
  case inr h => have := sc.le_of_covers h; omega

theorem leftmost_ahead (b c : Band) :
    Ahead (leftmost b.rects c.rects) b.rects ∧ Ahead (leftmost b.rects c.rects) c.rects := by
  have ⟨r, _, hr, _⟩ := b.exists_cons
  have ⟨q, _, hq, _⟩ := c.exists_cons
  have hlr := b.separated.nonempty r (by simp [hr])
  have hlq := c.separated.nonempty q (by simp [hq])
  rw [hr, hq, leftmost]
  constructor <;> (rintro _ ⟨⟩; omega)

theorem mergeBands_computes :
    Sweep.Computes { sliceLeft := true, sliceRight := true, combineBands := mergeBands } Or where
  neither   := by simp
  onlyLeft  := by simp
  onlyRight := by simp
  combineBands _ _ _ _ b c := ⟨_, rfl,
    (mergedRects_row IsRow.nil b.separated c.separated (by simp) (by simp)).congr fun x => by
      simp [Band.Covers]⟩

theorem subtractBands_computes :
    Sweep.Computes { sliceLeft := true, sliceRight := false, combineBands := subtractBands }
      (· ∧ ¬·) where
  neither   := by simp
  onlyLeft  := by simp
  onlyRight := by simp
  combineBands _ _ _ _ b c :=
    have ⟨hb, hc⟩ := leftmost_ahead b c
    ⟨_, rfl, (subtractedRects_row IsRow.nil b.separated c.separated hb hc (by simp)).congr fun x => by
      rw [false_or]
      exact and_iff_right_of_imp fun h => leftmost_le (.inl h.1)⟩

theorem xorBands_computes :
    Sweep.Computes { sliceLeft := true, sliceRight := true, combineBands := xorBands } Xor where
  neither   := by simp
  onlyLeft  := by simp [Xor]
  onlyRight := by simp
  combineBands _ _ _ _ b c :=
    have ⟨hb, hc⟩ := leftmost_ahead b c
    ⟨_, rfl, (xoredRects_row IsRow.nil b.separated c.separated hb hc (by simp)).congr fun x => by
      rw [false_or]
      exact and_iff_right_of_imp fun h => leftmost_le <| h.imp And.left And.left⟩

theorem intersectBands_computes :
    Sweep.Computes { sliceLeft := false, sliceRight := false, combineBands := intersectBands } And where
  neither   := by simp
  onlyLeft  := by simp
  onlyRight := by simp
  combineBands _ _ _ _ b c := ⟨_, rfl,
    (intersectedRects_row IsRow.nil b.separated c.separated (by simp)).congr fun x => by
      simp [Band.Covers]⟩

theorem Stacked.top_le_of_covered {b : Band} {bs : List Band} (s : Stacked (b :: bs))
    (h : Covered (b :: bs) p) : b.top ≤ p.y := by
  cases covered_cons.mp h
  case inl h => exact (Band.mem_iff.mp h).1.1
  case inr h =>
    have ⟨c, hc, hp⟩ := h
    exact b.ordered.le.trans <| (s.bottom_le hc).trans (Band.mem_iff.mp hp).1.1

theorem topmost_flatten (b c : Band) (bs cs : List Band) :
    topmost (flatten (b :: bs)) (flatten (c :: cs)) = min b.top c.top := by
  have ⟨r, _, hr, ht, _⟩ := b.exists_cons
  have ⟨q, _, hq, ht', _⟩ := c.exists_cons
  simp [hr, hq, topmost, ht, ht']

theorem Sweep.Computes.run (hop : op.Computes f) (bl : Banded left) (br : Banded right)
    (hl : left ≠ []) (hr : right ≠ []) :
    Banded (op.run left right) ∧ ∀ p, Drawn (op.run left right) p ↔ f (Drawn left p) (Drawn right p) := by
  obtain ⟨bs, sb, rfl⟩ := bl.exists_stacked
  obtain ⟨cs, sc, rfl⟩ := br.exists_stacked
  obtain ⟨b, bs, rfl⟩ := List.exists_cons_of_ne_nil (mt flatten_eq_nil_iff.mpr hl)
  obtain ⟨c, cs, rfl⟩ := List.exists_cons_of_ne_nil (mt flatten_eq_nil_iff.mpr hr)
  have hb := b.ordered
  have hc := c.ordered
  have ht := topmost_flatten b c bs cs
  have ⟨bands, h₁, h₂, h₃⟩ := sweep_yields hop List.IsChain.nil
    (Open.nil (y := topmost (flatten (b :: bs)) (flatten (c :: cs)))) sb sc
    (by rintro _ ⟨⟩; omega) (by rintro _ ⟨⟩; omega)
  rw [Sweep.run, ← flatten_nil, h₁]
  refine ⟨h₂.banded, fun p => ?_⟩
  simp only [Drawn, ← covered_iff_mem_flatten]
  rw [h₃, covered_nil, false_or, ht, and_iff_right_of_imp]
  intro hf
  by_cases hl : Covered (b :: bs) p
  case pos => have := sb.top_le_of_covered hl; omega
  by_cases hr : Covered (c :: cs) p
  case pos => have := sc.top_le_of_covered hr; omega
  rw [eq_false hl, eq_false hr] at hf
  exact absurd hf hop.neither

-- Points determine the bounding rectangle.
theorem IsBoundingRect.congr (h : IsBoundingRect l₁ bounds)
    (h₁ : ∀ r ∈ l₁, r.isEmpty = false) (h₂ : ∀ r ∈ l₂, r.isEmpty = false)
    (hp : ∀ p, Drawn l₁ p ↔ Drawn l₂ p) : IsBoundingRect l₂ bounds := by
  have swap : ∀ (l : List Rect) (q : Point → Prop), (∃ r ∈ l, ∃ p ∈ r, q p) ↔ ∃ p, Drawn l p ∧ q p :=
    fun l q => ⟨fun ⟨r, hr, p, hp, hq⟩ => ⟨p, ⟨r, hr, hp⟩, hq⟩, fun ⟨p, ⟨r, hr, hp⟩, hq⟩ => ⟨r, hr, p, hp, hq⟩⟩
  rw [isBoundingRect_iff h₁] at h
  rw [isBoundingRect_iff h₂]
  simp only [swap, hp] at h
  simp only [swap]
  exact ⟨fun p h' => h.1 p ((hp p).mpr h'), h.2⟩

theorem IsBoundingRect.singleton (rect : Rect) : IsBoundingRect [rect] rect := by
  constructor <;> simp

theorem IsBoundingRect.isEmpty_eq_false (h : IsBoundingRect rects bounds)
    (hn : ∀ r ∈ rects, r.isEmpty = false) : bounds.isEmpty = false := by
  obtain ⟨r, hr, _⟩ := h.left
  have := h.bounded r hr
  have := hn r hr
  rw [Rect.isEmpty_false_iff] at *
  omega

theorem IsBoundingRect.append (h₁ : IsBoundingRect l₁ b₁) (h₂ : IsBoundingRect l₂ b₂)
    (hn₁ : b₁.isEmpty = false) (hn₂ : b₂.isEmpty = false) :
    IsBoundingRect (l₁ ++ l₂) (b₁.united b₂) := by
  have attained {g : Rect → Int} {x y z : Int} (hz : z = x ∨ z = y)
      (hx : ∃ r ∈ l₁, g r = x) (hy : ∃ r ∈ l₂, g r = y) : ∃ r ∈ l₁ ++ l₂, g r = z := by
    cases hz
    case inl hz => exact hz ▸ hx.imp fun r ⟨hr, hg⟩ => ⟨List.mem_append_left _ hr, hg⟩
    case inr hz => exact hz ▸ hy.imp fun r ⟨hr, hg⟩ => ⟨List.mem_append_right _ hr, hg⟩
  simp only [Rect.united, hn₁, hn₂, Bool.false_eq_true, if_false]
  refine ⟨fun r hr => ?_, attained ?_ h₁.left h₂.left, attained ?_ h₁.top h₂.top,
    attained ?_ h₁.right h₂.right, attained ?_ h₁.bottom h₂.bottom⟩
  · simp only
    cases List.mem_append.mp hr
    case inl hr => have := h₁.bounded r hr; omega
    case inr hr => have := h₂.bounded r hr; omega
  all_goals simp only; omega

theorem isBoundingRect_foldl_united (h : IsBoundingRect l₁ bounds)
    (h₁ : ∀ r ∈ l₁, r.isEmpty = false) (h₂ : ∀ r ∈ l₂, r.isEmpty = false) :
    IsBoundingRect (l₁ ++ l₂) (l₂.foldl Rect.united bounds) := by
  induction l₂ generalizing l₁ bounds
  case nil => simpa
  case cons r l₂ ih =>
    have hr := h₂ r (by simp)
    have h' := h.append (IsBoundingRect.singleton r) (h.isEmpty_eq_false h₁) hr
    have := ih h' (by simpa [hr, or_imp, forall_and] using h₁) fun r hr => h₂ r (by simp [hr])
    simpa using this

theorem Canonical.mem_bounds (c : r.Canonical) (h : p ∈ r) : p ∈ r.mBounds :=
  have ⟨_, hr, hp⟩ := h
  ((isBoundingRect_iff c.banded.nonempty).mp c.bounds).1 p ⟨_, hr, hp⟩

theorem Canonical.isEmpty_eq_false (c : r.Canonical) : r.isEmpty = false :=
  c.bounds.isEmpty_eq_false c.banded.nonempty

theorem Canonical.rects_eq (c : r.Canonical) (hm : r.mRects.isEmpty = false) : r.rects = r.mRects := by
  rw [rects, if_neg (by simp [c.isEmpty_eq_false]), if_neg (by simp [hm])]

theorem Canonical.rects_single (c : r.Canonical) (hm : r.mRects.isEmpty) : r.rects = [r.mBounds] := by
  rw [rects, if_neg (by simp [c.isEmpty_eq_false]), if_pos hm]

theorem rects_ne_nil (h : r.isEmpty = false) : r.rects ≠ [] := by
  rw [rects, h]
  split
  · contradiction
  · split <;> simp_all

theorem rects_ofRect (h : rect.isEmpty = false) : (ofRect rect).rects = [rect] := by
  simp [rects, ofRect, isEmpty, h]

theorem mem_ofRect : p ∈ ofRect rect ↔ p ∈ rect := by
  cases h : rect.isEmpty
  case false => simp [mem_iff, rects_ofRect h]
  case true => simp [mem_iff, ofRect, isEmpty, rects, h, Rect.isEmpty_iff_forall_not_mem.mp h]

theorem wellFormed_ofRect (rect : Rect) : (ofRect rect).WellFormed := by
  cases h : rect.isEmpty
  case true => exact .inl h
  case false =>
    refine .inr ⟨by simp [ofRect], ?_, ?_⟩
    · rw [rects_ofRect h]
      have := Rect.isEmpty_false_iff.mp h
      constructor <;> simp [h]
      omega
    · rw [rects_ofRect h]
      exact IsBoundingRect.singleton rect

theorem wellFormed_empty : WellFormed {} :=
  .inl (by decide)

theorem not_mem_empty : p ∉ ({} : Region) :=
  not_mem_of_isEmpty (by decide)

-- The canonical region of at least two rectangles.
theorem wellFormed_of_banded (b : Banded rects) (hb : IsBoundingRect rects bounds) (hn : rects.length ≠ 1) :
    WellFormed { mBounds := bounds, mRects := rects } ∧
      ∀ p, p ∈ ({ mBounds := bounds, mRects := rects } : Region) ↔ Drawn rects p := by
  have he := hb.isEmpty_eq_false b.nonempty
  have hr : ({ mBounds := bounds, mRects := rects } : Region).rects = rects := by
    have ⟨r, hr, _⟩ := hb.left
    have := List.ne_nil_of_mem hr
    simp [Region.rects, isEmpty, he, this]
  refine ⟨.inr ⟨hn, hr.symm ▸ b, hr.symm ▸ hb⟩, fun p => ?_⟩
  rw [mem_iff, hr, Drawn]

theorem computeBounds_wellFormed (b : Banded rects) :
    (computeBounds rects).WellFormed ∧ ∀ p, p ∈ computeBounds rects ↔ Drawn rects p := by
  unfold computeBounds
  split
  case h_1 rect => exact ⟨wellFormed_ofRect rect, fun p => mem_ofRect.trans (by simp [Drawn])⟩
  case h_2 hn =>
    cases rects
    case nil => exact ⟨wellFormed_empty, fun p => iff_of_false not_mem_empty (by simp [Drawn])⟩
    case cons r rest =>
      have hr := b.nonempty r (by simp)
      refine wellFormed_of_banded b ?_ ?_
      · rw [List.foldl_cons, Rect.united, if_pos Rect.default_isEmpty]
        exact isBoundingRect_foldl_united (IsBoundingRect.singleton r) (by simpa)
          fun c hc => b.nonempty c (by simp [hc])
      · simpa using fun h => hn r (by simp [h])

-- `contains` walks down the bands, and each rectangle which it steps over covers a slice of `rect`.
theorem contains_go_sound (h : contains.go rect scanline rects) (hp : p ∈ rect) (hs : scanline ≤ p.y) :
    Drawn rects p := by
  have tail {r : Rect} {rs : List Rect} : Drawn rs p → Drawn (r :: rs) p :=
    fun ⟨c, hc, hp⟩ => ⟨c, List.mem_cons_of_mem r hc, hp⟩
  fun_induction contains.go rect scanline rects
  case case1 => contradiction
  case case2 ih => exact tail (ih h hs)
  case case3 => contradiction
  case case4 ih => exact tail (ih h hs)
  case case5 scanline hd tl _ _ _ h₁ h₂ =>
    rw [Bool.and_eq_true, decide_eq_true_eq, decide_eq_true_eq] at h₁
    rw [Rect.mem_iff] at hp
    exact ⟨hd, by simp, Rect.mem_iff.mpr (by omega)⟩
  case case6 scanline hd tl _ _ _ h₁ h₂ ih =>
    rw [Bool.and_eq_true, decide_eq_true_eq, decide_eq_true_eq] at h₁
    by_cases hy : hd.bottom ≤ p.y
    case pos => exact tail (ih h hy)
    case neg =>
      rw [Rect.mem_iff] at hp
      exact ⟨hd, by simp, Rect.mem_iff.mpr (by omega)⟩
  case case7 => contradiction

theorem contains_sound (h : r.contains rect) (hp : p ∈ rect) : p ∈ r := by
  unfold contains at h
  split at h
  case isTrue => contradiction
  split at h
  case isTrue => contradiction
  case isFalse he _ =>
    split at h
    case isTrue hr => exact ⟨r.mBounds, by simp [rects, he, hr], Rect.mem_of_contains h hp⟩
    case isFalse hr =>
      split at h
      case isTrue => contradiction
      case isFalse =>
        obtain ⟨c, hc, hp⟩ := contains_go_sound h hp (Rect.mem_iff.mp hp).2.1
        have hc := (List.dropWhile_sublist _).mem hc
        exact ⟨c, by simpa [rects, he, hr] using hc, hp⟩

theorem mem_of_mem_of_single (hn : r.isEmpty = false) (hr : r.mRects.isEmpty) : p ∈ r ↔ p ∈ r.mBounds := by
  simp [mem_iff, rects, hn, hr]

-- An L-shaped region, and a region of one rectangle that cuts through both of its bands.
def corner : Region :=
  { mBounds := ⟨0, 0, 20, 20⟩, mRects := [⟨0, 0, 10, 10⟩, ⟨0, 10, 20, 20⟩] }

def strip : Region :=
  ofRect ⟨5, 5, 30, 15⟩

def Draws (r : Region) (P : Point → Prop) : Prop :=
  r.WellFormed ∧ ∀ p, p ∈ r ↔ P p

theorem united_draws (ha : a.WellFormed) (hb : b.WellFormed) : (a.united b).Draws fun p => p ∈ a ∨ p ∈ b := by
  change (a.united b).WellFormed ∧ ∀ p, p ∈ a.united b ↔ p ∈ a ∨ p ∈ b
  unfold united
  by_cases ea : a.isEmpty
  case pos => simp [ea, hb, not_mem_of_isEmpty ea]
  by_cases eb : b.isEmpty
  case pos => simp [ea, eb, ha, not_mem_of_isEmpty eb]
  rw [if_neg ea, if_neg eb]
  rw [Bool.not_eq_true] at ea eb
  split
  case isTrue h =>
    have ⟨h₁, h₂⟩ := Bool.and_eq_true_iff.mp h
    refine ⟨hb, fun p => (or_iff_right_of_imp fun hp => ?_).symm⟩
    exact contains_sound h₂ ((mem_of_mem_of_single ea h₁).mp hp)
  split
  case isTrue h =>
    have ⟨h₁, h₂⟩ := Bool.and_eq_true_iff.mp h
    refine ⟨ha, fun p => (or_iff_left_of_imp fun hp => ?_).symm⟩
    exact contains_sound h₂ ((mem_of_mem_of_single eb h₁).mp hp)
  split
  case isTrue h => simp [← h, ha]
  have ca := ha.canonical ea
  have cb := hb.canonical eb
  have ⟨hw, hp⟩ := mergeBands_computes.run ca.banded cb.banded (rects_ne_nil ea) (rects_ne_nil eb)
  change Banded (unite a.rects b.rects) at hw
  change ∀ p, Drawn (unite a.rects b.rects) p ↔ p ∈ a ∨ p ∈ b at hp
  split
  case h_1 rect hu =>
    simp only [← hp, hu]
    exact ⟨wellFormed_ofRect rect, fun p => mem_ofRect.trans (by simp [Drawn])⟩
  case h_2 hn =>
    have hd := ca.bounds.append cb.bounds ca.isEmpty_eq_false cb.isEmpty_eq_false
    have hd : IsBoundingRect (unite a.rects b.rects) (a.mBounds.united b.mBounds) := by
      refine hd.congr ?_ hw.nonempty fun p => ?_
      · simpa [or_imp, forall_and] using ⟨ca.banded.nonempty, cb.banded.nonempty⟩
      · rw [hp]
        simp [Drawn, mem_iff, or_and_right, exists_or]
    simp only [← hp]
    exact wellFormed_of_banded hw hd fun h => by
      have ⟨c, hc⟩ := List.length_eq_one_iff.mp h
      exact hn c hc

theorem united_correct (ha : a.WellFormed) (hb : b.WellFormed) :
    (a.united b).WellFormed ∧ ∀ p, p ∈ a.united b ↔ p ∈ a ∨ p ∈ b :=
  united_draws ha hb

theorem united_correct_corner_strip :
    (corner.united strip).WellFormed ∧ ∀ p, p ∈ corner.united strip ↔ p ∈ corner ∨ p ∈ strip :=
  united_correct (by decide) (by decide)

theorem subtracted_draws (ha : a.WellFormed) (hb : b.WellFormed) : (a.subtracted b).Draws fun p => p ∈ a ∧ p ∉ b := by
  change (a.subtracted b).WellFormed ∧ ∀ p, p ∈ a.subtracted b ↔ p ∈ a ∧ p ∉ b
  unfold subtracted
  by_cases ea : a.isEmpty
  case pos => simp [ea, wellFormed_empty, not_mem_empty, not_mem_of_isEmpty ea]
  by_cases eb : b.isEmpty
  case pos => simp [ea, eb, ha, not_mem_of_isEmpty eb]
  rw [if_neg ea, if_neg eb]
  rw [Bool.not_eq_true] at ea eb
  have ca := ha.canonical ea
  have cb := hb.canonical eb
  split
  case isTrue h =>
    refine ⟨ha, fun p => (and_iff_left_of_imp fun h₁ h₂ => ?_).symm⟩
    simp [Rect.intersects_of_mem (ca.mem_bounds h₁) (cb.mem_bounds h₂)] at h
  split
  case isTrue h => simp [← h, wellFormed_empty, not_mem_empty]
  have ⟨hw, hp⟩ := subtractBands_computes.run ca.banded cb.banded (rects_ne_nil ea) (rects_ne_nil eb)
  have ⟨h₁, h₂⟩ := computeBounds_wellFormed hw
  exact ⟨h₁, fun p => (h₂ p).trans (hp p)⟩

theorem subtracted_correct (ha : a.WellFormed) (hb : b.WellFormed) :
    (a.subtracted b).WellFormed ∧ ∀ p, p ∈ a.subtracted b ↔ p ∈ a ∧ p ∉ b :=
  subtracted_draws ha hb

theorem subtracted_correct_corner_strip :
    (corner.subtracted strip).WellFormed ∧ ∀ p, p ∈ corner.subtracted strip ↔ p ∈ corner ∧ p ∉ strip :=
  subtracted_correct (by decide) (by decide)

theorem xored_correct (ha : a.WellFormed) (hb : b.WellFormed) :
    (a.xored b).WellFormed ∧ ∀ p, p ∈ a.xored b ↔ Xor (p ∈ a) (p ∈ b) := by
  unfold xored
  by_cases ea : a.isEmpty
  case pos => simp [ea, hb, not_mem_of_isEmpty ea]
  by_cases eb : b.isEmpty
  case pos => simp [ea, eb, ha, not_mem_of_isEmpty eb, xor_comm]
  rw [if_neg ea, if_neg eb]
  rw [Bool.not_eq_true] at ea eb
  split
  case isTrue h => simp [← h, wellFormed_empty, not_mem_empty]
  have ca := ha.canonical ea
  have cb := hb.canonical eb
  have ⟨hw, hp⟩ := xorBands_computes.run ca.banded cb.banded (rects_ne_nil ea) (rects_ne_nil eb)
  have ⟨h₁, h₂⟩ := computeBounds_wellFormed hw
  exact ⟨h₁, fun p => (h₂ p).trans (hp p)⟩

theorem xored_correct_corner_strip :
    (corner.xored strip).WellFormed ∧ ∀ p, p ∈ corner.xored strip ↔ Xor (p ∈ corner) (p ∈ strip) :=
  xored_correct (by decide) (by decide)

theorem intersected_draws (ha : a.WellFormed) (hb : b.WellFormed) : (a.intersected b).Draws fun p => p ∈ a ∧ p ∈ b := by
  change (a.intersected b).WellFormed ∧ ∀ p, p ∈ a.intersected b ↔ p ∈ a ∧ p ∈ b
  unfold intersected
  by_cases ea : a.isEmpty
  case pos => simp [ea, wellFormed_empty, not_mem_empty, not_mem_of_isEmpty ea]
  by_cases eb : b.isEmpty
  case pos => simp [ea, eb, wellFormed_empty, not_mem_empty, not_mem_of_isEmpty eb]
  rw [if_neg ea, if_neg eb]
  rw [Bool.not_eq_true] at ea eb
  have ca := ha.canonical ea
  have cb := hb.canonical eb
  simp only
  split
  case isTrue h =>
    refine ⟨wellFormed_empty, fun p => iff_of_false not_mem_empty fun ⟨h₁, h₂⟩ => ?_⟩
    refine Rect.isEmpty_iff_forall_not_mem.mp h p ?_
    exact Rect.mem_intersected.mpr ⟨ca.mem_bounds h₁, cb.mem_bounds h₂⟩
  split
  case isTrue h =>
    have ⟨h₁, h₂⟩ := Bool.and_eq_true_iff.mp h
    refine ⟨wellFormed_ofRect _, fun p => ?_⟩
    rw [mem_ofRect, Rect.mem_intersected, mem_of_mem_of_single ea h₁, mem_of_mem_of_single eb h₂]
  split
  case isTrue h =>
    have ⟨h₁, h₂⟩ := Bool.and_eq_true_iff.mp h
    refine ⟨hb, fun p => (and_iff_right_of_imp fun hp => ?_).symm⟩
    exact (mem_of_mem_of_single ea h₁).mpr <| Rect.mem_of_contains h₂ (cb.mem_bounds hp)
  split
  case isTrue h =>
    have ⟨h₁, h₂⟩ := Bool.and_eq_true_iff.mp h
    refine ⟨ha, fun p => (and_iff_left_of_imp fun hp => ?_).symm⟩
    exact (mem_of_mem_of_single eb h₁).mpr <| Rect.mem_of_contains h₂ (ca.mem_bounds hp)
  have ⟨hw, hp⟩ := intersectBands_computes.run ca.banded cb.banded (rects_ne_nil ea) (rects_ne_nil eb)
  have ⟨h₁, h₂⟩ := computeBounds_wellFormed hw
  exact ⟨h₁, fun p => (h₂ p).trans (hp p)⟩

theorem intersected_correct (ha : a.WellFormed) (hb : b.WellFormed) :
    (a.intersected b).WellFormed ∧ ∀ p, p ∈ a.intersected b ↔ p ∈ a ∧ p ∈ b :=
  intersected_draws ha hb

theorem intersected_correct_corner_strip :
    (corner.intersected strip).WellFormed ∧ ∀ p, p ∈ corner.intersected strip ↔ p ∈ corner ∧ p ∈ strip :=
  intersected_correct (by decide) (by decide)

end KWin.Region
