import PlasmaModel.Region.Theorems.Operations

namespace KWin.Region

variable {r other : Region} {rect a : Rect} {rects tl : List Rect} {p : Point} {scanline y : Int}

-- The first rectangle is to the left of the second one in the same band, or its band is above.
def Precedes (a b : Rect) : Prop :=
  (a.top = b.top ∧ a.bottom = b.bottom ∧ a.right < b.left) ∨ a.bottom ≤ b.top

theorem Banded.precedes (b : Banded rects) : rects.Pairwise Precedes := by
  refine (b.sorted.and b.gap).imp_of_mem fun {a c} ha hc h => ?_
  cases h.1 with
  | inl hlt => exact .inr (b.noOverlap a ha c hc hlt)
  | inr heq => exact .inl ⟨heq.1, b.sameBottom a ha c hc heq.1, h.2 heq.1⟩

-- What the walks over the rectangles need of those which are still ahead.
structure Walk (rects : List Rect) : Prop where
  nonempty : ∀ r ∈ rects, r.left < r.right ∧ r.top < r.bottom
  precedes : rects.Pairwise Precedes

theorem Banded.walk (b : Banded rects) : Walk rects :=
  ⟨fun r hr => Rect.isEmpty_false_iff.mp (b.nonempty r hr), b.precedes⟩

theorem Walk.sublist (w : Walk rects) (h : tl.Sublist rects) : Walk tl :=
  ⟨fun r hr => w.nonempty r (h.mem hr), w.precedes.sublist h⟩

theorem Walk.tail (w : Walk (rect :: rects)) : Walk rects :=
  w.sublist (List.sublist_cons_self rect rects)

theorem Walk.head (w : Walk (rect :: rects)) : rect.left < rect.right ∧ rect.top < rect.bottom :=
  w.nonempty rect List.mem_cons_self

theorem Walk.drawn_tail (w : Walk (rect :: rects)) (h : Drawn rects p) :
    (rect.top ≤ p.y ∧ p.y < rect.bottom ∧ rect.right < p.x) ∨ rect.bottom ≤ p.y := by
  have ⟨c, hc, hp⟩ := h
  have hp := Rect.mem_iff.mp hp
  cases List.rel_of_pairwise_cons w.precedes hc with
  | inl h => omega
  | inr h => omega

theorem drawn_cons : Drawn (rect :: rects) p ↔ p ∈ rect ∨ Drawn rects p := by
  simp [Drawn]

theorem Walk.top_le (w : Walk (rect :: rects)) (h : Drawn (rect :: rects) p) : rect.top ≤ p.y := by
  cases drawn_cons.mp h with
  | inl h => exact (Rect.mem_iff.mp h).2.1
  | inr h =>
    have := w.head
    have := w.drawn_tail h
    omega

-- Only rectangles which end above are skipped.
theorem drawn_bandByY (h : y ≤ p.y) : Drawn (bandByY rects y) p ↔ Drawn rects p := by
  rw [bandByY]
  induction rects with
  | nil => simp
  | cons rect rects ih =>
    rw [List.dropWhile_cons]
    split
    case isTrue hskip =>
      rw [ih, drawn_cons, or_iff_right]
      intro hp
      have := Rect.mem_iff.mp hp
      simp at hskip
      omega
    case isFalse => rfl

theorem Walk.bandByY (w : Walk rects) : Walk (bandByY rects y) :=
  w.sublist (List.dropWhile_sublist _)

theorem Walk.lt_bottom (w : Walk rects) (h : a ∈ Region.bandByY rects y) : y < a.bottom := by
  rw [Region.bandByY] at h
  induction rects with
  | nil => cases h
  | cons rect rects ih =>
    rw [List.dropWhile_cons] at h
    split at h
    case isTrue => exact ih w.tail h
    case isFalse hstop =>
      have hlt : y < rect.bottom := by simpa using hstop
      cases List.mem_cons.mp h with
      | inl h => exact h ▸ hlt
      | inr h =>
        have := w.tail.nonempty a h
        cases List.rel_of_pairwise_cons w.precedes h with
        | inl hr => omega
        | inr hr => omega

theorem containsPoint_go_iff (w : Walk rects) (hb : ∀ a ∈ rects, p.y < a.bottom) :
    containsPoint.go p rects ↔ Drawn rects p := by
  fun_induction containsPoint.go p rects
  case case1 => simp [Drawn]
  case case2 hd tl htop =>
    refine iff_of_false (by simp) fun h => ?_
    have := w.top_le h
    omega
  case case3 hd tl htop hleft ih =>
    rw [ih w.tail fun a ha => hb a (by simp [ha]), drawn_cons, or_iff_right]
    intro hp
    have := Rect.mem_iff.mp hp
    omega
  case case4 hd tl htop hleft hin =>
    have := hb hd (by simp)
    exact iff_of_true rfl (drawn_cons.mpr (.inl (Rect.mem_iff.mpr (by omega))))
  case case5 hd tl htop hleft hin hgt =>
    refine iff_of_false (by simp) fun h => ?_
    cases drawn_cons.mp h with
    | inl hp =>
      have := Rect.mem_iff.mp hp
      omega
    | inr h =>
      have := w.drawn_tail h
      have := w.head
      have := hb hd (by simp)
      omega
  case case6 => omega

theorem contains_go_complete (w : Walk rects) (hx : rect.left < rect.right)
    (hs : rect.top ≤ scanline ∧ scanline < rect.bottom) (h : ∀ p ∈ rect, scanline ≤ p.y → Drawn rects p) :
    contains.go rect scanline rects := by
  fun_induction contains.go rect scanline rects
  case case1 scanline =>
    have := h ⟨rect.left, scanline⟩ (Rect.mem_iff.mpr ⟨⟨le_rfl, hx⟩, hs⟩) le_rfl
    simp [Drawn] at this
  case case2 scanline hd tl hb ih =>
    refine ih w.tail hs fun p hp hy => (drawn_cons.mp (h p hp hy)).resolve_left fun hd => ?_
    have := Rect.mem_iff.mp hd
    omega
  case case3 scanline hd tl hb htop =>
    have := w.top_le (h ⟨rect.left, scanline⟩ (Rect.mem_iff.mpr ⟨⟨le_rfl, hx⟩, hs⟩) le_rfl)
    simp only at this
    omega
  case case4 scanline hd tl hb htop hleft ih =>
    refine ih w.tail hs fun p hp hy => (drawn_cons.mp (h p hp hy)).resolve_left fun hd => ?_
    have := Rect.mem_iff.mp hd
    have := Rect.mem_iff.mp hp
    omega
  case case5 => rfl
  case case6 scanline hd tl hb htop hleft hin hbottom ih =>
    refine ih w.tail (by omega) fun p hp hy => (drawn_cons.mp (h p hp (by omega))).resolve_left fun hd => ?_
    have := Rect.mem_iff.mp hd
    omega
  case case7 scanline hd tl hb htop hleft hin =>
    -- The row of the scanline leaves the first rectangle, and the next one does not touch it.
    have hrow : ∀ x, rect.left ≤ x → x < rect.right → x ≤ hd.right → hd.left ≤ x ∧ x < hd.right := fun x h₁ h₂ h₃ => by
      have hdrawn := h ⟨x, scanline⟩ (Rect.mem_iff.mpr ⟨⟨h₁, h₂⟩, hs⟩) le_rfl
      cases drawn_cons.mp hdrawn with
      | inl h => exact (Rect.mem_iff.mp h).1
      | inr h =>
        have := w.drawn_tail h
        simp only at this
        omega
    have hfirst := hrow rect.left le_rfl hx (by omega)
    have hlast := hrow hd.right (by omega)
    simp only [Bool.and_eq_true, decide_eq_true_eq] at hin
    omega

theorem intersectsRect_go_iff (w : Walk rects) (hx : rect.left < rect.right) (hs : rect.top ≤ scanline)
    (hlt : scanline < rect.bottom) :
    intersectsRect.go rect scanline rects ↔ ∃ p ∈ rect, scanline ≤ p.y ∧ Drawn rects p := by
  fun_induction intersectsRect.go rect scanline rects
  case case1 => simp [Drawn]
  case case2 scanline hd tl hb ih =>
    rw [ih w.tail hs hlt]
    refine exists_congr fun p => and_congr_right fun hp => and_congr_right fun hy => ?_
    rw [drawn_cons, or_iff_right]
    intro hd
    have := Rect.mem_iff.mp hd
    omega
  case case3 scanline hd tl hb htop =>
    refine iff_of_false (by simp) ?_
    rintro ⟨p, hp, hy, h⟩
    have := w.top_le h
    have := Rect.mem_iff.mp hp
    omega
  case case4 scanline hd tl hb htop hleft ih =>
    rw [ih w.tail hs hlt]
    refine exists_congr fun p => and_congr_right fun hp => and_congr_right fun hy => ?_
    rw [drawn_cons, or_iff_right]
    intro hd
    have := Rect.mem_iff.mp hd
    have := Rect.mem_iff.mp hp
    omega
  case case5 scanline hd tl hb htop hleft hright hbottom =>
    refine iff_of_false (by simp) ?_
    rintro ⟨p, hp, hy, h⟩
    have := Rect.mem_iff.mp hp
    cases drawn_cons.mp h with
    | inl hd =>
      have := Rect.mem_iff.mp hd
      omega
    | inr h =>
      have := w.drawn_tail h
      have := w.head
      omega
  case case6 scanline hd tl hb htop hleft hright hbottom ih =>
    rw [ih w.tail (by omega) (by omega)]
    refine exists_congr fun p => and_congr_right fun hp => ?_
    have := Rect.mem_iff.mp hp
    constructor
    case mp => exact fun h => ⟨by omega, drawn_cons.mpr (.inr h.2)⟩
    case mpr =>
      rintro ⟨hy, h⟩
      cases drawn_cons.mp h with
      | inl hd =>
        have := Rect.mem_iff.mp hd
        omega
      | inr h =>
        have := w.drawn_tail h
        have := w.head
        exact ⟨by omega, h⟩
  case case7 scanline hd tl hb htop hleft hright =>
    have := w.head
    refine iff_of_true rfl ⟨⟨max hd.left rect.left, max hd.top scanline⟩, Rect.mem_iff.mpr ?_, ?_⟩
    · simp only
      omega
    · refine ⟨le_max_right _ _, drawn_cons.mpr (.inl (Rect.mem_iff.mpr ?_))⟩
      simp only
      omega

theorem Canonical.mem_iff_drawn (c : r.Canonical) (hm : r.mRects.isEmpty = false) : p ∈ r ↔ Drawn r.mRects p := by
  rw [mem_iff, c.rects_eq hm, Drawn]

theorem Canonical.walk (c : r.Canonical) (hm : r.mRects.isEmpty = false) : Walk r.mRects :=
  c.rects_eq hm ▸ c.banded.walk

theorem containsPoint_iff (hr : r.WellFormed) : r.containsPoint p ↔ p ∈ r := by
  rw [containsPoint]
  split
  case isTrue he => simp [not_mem_of_isEmpty he]
  case isFalse he =>
    rw [Bool.not_eq_true] at he
    have c := hr.canonical he
    split
    case isTrue hm => exact (mem_of_mem_of_single he hm).symm
    case isFalse hm =>
      rw [Bool.not_eq_true] at hm
      have w := c.walk hm
      rw [containsPoint_go_iff w.bandByY fun a ha => w.lt_bottom ha,
        drawn_bandByY le_rfl, c.mem_iff_drawn hm]

-- A rectangle of the region's bounding rectangle has no points elsewhere.
theorem Canonical.intersects_bounds (c : r.Canonical) (h : p ∈ r) (hp : p ∈ rect) : r.mBounds.intersects rect :=
  Rect.intersects_of_mem (c.mem_bounds h) hp

theorem contains_iff (hr : r.WellFormed) (hn : rect.isEmpty = false) : r.contains rect ↔ ∀ p ∈ rect, p ∈ r := by
  have hrect := Rect.isEmpty_false_iff.mp hn
  have hcorner := Rect.corner_mem hn
  refine ⟨fun h p hp => contains_sound h hp, fun h => ?_⟩
  cases he : r.isEmpty with
  | true => exact absurd (h _ hcorner) (not_mem_of_isEmpty he)
  | false =>
    have c := hr.canonical he
    rw [contains, if_neg (by simp [he]), if_neg (by simp [hn])]
    split
    case isTrue hm =>
      exact (Rect.contains_iff he hn).mpr fun p hp => (mem_of_mem_of_single he hm).mp (h p hp)
    case isFalse hm =>
      rw [Bool.not_eq_true] at hm
      have hbounds := c.intersects_bounds (h _ hcorner) hcorner
      rw [if_neg (by simp [hbounds])]
      refine contains_go_complete (c.walk hm).bandByY hrect.1 ⟨le_rfl, hrect.2⟩ fun p hp hy => ?_
      exact (drawn_bandByY hy).mpr ((c.mem_iff_drawn hm).mp (h p hp))

theorem intersectsRect_iff (hr : r.WellFormed) (hn : rect.isEmpty = false) :
    r.intersectsRect rect ↔ ∃ p ∈ rect, p ∈ r := by
  have hrect := Rect.isEmpty_false_iff.mp hn
  cases he : r.isEmpty with
  | true => simp [intersectsRect, he, not_mem_of_isEmpty he]
  | false =>
    have c := hr.canonical he
    rw [intersectsRect, if_neg (by simp [he]), if_neg (by simp [hn])]
    split
    case isTrue hm =>
      simp only [mem_of_mem_of_single he hm]
      exact Rect.intersects_iff_exists he hn
    case isFalse hm =>
      rw [Bool.not_eq_true] at hm
      split
      case isTrue hbounds =>
        refine iff_of_false (by simp) fun ⟨p, hp, h⟩ => ?_
        simp [c.intersects_bounds h hp] at hbounds
      case isFalse =>
        rw [intersectsRect_go_iff (c.walk hm).bandByY hrect.1 le_rfl hrect.2]
        refine exists_congr fun p => and_congr_right fun hp => ?_
        have hy := (Rect.mem_iff.mp hp).2.1
        rw [and_iff_right hy, drawn_bandByY hy, c.mem_iff_drawn hm]

theorem intersects_iff (hr : r.WellFormed) (ho : other.WellFormed) : r.intersects other ↔ ∃ p, p ∈ r ∧ p ∈ other := by
  rw [intersects]
  split
  case isTrue he => simp [not_mem_of_isEmpty he]
  split
  case isTrue he => simp [not_mem_of_isEmpty he]
  case isFalse he he' =>
    rw [Bool.not_eq_true] at he he'
    have c := hr.canonical he
    have c' := ho.canonical he'
    split
    case isTrue hb =>
      refine iff_of_false (by simp) fun ⟨p, h, h'⟩ => Rect.isEmpty_iff_forall_not_mem.mp hb p ?_
      exact Rect.mem_intersected.mpr ⟨c.mem_bounds h, c'.mem_bounds h'⟩
    split
    case isTrue hb hm =>
      have ⟨h₁, h₂⟩ := Bool.and_eq_true_iff.mp hm
      rw [Bool.not_eq_true] at hb
      have ⟨hp₁, hp₂⟩ := Rect.mem_intersected.mp (Rect.corner_mem hb)
      exact iff_of_true rfl ⟨_, (mem_of_mem_of_single he h₁).mpr hp₁, (mem_of_mem_of_single he' h₂).mpr hp₂⟩
    case isFalse =>
      rw [List.any_eq_true]
      constructor
      case mp =>
        intro ⟨rect, hrect, h⟩
        have ⟨p, hp, hpr⟩ := (intersectsRect_iff hr (c'.banded.nonempty rect hrect)).mp h
        exact ⟨p, hpr, rect, hrect, hp⟩
      case mpr =>
        intro ⟨p, hpr, rect, hrect, hp⟩
        exact ⟨rect, hrect, (intersectsRect_iff hr (c'.banded.nonempty rect hrect)).mpr ⟨p, hp, hpr⟩⟩

theorem queries_correct {s : Region} {q : Rect} (hr : r.WellFormed) (hs : s.WellFormed) (hq : q.isEmpty = false) :
    (∀ p, r.containsPoint p ↔ p ∈ r) ∧
    (r.contains q ↔ ∀ p ∈ q, p ∈ r) ∧
    (r.intersectsRect q ↔ ∃ p ∈ q, p ∈ r) ∧
    (r.intersects s ↔ ∃ p, p ∈ r ∧ p ∈ s) ∧
    (r.isEmpty → ∀ p, r.containsPoint p = false ∧ r.contains q = false ∧ r.intersectsRect q = false ∧
      r.intersects s = false) ∧
    (s.isEmpty → r.intersects s = false) ∧
    ∀ rect : Rect, rect.isEmpty → r.contains rect = false ∧ r.intersectsRect rect = false := by
  refine ⟨fun _ => containsPoint_iff hr, contains_iff hr hq, intersectsRect_iff hr hq, intersects_iff hr hs, ?_, ?_, ?_⟩
  · intro he p
    simp [containsPoint, contains, intersectsRect, intersects, he]
  · intro he
    simp [intersects, he]
  · intro rect he
    simp [contains, intersectsRect, he]

theorem queries_correct_corner_strip :
    corner.intersects strip ↔ ∃ p, p ∈ corner ∧ p ∈ strip :=
  (queries_correct (q := ⟨0, 0, 1, 1⟩) (by decide) (by decide) (by decide)).2.2.2.1

end KWin.Region
