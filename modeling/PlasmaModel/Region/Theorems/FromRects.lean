import PlasmaModel.Region.FromRects
import PlasmaModel.Region.Theorems.Operations

namespace KWin.Region

open IntervalList

section

variable {b c : Band} {bs cs : List Band} {l₁ l₂ : List Rect} {p : Point} {x y : Int} {bounds₁ bounds₂ : Rect}

theorem Band.spans_eq_of_covers (h : ∀ x, b.Covers x ↔ c.Covers x) : b.spans = c.spans :=
  b.separated.eq_of_covers c.separated h

theorem Band.exists_covers (b : Band) : ∃ x, b.Covers x :=
  have ⟨r, _, hr, _⟩ := b.exists_cons
  ⟨r.left, r, by simp [hr], le_rfl, b.separated.nonempty r (by simp [hr])⟩

theorem Band.ext_spans (ht : b.top = c.top) (hb : b.bottom = c.bottom) (hs : b.spans = c.spans) :
    b.rects = c.rects := by
  have hrects : ∀ d : Band, d.rects = d.spans.map fun span => ⟨span.1, d.top, span.2, d.bottom⟩ := fun d => by
    conv_lhs => rw [← List.map_id d.rects]
    rw [Band.spans, List.map_map]
    refine List.map_congr_left fun r hr => ?_
    rw [Function.comp, ← (d.aligned r hr).1, ← (d.aligned r hr).2]
    rfl
  rw [hrects b, hrects c, ht, hb, hs]

-- The top edge of the first band is the topmost row which is covered.
theorem Stacked.top_le (s : Stacked (b :: bs)) (h : Covered (b :: bs) p) : b.top ≤ p.y := by
  have ⟨d, hd, hp⟩ := h
  have hy := (Band.mem_iff.mp hp).1.1
  cases List.mem_cons.mp hd
  case inl hd => exact hd ▸ hy
  case inr hd =>
    have := s.bottom_le hd
    have := b.ordered
    omega

theorem Stacked.covered_top (s : Stacked (b :: bs)) : Covered (b :: bs) ⟨x, b.top⟩ ↔ b.Covers x := by
  rw [s.covered_of_lt b.ordered, and_iff_right le_rfl]

theorem Stacked.exists_covered_top (s : Stacked (b :: bs)) : ∃ x, Covered (b :: bs) ⟨x, b.top⟩ :=
  have ⟨x, hx⟩ := b.exists_covers
  ⟨x, s.covered_top.mpr hx⟩

-- Right below the first band, the row differs from the rows of the band.
theorem Stacked.not_covers_bottom (s : Stacked (b :: bs)) :
    ¬∀ x, Covered (b :: bs) ⟨x, b.bottom⟩ ↔ b.Covers x := by
  intro h
  have hrow : ∀ x, Covered bs ⟨x, b.bottom⟩ ↔ b.Covers x := fun x => by
    rw [← h x, covered_of_bottom_le (p := ⟨x, b.bottom⟩) le_rfl]
  have ⟨x, hx⟩ := b.exists_covers
  cases bs
  case nil => simpa using (hrow x).mpr hx
  case cons d bs =>
    have htop : d.top ≤ b.bottom := s.tail.top_le ((hrow x).mpr hx)
    have heq : b.bottom = d.top := le_antisymm (s.bottom_le List.mem_cons_self) htop
    refine (List.isChain_cons_cons.mp s).1.2 heq (Band.spans_eq_of_covers fun x => ?_)
    rw [← hrow x, heq, s.tail.covered_top]

theorem Stacked.bottom_le_of_covered (s : Stacked (b :: bs)) (s' : Stacked (c :: cs)) (ht : b.top = c.top)
    (hs : ∀ x, b.Covers x ↔ c.Covers x) (h : ∀ p, Covered (b :: bs) p ↔ Covered (c :: cs) p) :
    c.bottom ≤ b.bottom := by
  by_contra hlt
  refine s.not_covers_bottom fun x => ?_
  rw [h, s'.covered_of_lt (p := ⟨x, b.bottom⟩) (not_le.mp hlt), hs x]
  exact and_iff_right (ht ▸ b.ordered.le)

-- The bands are determined by the points which they cover.
theorem Stacked.flatten_eq (s : Stacked bs) (s' : Stacked cs) (h : ∀ p, Covered bs p ↔ Covered cs p) :
    flatten bs = flatten cs := by
  induction bs generalizing cs
  case nil =>
    cases cs
    case nil => rfl
    case cons c cs =>
      have ⟨x, hx⟩ := s'.exists_covered_top
      exact absurd ((h _).mpr hx) (by simp)
  case cons b bs ih =>
    cases cs
    case nil =>
      have ⟨x, hx⟩ := s.exists_covered_top
      exact absurd ((h _).mp hx) (by simp)
    case cons c cs =>
      have ht : b.top = c.top := by
        have ⟨x, hx⟩ := s.exists_covered_top
        have ⟨x', hx'⟩ := s'.exists_covered_top
        exact le_antisymm (s.top_le ((h _).mpr hx')) (s'.top_le ((h _).mp hx))
      have hc : ∀ x, b.Covers x ↔ c.Covers x := fun x => by
        rw [← s.covered_top, h, ht, s'.covered_top]
      have hb : b.bottom = c.bottom := le_antisymm
        (s'.bottom_le_of_covered s ht.symm (fun x => (hc x).symm) fun p => (h p).symm)
        (s.bottom_le_of_covered s' ht hc h)
      have htail : ∀ p, Covered bs p ↔ Covered cs p := fun p => by
        by_cases hp : b.bottom ≤ p.y
        case pos => rw [← covered_of_bottom_le hp, h, covered_of_bottom_le (hb ▸ hp)]
        case neg =>
          have habove : ∀ {d : Band} {ds : List Band}, Stacked (d :: ds) → d.bottom = b.bottom → ¬Covered ds p := by
            rintro d ds sd hd ⟨e, he, hm⟩
            have := sd.bottom_le he
            have := (Band.mem_iff.mp hm).1
            omega
          exact iff_of_false (habove s rfl) (habove s' hb.symm)
      rw [flatten_cons, flatten_cons, Band.ext_spans ht hb (Band.spans_eq_of_covers hc), ih s.tail s'.tail htail]

theorem Banded.eq_of_covered (b₁ : Banded l₁) (b₂ : Banded l₂)
    (h : ∀ p, (∃ r ∈ l₁, p ∈ r) ↔ ∃ r ∈ l₂, p ∈ r) : l₁ = l₂ := by
  have ⟨bs, s, hf⟩ := b₁.exists_stacked
  have ⟨cs, s', hf'⟩ := b₂.exists_stacked
  rw [← hf, ← hf'] at h ⊢
  exact s.flatten_eq s' fun p => by rw [covered_iff_mem_flatten, covered_iff_mem_flatten, h]

theorem IsBoundingRect.unique (h₁ : IsBoundingRect l₁ bounds₁) (h₂ : IsBoundingRect l₁ bounds₂) :
    bounds₁ = bounds₂ := by
  have ⟨b₁, ⟨l, hl, hl'⟩, ⟨t, ht, ht'⟩, ⟨r, hr, hr'⟩, ⟨b, hb, hb'⟩⟩ := h₁
  have ⟨b₂, ⟨m, hm, hm'⟩, ⟨u, hu, hu'⟩, ⟨s, hs, hs'⟩, ⟨c, hc, hc'⟩⟩ := h₂
  have := b₂ l hl; have := b₂ t ht; have := b₂ r hr; have := b₂ b hb
  have := b₁ m hm; have := b₁ u hu; have := b₁ s hs; have := b₁ c hc
  cases bounds₁
  cases bounds₂
  simp only [Rect.mk.injEq] at *
  omega

end

variable {r other : Region} {p : Point}

theorem equals_iff : r.equals other ↔ r = other := by
  cases r
  cases other
  simp [equals]

theorem Canonical.eq_of_rects (c : r.Canonical) (c' : other.Canonical) (h : r.rects = other.rects) : r = other := by
  have hb : r.mBounds = other.mBounds := c.bounds.unique (h ▸ c'.bounds)
  have hrects : ∀ {d : Region}, d.Canonical → d.rects = if d.mRects.isEmpty then [d.mBounds] else d.mRects :=
    fun hd => by rw [rects, if_neg (by simp [hd.isEmpty_eq_false])]
  rw [hrects c, hrects c', hb] at h
  have h₁ := c.notSingle
  have h₂ := c'.notSingle
  have hm : r.mRects = other.mRects := by
    split at h <;> split at h
    case isTrue.isTrue e₁ e₂ => rw [List.isEmpty_iff.mp e₁, List.isEmpty_iff.mp e₂]
    -- A list of one rectangle is never stored.
    case isTrue.isFalse => exact absurd (congrArg List.length h).symm h₂
    case isFalse.isTrue => exact absurd (congrArg List.length h) h₁
    case isFalse.isFalse => exact h
  cases r
  cases other
  simp_all

theorem equals_iff_same_points :
    (r.WellFormed → other.WellFormed → r.isEmpty = false → other.isEmpty = false →
      (∀ p, p ∈ r ↔ p ∈ other) → r.equals other = true) ∧
    (r.equals other = true → ∀ p, p ∈ r ↔ p ∈ other) where
  left hr ho er eo h := by
    have c := hr.canonical er
    have c' := ho.canonical eo
    exact equals_iff.mpr (c.eq_of_rects c' (c.banded.eq_of_covered c'.banded h))
  right h p := by rw [equals_iff.mp h]

theorem equals_iff_same_points_corner : corner.equals corner = true :=
  equals_iff_same_points.1 (by decide) (by decide) (by decide) (by decide) fun _ => Iff.rfl

end KWin.Region

namespace KWin.Region

open IntervalList

variable {scanline y y' top bottom : Int} {buffer remaining rects rest emitted out : List Rect} {rect : Rect}
variable {p : Point} {bands bands' : List Band} {cur : BandRef} {next : List Rect × BandRef} {P : Int → Prop}
variable {E E' F : Point → Prop}

theorem organizedRects_row (r : IsRow top bottom emitted.reverse P)
    (hs : rects.Pairwise fun a b => a.left ≤ b.left) (hn : ∀ rect ∈ rects, rect.left < rect.right)
    (hl : ∀ e ∈ emitted.head?, ∀ rect ∈ rects, e.left ≤ rect.left) :
    IsRow top bottom (rects.foldl (fun emitted rect => mergeRect top bottom rect emitted) emitted).reverse
      fun x => P x ∨ Covers Rect.left Rect.right rects x := by
  induction rects generalizing emitted P
  case nil => simpa using r
  case cons rect rects ih =>
    have ⟨hrect, hs⟩ := List.pairwise_cons.mp hs
    have he : ∀ e ∈ emitted.head?, e.left ≤ rect.left := fun e he => hl e he rect (by simp)
    have he' := mergeRect_head_left top bottom he
    refine (ih (mergeRect_row r (hn rect (by simp)) he) hs (fun a ha => hn a (by simp [ha])) ?_).congr fun x => ?_
    · intro e hm a ha
      exact (he' e hm).trans (hrect a ha)
    · simp only [covers_cons, or_assoc]

-- The buffer holds rectangles that the scanline cuts.
structure Buffered (scanline : Int) (buffer : List Rect) : Prop where
  sorted : buffer.Pairwise fun a b => a.left ≤ b.left
  wide   : ∀ r ∈ buffer, r.left < r.right
  active : ∀ r ∈ buffer, r.top ≤ scanline ∧ scanline < r.bottom

theorem Buffered.nil : Buffered scanline [] := by
  constructor <;> simp

theorem Buffered.insertRect (h : Buffered scanline buffer) (hn : rect.isEmpty = false) (ht : rect.top = scanline) :
    Buffered scanline (insertRect buffer rect) := by
  have hrect := Rect.isEmpty_false_iff.mp hn
  have hmem : ∀ r, r ∈ Region.insertRect buffer rect ↔ r = rect ∨ r ∈ buffer := fun r => by simp [Region.insertRect]
  have : Std.Total fun a b : Rect => a.left ≤ b.left := ⟨fun a b => Int.le_total a.left b.left⟩
  have : IsTrans Rect fun a b => a.left ≤ b.left := ⟨fun _ _ _ => Int.le_trans⟩
  refine ⟨h.sorted.orderedInsert rect buffer, fun r hr => ?_, fun r hr => ?_⟩
  · cases (hmem r).mp hr with
    | inl heq => exact heq ▸ hrect.1
    | inr hr => exact h.wide r hr
  · cases (hmem r).mp hr with
    | inl heq => exact heq ▸ ⟨ht.le, ht ▸ hrect.2⟩
    | inr hr => exact h.active r hr

theorem mem_foldl_insertRect {r : Rect} : r ∈ rects.foldl insertRect buffer ↔ r ∈ buffer ∨ r ∈ rects := by
  induction rects generalizing buffer
  case nil => simp
  case cons rect rects ih => simp [ih, insertRect, or_assoc, or_left_comm]

theorem Buffered.pushRects (h : Buffered scanline buffer) (hn : ∀ r ∈ rects, r.isEmpty = false) :
    Buffered scanline (pushRects scanline buffer rects) := by
  have hpushed : ∀ r ∈ rects.takeWhile (·.top = scanline), r.isEmpty = false ∧ r.top = scanline := fun r hr =>
    ⟨hn r ((List.takeWhile_sublist _).mem hr), by simpa using List.mem_takeWhile_imp hr⟩
  rw [Region.pushRects]
  generalize rects.takeWhile (·.top = scanline) = pushed at hpushed
  induction pushed generalizing buffer
  case nil => exact h
  case cons r pushed ih =>
    obtain ⟨hr, hpushed⟩ := List.forall_mem_cons.mp hpushed
    exact ih (h.insertRect hr.1 hr.2) hpushed

theorem Buffered.eraseBottom (h : Buffered scanline buffer) (hb : nearestBottom buffer = some bottom) :
    Buffered bottom (eraseBottom bottom buffer) := by
  have ⟨⟨r, hr, hbottom⟩, hmin⟩ := nearestBottom_eq_some.mp hb
  have hlt := (h.active r hr).2
  have hmem : ∀ a ∈ Region.eraseBottom bottom buffer, a ∈ buffer ∧ a.bottom ≠ bottom := fun a ha => by
    simpa [Region.eraseBottom] using ha
  refine ⟨h.sorted.filter _, fun a ha => h.wide a (hmem a ha).1, fun a ha => ⟨?_, ?_⟩⟩
  · have := h.active a (hmem a ha).1
    omega
  · have := hmin a (hmem a ha).1
    have := (hmem a ha).2
    omega

theorem Buffered.mono (h : Buffered scanline buffer) (hle : scanline ≤ y) (hb : ∀ r ∈ buffer, y < r.bottom) :
    Buffered y buffer :=
  ⟨h.sorted, h.wide, fun r hr => ⟨(h.active r hr).1.trans hle, hb r hr⟩⟩

-- A scanline which no rectangle of the buffer ends above moves over a row of the same rectangles.
theorem organizeBand_extends (s : Stacked bands) (o : Open bands cur scanline) (h : Buffered scanline buffer)
    (hlt : scanline < y) (hy : ∀ r ∈ buffer, y ≤ r.bottom) :
    ∃ bands', Extends bands (fun p => (scanline ≤ p.y ∧ p.y < y) ∧ Drawn buffer p) y
      (organizeBand (flatten bands) buffer scanline y cur) bands' := by
  have hnil : IsRow scanline y ([] : List Rect).reverse fun _ => False := IsRow.nil
  have ⟨bands', e, _⟩ := emitBand_extends s o (organizedRects_row hnil h.sorted h.wide (by simp)) hlt
  refine ⟨bands', e.congr fun p => and_congr_right fun hp => ?_⟩
  rw [false_or]
  constructor
  case mp =>
    intro ⟨r, hr, hx⟩
    have := h.active r hr
    have := hy r hr
    exact ⟨r, hr, Rect.mem_iff.mpr ⟨hx, by omega⟩⟩
  case mpr =>
    intro ⟨r, hr, hp⟩
    exact ⟨r, hr, (Rect.mem_iff.mp hp).1⟩

-- The rest of a sweep adds the points `E` to `bands`.
def Completes (bands : List Band) (E : Point → Prop) (out : List Rect) : Prop :=
  ∃ bands', out = flatten bands' ∧ Stacked bands' ∧ ∀ p, Covered bands' p ↔ Covered bands p ∨ E p

theorem Extends.completes (e : Extends bands E y next bands') (h : Completes bands' E' out)
    (hF : ∀ p, F p ↔ E p ∨ E' p) : Completes bands F out := by
  have ⟨bands₂, hout, hs, hc⟩ := h
  exact ⟨bands₂, hout, hs, fun p => by rw [hc, e.covered, hF, or_assoc]⟩

theorem Drawn.eraseBottom_iff (hp : bottom ≤ p.y) : Drawn (eraseBottom bottom buffer) p ↔ Drawn buffer p := by
  constructor
  case mp =>
    intro ⟨r, hr, hpr⟩
    exact ⟨r, List.mem_of_mem_filter hr, hpr⟩
  case mpr =>
    intro ⟨r, hr, hpr⟩
    have := (Rect.mem_iff.mp hpr).2
    exact ⟨r, by simp [eraseBottom, hr]; omega, hpr⟩

theorem drainBuffer_completes (s : Stacked bands) (o : Open bands cur scanline) (h : Buffered scanline buffer) :
    Completes bands (fun p => scanline ≤ p.y ∧ Drawn buffer p) (drainBuffer (flatten bands) cur scanline buffer) := by
  generalize hm : flatten bands = mRects
  fun_induction drainBuffer mRects cur scanline buffer generalizing bands
  case case1 hb =>
    cases nearestBottom_eq_none.mp hb
    exact ⟨bands, hm.symm, s, by simp [Drawn]⟩
  case case2 mRects cur scanline buffer bottom hb next ih =>
    obtain ⟨⟨r, hr, hbottom⟩, hmin⟩ := nearestBottom_eq_some.mp hb
    have hlt : scanline < bottom := hbottom ▸ (h.active r hr).2
    obtain ⟨bands', e⟩ := organizeBand_extends s o h hlt hmin
    rw [hm] at e
    refine e.completes (ih e.stacked e.stillOpen (h.eraseBottom hb) e.rects.symm) fun p => ?_
    by_cases hp : bottom ≤ p.y
    case pos => simp [hp, Drawn.eraseBottom_iff hp, hlt.le.trans hp]
    case neg => simp [hp, not_le.mp hp]

-- A sorted list is read from the scanline on, and the buffer is empty only if something is pushed next.
structure Queued (scanline : Int) (buffer rects : List Rect) : Prop where
  sorted   : rects.Pairwise fun a b => a.top ≤ b.top
  nonempty : ∀ r ∈ rects, r.isEmpty = false
  ahead    : ∀ r ∈ rects, scanline ≤ r.top
  pushes   : buffer = [] → ∀ r ∈ rects.head?, r.top = scanline

theorem drawn_append {l₁ l₂ : List Rect} : Drawn (l₁ ++ l₂) p ↔ Drawn l₁ p ∨ Drawn l₂ p := by
  simp [Drawn, or_and_right, exists_or]

theorem drawn_pushRects (hr : rects.dropWhile (·.top = scanline) = rest) :
    Drawn (pushRects scanline buffer rects) p ∨ Drawn rest p ↔ Drawn buffer p ∨ Drawn rects p := by
  have hpush : Drawn (pushRects scanline buffer rects) p ↔
      Drawn buffer p ∨ Drawn (rects.takeWhile (·.top = scanline)) p := by
    simp [Drawn, pushRects, mem_foldl_insertRect, or_and_right, exists_or]
  rw [hpush, or_assoc, ← drawn_append, ← hr, List.takeWhile_append_dropWhile]

namespace Queued

theorem top_le (q : Queued scanline buffer rects) (hr : rects.dropWhile (·.top = scanline) = rect :: rest) :
    scanline < rect.top ∧ (∀ r ∈ rect :: rest, rect.top ≤ r.top) := by
  have hsub : (rect :: rest).Sublist rects := hr ▸ List.dropWhile_sublist _
  have hne : rect.top ≠ scanline := by
    simpa [hr] using List.head_dropWhile_not (fun a : Rect => decide (a.top = scanline)) (l := rects) (by simp [hr])
  have hle := q.ahead rect (hsub.mem (by simp))
  refine ⟨by omega, List.forall_mem_cons.mpr ⟨le_rfl, fun r h => ?_⟩⟩
  exact List.rel_of_pairwise_cons (q.sorted.sublist hsub) h

theorem pushRects_ne_nil (q : Queued scanline buffer rects) (hr : rects.dropWhile (·.top = scanline) = rect :: rest) :
    pushRects scanline buffer rects ≠ [] := by
  intro hnil
  have hlength := congrArg List.length hnil
  rw [length_pushRects, List.length_nil, Nat.add_eq_zero_iff, List.length_eq_zero_iff] at hlength
  cases rects with
  | nil => cases hr
  | cons r rects =>
    have hpush := q.pushes hlength.1 r rfl
    simp [hpush] at hlength

theorem moved (q : Queued scanline buffer rects) (hr : rects.dropWhile (·.top = scanline) = rect :: rest)
    (hle : y ≤ rect.top) (hpush : remaining = [] → rect.top = y) : Queued y remaining (rect :: rest) where
  sorted   := q.sorted.sublist (hr ▸ List.dropWhile_sublist _)
  nonempty r h := q.nonempty r ((hr ▸ List.dropWhile_sublist _ : (rect :: rest).Sublist rects).mem h)
  ahead r h := hle.trans ((q.top_le hr).2 r h)
  pushes h := by simpa using hpush h

end Queued

-- One step of the sweep: the row above `y` is emitted, and the scanline moves on to `y'`.
theorem Extends.completes_step
    (e : Extends bands (fun p => (scanline ≤ p.y ∧ p.y < y) ∧ Drawn buffer p) y next bands')
    (h : Completes bands' (fun p => y' ≤ p.y ∧ (Drawn remaining p ∨ Drawn rest p)) out)
    (hs : scanline ≤ y) (hy : y ≤ y') (hrest : ∀ r ∈ rest, y' ≤ r.top)
    (hbuffer : ∀ p, y ≤ p.y → (Drawn buffer p ↔ Drawn remaining p ∧ y' ≤ p.y)) :
    Completes bands (fun p => scanline ≤ p.y ∧ (Drawn buffer p ∨ Drawn rest p)) out := by
  refine e.completes h fun p => ?_
  have hrest : Drawn rest p → y' ≤ p.y := fun ⟨r, hr, hp⟩ => (hrest r hr).trans (Rect.mem_iff.mp hp).2.1
  by_cases hp : y ≤ p.y
  case pos =>
    rw [hbuffer p hp]
    grind
  case neg => grind

theorem sweepRects_completes (s : Stacked bands) (o : Open bands cur scanline) (h : Buffered scanline buffer)
    (q : Queued scanline buffer rects) :
    ∃ out, sweepRects (flatten bands) cur scanline buffer rects = some out ∧
      Completes bands (fun p => scanline ≤ p.y ∧ (Drawn buffer p ∨ Drawn rects p)) out := by
  generalize hm : flatten bands = mRects
  fun_induction sweepRects mRects cur scanline buffer rects generalizing bands
  case case1 mRects cur scanline buffer rects hr =>
    refine ⟨_, rfl, ?_⟩
    have hdrain := drainBuffer_completes s o (h.pushRects q.nonempty)
    simp only [← drawn_pushRects hr]
    simpa [Drawn, hm] using hdrain
  case case2 hr hb => exact absurd (nearestBottom_eq_none.mp hb) (q.pushRects_ne_nil hr)
  case case3 mRects cur scanline buffer rects rect rest hr bottom hb next hmin remaining ih =>
    obtain ⟨htop, hle⟩ := q.top_le hr
    have hb' := h.pushRects q.nonempty
    obtain ⟨⟨r, hrm, hbottom⟩, hbmin⟩ := nearestBottom_eq_some.mp hb
    have hlt : scanline < bottom := hbottom ▸ (hb'.active r hrm).2
    have hbt : bottom ≤ rect.top := by omega
    obtain ⟨bands', e⟩ := organizeBand_extends s o hb' hlt hbmin
    have hnext : next = organizeBand mRects (pushRects scanline buffer rects) scanline bottom cur := by
      rw [← hmin]
    rw [hm, ← hnext] at e
    -- The scanline skips the gap to the next rectangle if nothing remains in the buffer.
    have hy : bottom ≤ (if remaining.isEmpty then rect.top else bottom) ∧
        (if remaining.isEmpty then rect.top else bottom) ≤ rect.top := by split <;> omega
    have hbuffered : Buffered (if remaining.isEmpty then rect.top else bottom) remaining := by
      split
      case isTrue he => exact List.isEmpty_iff.mp he ▸ Buffered.nil
      case isFalse => exact hb'.eraseBottom hb
    have hpush (he : remaining = []) : rect.top = if remaining.isEmpty then rect.top else bottom := by simp [he]
    obtain ⟨out, hout, hc⟩ := ih e.stacked (e.stillOpen.mono hy.1) hbuffered (q.moved hr hy.2 hpush) e.rects.symm
    refine ⟨out, hout, ?_⟩
    simp only [← drawn_pushRects hr]
    refine e.completes_step hc hlt.le hy.1 (fun r hr => hy.2.trans (hle r hr)) fun p hp => ?_
    rw [← Drawn.eraseBottom_iff hp]
    refine (and_iff_left_of_imp fun hd => ?_).symm
    obtain ⟨a, ha, _⟩ := hd
    have hne : remaining ≠ [] := List.ne_nil_of_mem ha
    rw [dif_neg (by simp [hne])]
    exact hp
  case case4 mRects cur scanline buffer rects rect rest hr bottom hb next hmin ih =>
    obtain ⟨htop, hle⟩ := q.top_le hr
    have hb' := h.pushRects q.nonempty
    obtain ⟨_, hbmin⟩ := nearestBottom_eq_some.mp hb
    have hmin : min rect.top bottom = rect.top := by omega
    have hlt : ∀ r ∈ pushRects scanline buffer rects, rect.top < r.bottom := fun r hr => by
      have := hbmin r hr
      omega
    obtain ⟨bands', e⟩ := organizeBand_extends s o hb' htop fun r hr => (hlt r hr).le
    have hnext : next = organizeBand mRects (pushRects scanline buffer rects) scanline rect.top cur := by
      rw [← hmin]
    rw [hm, ← hnext] at e
    simp only [← drawn_pushRects hr]
    rw [hmin] at ih ⊢
    have q' : Queued rect.top (pushRects scanline buffer rects) (rect :: rest) := q.moved hr le_rfl fun _ => rfl
    obtain ⟨out, hout, hc⟩ := ih e.stacked e.stillOpen (hb'.mono htop.le hlt) q' e.rects.symm
    refine ⟨out, hout, ?_⟩
    exact e.completes_step hc htop.le le_rfl hle fun p hp => (and_iff_left hp).symm

theorem assignRectsSortedByY_banded (hne : rects ≠ []) (hn : ∀ r ∈ rects, r.isEmpty = false)
    (hs : rects.Pairwise fun a b => a.top ≤ b.top) :
    ∃ out, assignRectsSortedByY rects = some out ∧ Banded out ∧ ∀ p, Drawn out p ↔ Drawn rects p := by
  obtain ⟨rect, rest, hcons⟩ := List.exists_cons_of_ne_nil hne
  subst hcons
  have hle : ∀ r ∈ rect :: rest, rect.top ≤ r.top :=
    List.forall_mem_cons.mpr ⟨le_rfl, fun r h => List.rel_of_pairwise_cons hs h⟩
  have hq : Queued rect.top [] (rect :: rest) := ⟨hs, hn, hle, by simp⟩
  obtain ⟨out, hout, bands, hbands, hstacked, hc⟩ := sweepRects_completes .nil Open.nil Buffered.nil hq
  refine ⟨out, hout, hbands ▸ hstacked.banded, fun p => ?_⟩
  rw [hbands, Drawn, ← covered_iff_mem_flatten, hc, covered_nil, false_or]
  constructor
  case mp =>
    rintro ⟨_, h⟩
    exact h.resolve_left (by simp [Drawn])
  case mpr =>
    rintro ⟨r, hr, hp⟩
    exact ⟨(hle r hr).trans (Rect.mem_iff.mp hp).2.1, .inr ⟨r, hr, hp⟩⟩

theorem fromRectsSortedByY_draws (hn : ∀ r ∈ rects, r.isEmpty = false) (hs : rects.Pairwise fun a b => a.top ≤ b.top) :
    ∃ r, fromRectsSortedByY rects = some r ∧ r.Draws (Drawn rects) := by
  unfold fromRectsSortedByY
  split
  case h_1 => exact ⟨{}, rfl, wellFormed_empty, fun p => iff_of_false not_mem_empty (by simp [Drawn])⟩
  case h_2 rect => exact ⟨ofRect rect, rfl, wellFormed_ofRect rect, fun p => mem_ofRect.trans (by simp [Drawn])⟩
  case h_3 hne _ =>
    obtain ⟨out, hout, hb, hc⟩ := assignRectsSortedByY_banded hne hn hs
    obtain ⟨hw, hp⟩ := computeBounds_wellFormed hb
    exact ⟨computeBounds out, by rw [hout, Option.map_some], hw, fun p => (hp p).trans (hc p)⟩

theorem fromUnsortedRects_draws (sort : RectSort) (hn : ∀ r ∈ rects, r.isEmpty = false) :
    ∃ r, fromUnsortedRects sort rects = some r ∧ r.Draws (Drawn rects) := by
  unfold fromUnsortedRects
  split
  case h_1 => exact ⟨{}, rfl, wellFormed_empty, fun p => iff_of_false not_mem_empty (by simp [Drawn])⟩
  case h_2 rect => exact ⟨ofRect rect, rfl, wellFormed_ofRect rect, fun p => mem_ofRect.trans (by simp [Drawn])⟩
  case h_3 =>
    have hperm := sort.perm rects
    obtain ⟨r, hr, hw, hp⟩ := fromRectsSortedByY_draws (fun r h => hn r (hperm.mem_iff.mp h)) (sort.sorted rects)
    exact ⟨r, hr, hw, fun p => (hp p).trans (by simp [Drawn, hperm.mem_iff])⟩

section

variable {r other : Region}

-- Two regions with the same points are the same one.
theorem Draws.eq (hr : r.Draws E) (ho : other.Draws E) (h : E p) : r = other := by
  have hne {d : Region} (hd : d.Draws E) : d.isEmpty = false := by
    cases he : d.isEmpty with
    | true => exact absurd ((hd.2 p).mpr h) (not_mem_of_isEmpty he)
    | false => rfl
  have c := hr.1.canonical (hne hr)
  have c' := ho.1.canonical (hne ho)
  exact c.eq_of_rects c' (c.banded.eq_of_covered c'.banded fun p => (hr.2 p).trans (ho.2 p).symm)

theorem foldl_united_draws (hr : r.WellFormed) :
    (rects.foldl (fun r rect => r.united (ofRect rect)) r).Draws fun p => p ∈ r ∨ Drawn rects p := by
  induction rects generalizing r
  case nil => exact ⟨hr, by simp [Drawn]⟩
  case cons rect rects ih =>
    obtain ⟨hw, hp⟩ := united_draws hr (wellFormed_ofRect rect)
    obtain ⟨hw', hp'⟩ := ih hw
    exact ⟨hw', fun p => (hp' p).trans (by simp [hp, mem_ofRect, Drawn, or_assoc])⟩

end

theorem foldl_ofRect_draws {α : Type} (f : α → Rect) (l : List α) {r : Region} (hr : r.WellFormed) :
    (l.foldl (fun r x => r.united (ofRect (f x))) r).Draws fun p => p ∈ r ∨ ∃ x ∈ l, p ∈ f x := by
  have hd : Draws _ fun p => p ∈ r ∨ Drawn (l.map f) p := foldl_united_draws hr
  simpa only [List.foldl_map, Drawn, List.mem_map, exists_exists_and_eq_and] using hd

theorem exists_drawn (hn : ∀ r ∈ rects, r.isEmpty = false) (hne : rects ≠ []) : ∃ p, Drawn rects p := by
  have ⟨rect, hrect⟩ := List.exists_mem_of_ne_nil rects hne
  exact ⟨⟨rect.left, rect.top⟩, rect, hrect, Rect.corner_mem (hn rect hrect)⟩

theorem fromUnsortedRects_correct (sort : RectSort) (hn : ∀ r ∈ rects, r.isEmpty = false) :
    ∃ r, fromUnsortedRects sort rects = some r ∧ r.WellFormed ∧ (∀ p, p ∈ r ↔ ∃ rect ∈ rects, p ∈ rect) ∧
      (∀ (sort' : RectSort) (rects' : List Rect), rects'.Perm rects → fromUnsortedRects sort' rects' = some r) ∧
      rects.foldl (fun r rect => r.united (ofRect rect)) {} = r := by
  have ⟨r, hr, hd⟩ := fromUnsortedRects_draws sort hn
  have hfold : Draws (rects.foldl (fun r rect => r.united (ofRect rect)) {}) (Drawn rects) :=
    have hfold := foldl_united_draws wellFormed_empty
    ⟨hfold.1, fun p => (hfold.2 p).trans (or_iff_right not_mem_empty)⟩
  by_cases hne : rects = []
  case pos =>
    subst hne
    cases hr
    exact ⟨{}, rfl, wellFormed_empty, hd.2, fun sort' rects' hperm => by rw [hperm.eq_nil]; rfl, rfl⟩
  case neg =>
    have ⟨p, hp⟩ := exists_drawn hn hne
    refine ⟨r, hr, hd.1, hd.2, fun sort' rects' hperm => ?_, hfold.eq hd hp⟩
    have ⟨r', hr', hw', hp'⟩ := fromUnsortedRects_draws sort' fun r h => hn r (hperm.mem_iff.mp h)
    have hd' : r'.Draws (Drawn rects) := ⟨hw', fun p => (hp' p).trans (by simp [Drawn, hperm.mem_iff])⟩
    rw [hr', hd'.eq hd hp]

def stableSort : RectSort where
  sort rects := rects.mergeSort (·.top ≤ ·.top)
  perm rects := List.mergeSort_perm rects _
  sorted rects := by
    refine (List.pairwise_mergeSort ?_ ?_ rects).imp fun h => by simpa using h
    · simpa using fun a b c => Int.le_trans
    · simpa using fun (a b : Rect) => Int.le_total a.top b.top

-- Two rectangles of which one is listed twice, and a third one below a gap.
theorem fromUnsortedRects_correct_overlaps :
    ∃ r, fromUnsortedRects stableSort [⟨5, 5, 15, 15⟩, ⟨0, 30, 5, 40⟩, ⟨0, 0, 10, 10⟩, ⟨5, 5, 15, 15⟩] = some r ∧
      r.WellFormed :=
  have ⟨r, hr, hw, _⟩ := fromUnsortedRects_correct stableSort (by decide)
  ⟨r, hr, hw⟩

-- What is computed from rectangles by the operations.
inductive Expr
  | ofRect (rect : Rect)
  | united (a b : Expr)
  | subtracted (a b : Expr)
  | intersected (a b : Expr)

namespace Expr

def region : Expr → Region
  | .ofRect rect => Region.ofRect rect
  | .united a b => a.region.united b.region
  | .subtracted a b => a.region.subtracted b.region
  | .intersected a b => a.region.intersected b.region

def Has : Expr → Point → Prop
  | .ofRect rect, p => p ∈ rect
  | .united a b, p => a.Has p ∨ b.Has p
  | .subtracted a b, p => a.Has p ∧ ¬b.Has p
  | .intersected a b, p => a.Has p ∧ b.Has p

theorem region_draws (e : Expr) : e.region.Draws e.Has := by
  induction e with
  | ofRect rect => exact ⟨wellFormed_ofRect rect, fun _ => mem_ofRect⟩
  | united a b ha hb =>
    have ⟨hw, hp⟩ := united_draws ha.1 hb.1
    exact ⟨hw, fun p => (hp p).trans (or_congr (ha.2 p) (hb.2 p))⟩
  | subtracted a b ha hb =>
    have ⟨hw, hp⟩ := subtracted_draws ha.1 hb.1
    exact ⟨hw, fun p => (hp p).trans (and_congr (ha.2 p) (hb.2 p).not)⟩
  | intersected a b ha hb =>
    have ⟨hw, hp⟩ := intersected_draws ha.1 hb.1
    exact ⟨hw, fun p => (hp p).trans (and_congr (ha.2 p) (hb.2 p))⟩

theorem region_equals_iff {a b : Expr} {p : Point} (h : a.Has p) :
    a.region.Draws a.Has ∧ (a.region.equals b.region ↔ ∀ p, a.Has p ↔ b.Has p) := by
  have ha := a.region_draws
  have hb := b.region_draws
  refine ⟨ha, equals_iff.trans ⟨fun heq p => (ha.2 p).symm.trans (heq ▸ hb.2 p), fun hall => ?_⟩⟩
  exact ha.eq ⟨hb.1, fun p => (hb.2 p).trans (hall p).symm⟩ h

theorem region_equals_iff_notch :
    (subtracted (.ofRect ⟨0, 0, 2, 2⟩) (.ofRect ⟨1, 1, 2, 2⟩)).region.equals
      (united (.ofRect ⟨0, 1, 1, 2⟩) (.ofRect ⟨0, 0, 2, 1⟩)).region :=
  (region_equals_iff (p := ⟨0, 0⟩) (by simp [Has, Rect.mem_iff])).2.mpr fun p => by
    simp only [Has, Rect.mem_iff]
    omega

end Expr

end KWin.Region
