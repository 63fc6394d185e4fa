import PlasmaModel.Region.Theorems.BandFunctions

namespace KWin.Region

open IntervalList

-- Where a sweep stands when it has emitted `bands` above `y`: in the last one of these, or in an empty band.
structure Open (bands : List Band) (currentBand : BandRef) (y : Int) : Prop where
  stop  : currentBand.stop = (flatten bands).length
  start : (∃ bs b, bands = bs ++ [b] ∧ currentBand.start = (flatten bs).length ∧ b.bottom ≤ y) ∨
          (currentBand.start = currentBand.stop ∧ ∀ b ∈ bands, b.bottom < y)

-- `next` is the state of a sweep after it has extended `bands` to `bands'` by the points `E`.
structure Extends
    (bands : List Band) (E : Point → Prop) (y : Int) (next : List Rect × BandRef)
    (bands' : List Band) : Prop where
  rects     : next.1 = flatten bands'
  stacked   : Stacked bands'
  stillOpen : Open bands' next.2 y
  covered   : ∀ p, Covered bands' p ↔ Covered bands p ∨ E p

variable {bands bands' bs cs left right : List Band} {b c l r : Band} {cur : BandRef}
variable {y y' scanline : Int} {p : Point} {out mRects : List Rect} {P : Int → Prop}
variable {E : Point → Prop} {next : List Rect × BandRef} {f : Prop → Prop → Prop} {op : Sweep}

theorem stacked_append_singleton_iff :
    Stacked (bs ++ [b]) ↔ Stacked bs ∧ ∀ a ∈ bs.getLast?, a.Above b := by
  simp [Stacked, List.isChain_append]

theorem Stacked.bottom_le_last (s : Stacked (bs ++ [b])) (h : c ∈ bs ++ [b]) : c.bottom ≤ b.bottom := by
  cases List.mem_append.mp h
  case inl h =>
    have := (List.pairwise_append.mp s.pairwise).2.2 c h b (by simp)
    have := b.ordered
    omega
  case inr h => simp_all

theorem Open.nil : Open [] {} y :=
  ⟨rfl, .inr ⟨rfl, by simp⟩⟩

theorem Open.mono (o : Open bands cur y) (h : y ≤ y') : Open bands cur y' where
  stop  := o.stop
  start := o.start.imp (fun ⟨bs, b, h₁, h₂, h₃⟩ => ⟨bs, b, h₁, h₂, h₃.trans h⟩)
    fun ⟨h₁, h₂⟩ => ⟨h₁, fun b hb => (h₂ b hb).trans_le h⟩

theorem Open.bottom_le (o : Open bands cur y) (s : Stacked bands) (h : b ∈ bands) : b.bottom ≤ y := by
  rcases o.start with ⟨bs, b, rfl, _, hb⟩ | ⟨_, hb⟩
  · exact (s.bottom_le_last h).trans hb
  · exact (hb b h).le

theorem Extends.refl (s : Stacked bands) (o : Open bands cur y) :
    Extends bands (fun _ => False) y (flatten bands, cur) bands :=
  ⟨rfl, s, o, by simp⟩

theorem Extends.congr {E' : Point → Prop} (e : Extends bands E y next bands') (h : ∀ p, E p ↔ E' p) :
    Extends bands E' y next bands' :=
  ⟨e.rects, e.stacked, e.stillOpen, fun p => (e.covered p).trans (or_congr_right (h p))⟩

-- The band `b`, stretched down to `y`.
def Band.stretch (b : Band) (y : Int) (h : b.top < y) : Band where
  top       := b.top
  bottom    := y
  rects     := b.rects.map (·.setBottom y)
  ordered   := h
  nonempty  := by simp [b.nonempty]
  aligned   := by simpa [Rect.setBottom] using fun r hr => (b.aligned r hr).1
  separated := b.separated.map (fun _ => rfl) (fun _ => rfl)

theorem Band.stretch_spans (h : b.top < y) : (b.stretch y h).spans = b.spans := by
  simp [spans, stretch, Rect.setBottom]

theorem Band.stretch_covers (h : b.top < y) : (b.stretch y h).Covers x ↔ b.Covers x :=
  covers_map (fun _ _ => rfl) (fun _ _ => rfl)

theorem covers_iff_covers_spans : b.Covers x ↔ Covers Prod.fst Prod.snd b.spans x :=
  Iff.symm <| covers_map (fun _ _ => rfl) (fun _ _ => rfl)

theorem covers_of_spans_eq (h : b.spans = c.spans) : b.Covers x ↔ c.Covers x := by
  rw [covers_iff_covers_spans, covers_iff_covers_spans, h]

def IsRow.band (r : IsRow y y' out P) (h : y < y') (hn : out ≠ []) : Band :=
  ⟨y, y', out, h, hn, r.aligned, r.separated⟩

theorem BandRef.rects_eq (before band after : List Rect) :
    BandRef.rects ⟨before.length, (before ++ band).length⟩ (before ++ band ++ after) = band := by
  rw [BandRef.rects, List.take_left, List.drop_left]

theorem coalesceBands_eq (before : List Rect) (b c : Band) :
    coalesceBands (before ++ b.rects ++ c.rects)
        ⟨before.length, (before ++ b.rects).length⟩
        ⟨(before ++ b.rects).length, (before ++ b.rects ++ c.rects).length⟩ =
      if b.bottom = c.top ∧ b.spans = c.spans then
        (before ++ b.rects.map (·.setBottom c.bottom), ⟨before.length, (before ++ b.rects).length⟩)
      else
        (before ++ b.rects ++ c.rects,
          ⟨(before ++ b.rects).length, (before ++ b.rects ++ c.rects).length⟩) := by
  have ⟨p, ps, hp, _, hpb⟩ := b.exists_cons
  have ⟨q, qs, hq, hqt, hqb⟩ := c.exists_cons
  have h₁ := BandRef.rects_eq before b.rects c.rects
  have h₂ := BandRef.rects_eq (before ++ b.rects) c.rects []
  rw [List.append_nil] at h₂
  rw [coalesceBands, h₁, h₂]
  split
  case h_1 p' _ q' qs' hp' hq' =>
    obtain ⟨rfl, rfl⟩ := List.cons.inj (hp.symm.trans hp')
    obtain ⟨rfl, rfl⟩ := List.cons.inj (hq.symm.trans hq')
    simp only [← hp, ← hq]
    by_cases hl : b.rects.length = c.rects.length
    case neg =>
      have hs : b.spans ≠ c.spans := fun h => hl (by simpa [Band.spans] using congrArg List.length h)
      rw [if_pos hl, if_neg (fun h => hs h.2)]
    rw [if_neg (not_not.mpr hl), hpb, hqt]
    by_cases hb : b.bottom = c.top
    case neg => rw [if_pos hb, if_neg (fun h => hb h.1)]
    rw [if_neg (not_not.mpr hb)]
    change (if b.spans ≠ c.spans then _ else _) = _
    by_cases hs : b.spans = c.spans
    case neg => rw [if_pos hs, if_neg (fun h => hs h.2)]
    rw [if_neg (not_not.mpr hs), if_pos ⟨hb, hs⟩, List.drop_left, List.append_assoc before, List.take_left,
      hqb, List.drop_eq_nil_of_le (by simp), List.append_nil, List.take_left' (by simp)]
  case h_2 h => exact absurd hq (h _ _ _ _ hp)

-- Emitting a row extends the bands by it, whether it is coalesced with the current band or not.
theorem emitBand_extends (s : Stacked bands) (o : Open bands cur y) (r : IsRow y y' out P) (h : y < y') :
    ∃ bands', Extends bands (fun p => (y ≤ p.y ∧ p.y < y') ∧ P p.x) y'
      (emitBand (flatten bands) out cur) bands' ∧
      (out ≠ [] → ∃ b ∈ bands'.getLast?, b.bottom = y' ∧ b.spans = out.map fun r => (r.left, r.right)) := by
  by_cases hn : out = []
  case pos =>
    subst hn
    have he : emitBand (flatten bands) [] cur = (flatten bands, ⟨cur.stop, (flatten bands).length⟩) := by
      unfold emitBand coalesceBands
      split
      case h_1 hc => simp [BandRef.rects, o.stop] at hc
      case h_2 => simp
    refine ⟨bands, ⟨by rw [he], s, ?_, fun p => ?_⟩, by simp⟩
    · rw [he, ← o.stop]
      exact ⟨o.stop, .inr ⟨rfl, fun b hb => (o.bottom_le s hb).trans_lt h⟩⟩
    · simp [← r.covers]
  case neg =>
    let c := r.band h hn
    have hc : ∀ p, (p ∈ c ↔ (y ≤ p.y ∧ p.y < y') ∧ P p.x) := fun p =>
      and_congr_right fun _ => r.covers p.x
    -- Without coalescing, the row is a new band.
    have append (ha : ∀ a ∈ bands.getLast?, a.Above c)
        (he : emitBand (flatten bands) out cur =
          (flatten bands ++ out, ⟨cur.stop, (flatten bands ++ out).length⟩)) :
        Extends bands (fun p => (y ≤ p.y ∧ p.y < y') ∧ P p.x) y'
          (emitBand (flatten bands) out cur) (bands ++ [c]) := by
      refine ⟨?_, stacked_append_singleton_iff.mpr ⟨s, ha⟩, ⟨?_, .inl ⟨bands, c, rfl, ?_, le_rfl⟩⟩, ?_⟩
      · simp [he, c, IsRow.band]
      · simp [he, c, IsRow.band]
      · simp [he, o.stop]
      · simp [hc]
    rcases o.start with ⟨bs, b, rfl, hs, hb⟩ | ⟨hs, hb⟩
    case inl =>
      have hf : flatten (bs ++ [b]) = flatten bs ++ b.rects := by simp
      have hcur : cur = ⟨(flatten bs).length, (flatten bs ++ b.rects).length⟩ := by
        rw [← hs, ← hf, ← o.stop]
      have he := coalesceBands_eq (flatten bs) b c
      change coalesceBands (flatten bs ++ b.rects ++ out) _ _ = _ at he
      rw [← hcur, ← hf, ← o.stop] at he
      change emitBand (flatten (bs ++ [b])) out cur = _ at he
      by_cases hm : b.bottom = c.top ∧ b.spans = c.spans
      case neg =>
        rw [if_neg hm] at he
        refine ⟨_, append ?_ ?_, fun _ => ⟨c, by simp, rfl, rfl⟩⟩
        · simpa using ⟨hb, fun h₁ h₂ => hm ⟨h₁, h₂⟩⟩
        · rw [he, hcur]
          simp [c, IsRow.band]
      case pos =>
        rw [if_pos hm] at he
        obtain ⟨sb, ha⟩ := stacked_append_singleton_iff.mp s
        have hby : b.bottom = y := hm.1
        have hlt : b.top < y' := by have := b.ordered; omega
        have hs' := Band.stretch_spans hlt
        refine ⟨bs ++ [b.stretch y' hlt], ⟨?_, ?_, ⟨?_, .inl ⟨bs, _, rfl, ?_, le_rfl⟩⟩, ?_⟩, ?_⟩
        · rw [he]
          simp [Band.stretch, c, IsRow.band]
        · exact stacked_append_singleton_iff.mpr ⟨sb, fun a h => ⟨(ha a h).1, hs' ▸ (ha a h).2⟩⟩
        · rw [he]
          simp [Band.stretch, hcur]
        · rw [he, hs]
        · intro p
          have hcov : b.Covers p.x ↔ P p.x := (covers_of_spans_eq hm.2).trans (r.covers p.x)
          simp only [covered_append, covered_cons, covered_nil, or_false, Band.mem_iff,
            Band.stretch_covers, hcov, or_assoc]
          have := b.ordered
          have ht : (b.stretch y' hlt).top = b.top ∧ (b.stretch y' hlt).bottom = y' := ⟨rfl, rfl⟩
          grind
        · exact fun _ => ⟨_, by simp, rfl, hs'.trans hm.2⟩
    case inr =>
      refine ⟨_, append ?_ ?_, fun _ => ⟨c, by simp, rfl, rfl⟩⟩
      · intro a ha
        have := hb a (List.mem_of_getLast? ha)
        exact ⟨this.le, fun h => absurd h this.ne⟩
      · unfold emitBand coalesceBands
        split
        case h_1 hc _ => simp [BandRef.rects, hs] at hc
        case h_2 => rfl

def advanceBands (y : Int) : List Band → List Band
  | b :: bs => if b.bottom = y then bs else b :: bs
  | [] => []

theorem advanceBand_flatten (s : Stacked bs) (y : Int) :
    advanceBand y (flatten bs) = flatten (advanceBands y bs) := by
  cases bs
  case nil => rfl
  case cons b bs =>
    have ⟨r, rest, h, _, hb⟩ := b.exists_cons
    have hf : flatten (b :: bs) = r :: (rest ++ flatten bs) := by simp [h]
    have ha := s.split_flatten.2
    rw [hf] at ha ⊢
    rw [advanceBand, advanceBands, hb, ha]
    split
    · rfl
    · exact hf.symm

theorem Stacked.advanceBands (s : Stacked bs) : Stacked (advanceBands y bs) := by
  cases bs
  case nil => exact s
  case cons b bs =>
    rw [Region.advanceBands]
    split
    · exact s.tail
    · exact s

-- Bands that end at the scanline have no part below it.
theorem covered_advanceBands (h : y ≤ p.y) : Covered (advanceBands y bs) p ↔ Covered bs p := by
  cases bs
  case nil => rfl
  case cons b bs =>
    rw [advanceBands]
    split
    case isTrue h' => exact (covered_of_bottom_le (h' ▸ h)).symm
    case isFalse => rfl

-- No band ends at or above the scanline.
def AheadBands (scanline : Int) (bs : List Band) : Prop :=
  ∀ b ∈ bs.head?, scanline < b.bottom

theorem advanceBands_ahead (s : Stacked bs) (h : ∀ b ∈ bs.head?, y ≤ b.bottom) :
    AheadBands y (advanceBands y bs) := by
  cases bs
  case nil => simp [advanceBands, AheadBands]
  case cons b bs =>
    have h : y ≤ b.bottom := h b rfl
    rw [advanceBands]
    split
    case isTrue h' =>
      intro c hc
      have := s.bottom_le (List.mem_of_mem_head? hc)
      have := c.ordered
      omega
    case isFalse h' =>
      rintro _ ⟨⟩
      omega

-- The same as `covers_step`, for the iterations of a sweep.
theorem covered_step (f : Prop → Prop → Prop) {E : Prop}
    (sl : Stacked (l :: left)) (sr : Stacked (r :: right))
    (hs : scanline ≤ y) (hy : y ≤ l.bottom ∧ y ≤ r.bottom)
    (he : E ↔ p.y < y ∧ scanline ≤ p.y ∧ f (l.top ≤ p.y ∧ l.Covers p.x) (r.top ≤ p.y ∧ r.Covers p.x)) :
    E ∨ (y ≤ p.y ∧ f (Covered (advanceBands y (l :: left)) p) (Covered (advanceBands y (r :: right)) p)) ↔
      scanline ≤ p.y ∧ f (Covered (l :: left) p) (Covered (r :: right) p) := by
  by_cases hp : y ≤ p.y
  case pos =>
    rw [covered_advanceBands hp, covered_advanceBands hp, he, or_iff_right (by omega),
      iff_true_intro hp, iff_true_intro (hs.trans hp)]
  case neg =>
    rw [sl.covered_of_lt (by omega), sr.covered_of_lt (by omega), he, or_iff_left (by omega),
      iff_true_intro (not_le.mp hp), true_and]

-- The sweep `op` computes the set operation `f`.
structure Sweep.Computes (op : Sweep) (f : Prop → Prop → Prop) : Prop where
  neither      : ¬f False False
  onlyLeft     : ∀ p, f p False ↔ op.sliceLeft ∧ p
  onlyRight    : ∀ p, f False p ↔ op.sliceRight ∧ p
  combineBands : ∀ mRects top bottom cur, ∀ b c : Band, ∃ out,
    op.combineBands mRects b.rects c.rects top bottom cur = emitBand mRects out cur ∧
      IsRow top bottom out fun x => f (b.Covers x) (c.Covers x)

theorem sweepBand_extends (slice : Bool) (b : Band) (s : Stacked bands) (o : Open bands cur scanline)
    (y' : Int) (hs : scanline ≤ y) (h : y < y') :
    ∃ bands', Extends bands (fun p => (y ≤ p.y ∧ p.y < y') ∧ (slice ∧ b.Covers p.x)) y'
      (sweepBand slice (flatten bands) b.rects y y' cur) bands' := by
  cases slice
  case false => exact ⟨bands, (Extends.refl s (o.mono (by omega))).congr (by simp)⟩
  case true =>
    have ⟨bands', e, _⟩ := emitBand_extends s (o.mono hs) (IsRow.sliced b.separated) h
    exact ⟨bands', e.congr fun p => and_congr_right fun _ => by simp [Band.Covers]⟩

theorem combineBands_extends (hop : op.Computes f) (b c : Band) (s : Stacked bands)
    (o : Open bands cur scanline) (y' : Int) (hs : scanline ≤ y) (h : y < y') :
    ∃ bands', Extends bands (fun p => (y ≤ p.y ∧ p.y < y') ∧ f (b.Covers p.x) (c.Covers p.x)) y'
      (op.combineBands (flatten bands) b.rects c.rects y y' cur) bands' := by
  have ⟨out, ho, r⟩ := hop.combineBands (flatten bands) y y' cur b c
  have ⟨bands', e, _⟩ := emitBand_extends s (o.mono hs) r h
  exact ⟨bands', ho ▸ e⟩

theorem sweepTail_stacked (slice : Bool) (s : Stacked bands) (o : Open bands cur scanline)
    (sb : Stacked (b :: bs)) (hb : scanline < b.bottom) :
    ∃ bands', sweepTail slice (flatten bands) (flatten (b :: bs)) scanline cur = flatten bands' ∧
      Stacked bands' ∧
      ∀ p, Covered bands' p ↔ Covered bands p ∨ (scanline ≤ p.y ∧ slice ∧ Covered (b :: bs) p) := by
  obtain ⟨r, rest, hr, ht, hbot⟩ := b.exists_cons
  have hf : flatten (b :: bs) = r :: (rest ++ flatten bs) := by simp [hr]
  cases slice
  case false => exact ⟨bands, by simp [sweepTail], s, by simp⟩
  case true =>
    have hlt : max b.top scanline < b.bottom := by have := b.ordered; omega
    obtain ⟨bands', e, hl⟩ := emitBand_extends s (o.mono (le_max_right b.top scanline))
      (IsRow.sliced b.separated) hlt
    obtain ⟨c, hc, hcb, hcs⟩ := hl (by simp [b.nonempty])
    refine ⟨bands' ++ bs, ?_, ?_, fun p => ?_⟩
    · obtain ⟨h₁, h₂⟩ := sb.split_flatten
      rw [hf] at h₁ h₂ ⊢
      rw [sweepTail, h₁, h₂, ht, hbot, flatten_append, ← e.rects, sliceBand]
    · -- The last emitted band ends where `b` ends, and it has the spans of `b`.
      refine List.IsChain.append e.stacked sb.tail fun a ha d hd => ?_
      obtain rfl : c = a := Option.some.inj (hc.symm.trans ha)
      have hbd := (List.isChain_cons.mp sb).1 d hd
      exact ⟨hcb ▸ hbd.1, fun h => by rw [hcs]; simpa [Band.spans, slicedRect, Function.comp_def] using hbd.2 (hcb ▸ h)⟩
    · rw [covered_append, e.covered, or_assoc]
      refine or_congr_right ?_
      have hbs : Covered bs p → b.bottom ≤ p.y := by
        rintro ⟨c, hc, hp⟩
        exact (sb.bottom_le hc).trans (Band.mem_iff.mp hp).1.1
      simp only [covered_cons, Band.mem_iff, Band.Covers, true_and]
      grind

-- The rest of a sweep yields `out`: it adds the points at or below the scanline to `bands`.
def Yields (f : Prop → Prop → Prop) (bands : List Band) (scanline : Int) (left right : List Band)
    (out : List Rect) : Prop :=
  ∃ bands', out = flatten bands' ∧ Stacked bands' ∧
    ∀ p, Covered bands' p ↔ Covered bands p ∨ (scanline ≤ p.y ∧ f (Covered left p) (Covered right p))

theorem Extends.yields (e : Extends bands E y next bands')
    (sl : Stacked (l :: left)) (sr : Stacked (r :: right))
    (hs : scanline ≤ y) (hy : y ≤ l.bottom ∧ y ≤ r.bottom)
    (he : ∀ p, E p ↔
      p.y < y ∧ scanline ≤ p.y ∧ f (l.top ≤ p.y ∧ l.Covers p.x) (r.top ≤ p.y ∧ r.Covers p.x))
    (h : AheadBands y (advanceBands y (l :: left)) → AheadBands y (advanceBands y (r :: right)) →
      Yields f bands' y (advanceBands y (l :: left)) (advanceBands y (r :: right)) out) :
    Yields f bands scanline (l :: left) (r :: right) out := by
  have ⟨bands₂, h₁, h₂, h₃⟩ := h
    (advanceBands_ahead sl (by rintro _ ⟨⟩; exact hy.1))
    (advanceBands_ahead sr (by rintro _ ⟨⟩; exact hy.2))
  refine ⟨bands₂, h₁, h₂, fun p => ?_⟩
  rw [h₃, e.covered, or_assoc]
  exact or_congr_right <| covered_step f sl sr hs hy (he p)

theorem exists_cons_of_flatten_eq {a : Rect} {rest : List Rect} (s : Stacked bs)
    (h : flatten bs = a :: rest) :
    ∃ b bs', bs = b :: bs' ∧ a.top = b.top ∧ a.bottom = b.bottom ∧ leadingBand (a :: rest) = b.rects := by
  cases bs
  case nil => cases h
  case cons b bs =>
    have ⟨r, _, hr, ht, hb⟩ := b.exists_cons
    rw [flatten_cons, hr, List.cons_append] at h
    obtain rfl : r = a := (List.cons.inj h).1
    refine ⟨b, bs, rfl, ht, hb, ?_⟩
    rw [← h, ← List.cons_append, ← hr, ← flatten_cons]
    exact s.split_flatten.1

theorem Sweep.Computes.left_iff (hop : op.Computes f) (h : y ≤ r.top) :
    (max l.top scanline ≤ p.y ∧ p.y < y) ∧ (op.sliceLeft ∧ l.Covers p.x) ↔
      p.y < y ∧ scanline ≤ p.y ∧ f (l.top ≤ p.y ∧ l.Covers p.x) (r.top ≤ p.y ∧ r.Covers p.x) := by
  by_cases hp : p.y < y
  case neg => simp [hp]
  have hr : (r.top ≤ p.y ∧ r.Covers p.x) = False := eq_false fun h' => by omega
  rw [hr, hop.onlyLeft]
  grind

theorem Sweep.Computes.right_iff (hop : op.Computes f) (h : y ≤ l.top) :
    (max r.top scanline ≤ p.y ∧ p.y < y) ∧ (op.sliceRight ∧ r.Covers p.x) ↔
      p.y < y ∧ scanline ≤ p.y ∧ f (l.top ≤ p.y ∧ l.Covers p.x) (r.top ≤ p.y ∧ r.Covers p.x) := by
  by_cases hp : p.y < y
  case neg => simp [hp]
  have hl : (l.top ≤ p.y ∧ l.Covers p.x) = False := eq_false fun h' => by omega
  rw [hl, hop.onlyRight]
  grind

theorem Sweep.Computes.combine_iff {top : Int} (hop : op.Computes f)
    (h₁ : l.top ≤ top ∧ r.top ≤ top) (h₂ : scanline = top ∨ (l.top = top ∧ r.top = top ∧ scanline ≤ top)) :
    (top ≤ p.y ∧ p.y < y) ∧ f (l.Covers p.x) (r.Covers p.x) ↔
      p.y < y ∧ scanline ≤ p.y ∧ f (l.top ≤ p.y ∧ l.Covers p.x) (r.top ≤ p.y ∧ r.Covers p.x) := by
  by_cases hp : top ≤ p.y
  case pos =>
    rw [iff_true_intro (h₁.1.trans hp), iff_true_intro (h₁.2.trans hp), true_and, true_and]
    grind
  case neg =>
    -- Neither of the bands has begun yet.
    have hs : scanline ≤ p.y → ¬l.top ≤ p.y ∧ ¬r.top ≤ p.y := by omega
    have := hop.neither
    by_cases hy : scanline ≤ p.y
    case pos => simpa [hp, hs hy] using fun _ _ => this
    case neg => simp [hp, hy]

theorem sweep_yields (hop : op.Computes f) (s : Stacked bands) (o : Open bands cur scanline)
    (sl : Stacked left) (sr : Stacked right)
    (al : AheadBands scanline left) (ar : AheadBands scanline right) :
    Yields f bands scanline left right
      (sweep op (flatten bands) scanline cur (flatten left) (flatten right)) := by
  generalize hm : flatten bands = mRects
  generalize hl : flatten left = leftRects
  generalize hr : flatten right = rightRects
  fun_induction sweep op mRects scanline cur leftRects rightRects generalizing bands left right
  case case1 mRects scanline cur l' left' r' right' leftBand h y h' scanline' next ih =>
    obtain ⟨l, left, rfl, ht, hb, hl'⟩ := exists_cons_of_flatten_eq sl hl
    obtain ⟨r, right, rfl, ht', hb', hr'⟩ := exists_cons_of_flatten_eq sr hr
    have al : scanline < l.bottom := al l rfl
    have hlo := l.ordered
    have hro := r.ordered
    have ⟨bands', e⟩ := sweepBand_extends op.sliceLeft l s o scanline'
      (le_max_right l'.top scanline) (by omega)
    rw [hm, ← hl'] at e
    refine e.yields sl sr (by omega) (by omega) (fun p => ?_) fun al ar =>
      ih e.stacked e.stillOpen sl.advanceBands sr.advanceBands al ar e.rects.symm ?_ ?_
    · rw [ht]
      exact hop.left_iff (by omega)
    · rw [← hl, advanceBand_flatten sl]
    · rw [← hr, advanceBand_flatten sr]
  case case2 mRects scanline cur l' left' r' right' leftBand rightBand h y h' scanline' next ih =>
    obtain ⟨l, left, rfl, ht, hb, hl'⟩ := exists_cons_of_flatten_eq sl hl
    obtain ⟨r, right, rfl, ht', hb', hr'⟩ := exists_cons_of_flatten_eq sr hr
    have al : scanline < l.bottom := al l rfl
    have ar : scanline < r.bottom := ar r rfl
    have hlo := l.ordered
    have hro := r.ordered
    have ⟨bands', e⟩ := combineBands_extends hop l r s o scanline'
      (le_max_right l'.top scanline) (by omega)
    rw [hm, ← hl', ← hr'] at e
    refine e.yields sl sr (by omega) (by omega) (fun p => ?_) fun al ar =>
      ih e.stacked e.stillOpen sl.advanceBands sr.advanceBands al ar e.rects.symm ?_ ?_
    · exact hop.combine_iff (by omega) (by omega)
    · rw [← hl, advanceBand_flatten sl]
    · rw [← hr, advanceBand_flatten sr]
  case case3 mRects scanline cur l' left' r' right' rightBand h y h' scanline' next ih =>
    obtain ⟨l, left, rfl, ht, hb, hl'⟩ := exists_cons_of_flatten_eq sl hl
    obtain ⟨r, right, rfl, ht', hb', hr'⟩ := exists_cons_of_flatten_eq sr hr
    have ar : scanline < r.bottom := ar r rfl
    have hlo := l.ordered
    have hro := r.ordered
    have ⟨bands', e⟩ := sweepBand_extends op.sliceRight r s o scanline'
      (le_max_right r'.top scanline) (by omega)
    rw [hm, ← hr'] at e
    refine e.yields sl sr (by omega) (by omega) (fun p => ?_) fun al ar =>
      ih e.stacked e.stillOpen sl.advanceBands sr.advanceBands al ar e.rects.symm ?_ ?_
    · rw [ht']
      exact hop.right_iff (by omega)
    · rw [← hl, advanceBand_flatten sl]
    · rw [← hr, advanceBand_flatten sr]
  case case4 mRects scanline cur l' left' r' right' leftBand rightBand h y h' scanline' next ih =>
    obtain ⟨l, left, rfl, ht, hb, hl'⟩ := exists_cons_of_flatten_eq sl hl
    obtain ⟨r, right, rfl, ht', hb', hr'⟩ := exists_cons_of_flatten_eq sr hr
    have al : scanline < l.bottom := al l rfl
    have ar : scanline < r.bottom := ar r rfl
    have ⟨bands', e⟩ := combineBands_extends hop l r s o scanline'
      (le_max_right r'.top scanline) (by omega)
    rw [hm, ← hl', ← hr'] at e
    refine e.yields sl sr (by omega) (by omega) (fun p => ?_) fun al ar =>
      ih e.stacked e.stillOpen sl.advanceBands sr.advanceBands al ar e.rects.symm ?_ ?_
    · exact hop.combine_iff (by omega) (by omega)
    · rw [← hl, advanceBand_flatten sl]
    · rw [← hr, advanceBand_flatten sr]
  case case5 mRects scanline cur l' left' =>
    obtain ⟨l, left, rfl, _⟩ := exists_cons_of_flatten_eq sl hl
    obtain rfl := flatten_eq_nil_iff.mp hr
    have ⟨bands', h₁, h₂, h₃⟩ := sweepTail_stacked op.sliceLeft s o sl (al l rfl)
    exact ⟨bands', hm ▸ hl ▸ h₁, h₂, fun p => by rw [h₃, covered_nil, hop.onlyLeft]⟩
  case case6 mRects scanline cur r' right' =>
    obtain ⟨r, right, rfl, _⟩ := exists_cons_of_flatten_eq sr hr
    obtain rfl := flatten_eq_nil_iff.mp hl
    have ⟨bands', h₁, h₂, h₃⟩ := sweepTail_stacked op.sliceRight s o sr (ar r rfl)
    exact ⟨bands', hm ▸ hr ▸ h₁, h₂, fun p => by rw [h₃, covered_nil, hop.onlyRight]⟩
  case case7 =>
    obtain rfl := flatten_eq_nil_iff.mp hl
    obtain rfl := flatten_eq_nil_iff.mp hr
    exact ⟨bands, hm.symm, s, fun p => by simp [hop.neither]⟩

end KWin.Region
