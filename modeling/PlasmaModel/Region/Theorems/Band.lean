import Mathlib.Data.List.TakeWhile
import PlasmaModel.Lib.IntervalList
import PlasmaModel.Region.WellFormed

namespace KWin.Region

open IntervalList

-- A non-empty band whose rectangles are in canonical form. Sweeps are only ever about such bands.
structure Band where
  top       : Int
  bottom    : Int
  rects     : List Rect
  ordered   : top < bottom
  nonempty  : rects ≠ []
  aligned   : ∀ r ∈ rects, r.top = top ∧ r.bottom = bottom
  separated : Separated Rect.left Rect.right rects

namespace Band

def Covers (b : Band) (x : Int) : Prop :=
  IntervalList.Covers Rect.left Rect.right b.rects x

def Contains (b : Band) (p : Point) : Prop :=
  (b.top ≤ p.y ∧ p.y < b.bottom) ∧ b.Covers p.x

instance : Membership Point Band where
  mem b p := b.Contains p

def spans (b : Band) : List (Int × Int) :=
  b.rects.map fun r => (r.left, r.right)

-- Where the two bands touch, they must not be mergeable into one band.
def Above (a b : Band) : Prop :=
  a.bottom ≤ b.top ∧ (a.bottom = b.top → a.spans ≠ b.spans)

variable {b : Band} {p : Point} {r : Rect}

theorem mem_iff : p ∈ b ↔ (b.top ≤ p.y ∧ p.y < b.bottom) ∧ b.Covers p.x :=
  Iff.rfl

theorem rect_nonempty (b : Band) (h : r ∈ b.rects) : r.isEmpty = false := by
  have ⟨ht, hb⟩ := b.aligned r h
  rw [Rect.isEmpty_false_iff, ht, hb]
  exact ⟨b.separated.nonempty r h, b.ordered⟩

theorem mem_iff_mem_rects : p ∈ b ↔ ∃ r ∈ b.rects, p ∈ r := by
  rw [mem_iff]
  constructor
  case mp =>
    rintro ⟨hy, r, hr, hx⟩
    have ⟨ht, hb⟩ := b.aligned r hr
    exact ⟨r, hr, Rect.mem_iff.mpr ⟨hx, ht.symm ▸ hy.1, hb.symm ▸ hy.2⟩⟩
  case mpr =>
    rintro ⟨r, hr, hp⟩
    have ⟨ht, hb⟩ := b.aligned r hr
    have ⟨hx, hy⟩ := Rect.mem_iff.mp hp
    exact ⟨⟨ht ▸ hy.1, hb ▸ hy.2⟩, r, hr, hx⟩

end Band

def flatten (bands : List Band) : List Rect :=
  bands.flatMap Band.rects

def Stacked (bands : List Band) : Prop :=
  bands.IsChain Band.Above

def Covered (bands : List Band) (p : Point) : Prop :=
  ∃ b ∈ bands, p ∈ b

section

variable {b c : Band} {bs cs : List Band} {p : Point} {r : Rect}

@[simp]
theorem flatten_nil : flatten [] = [] :=
  rfl

@[simp]
theorem flatten_cons : flatten (b :: bs) = b.rects ++ flatten bs :=
  rfl

@[simp]
theorem flatten_append : flatten (bs ++ cs) = flatten bs ++ flatten cs := by
  simp [flatten]

theorem mem_flatten : r ∈ flatten bs ↔ ∃ b ∈ bs, r ∈ b.rects :=
  List.mem_flatMap

theorem flatten_eq_nil_iff : flatten bs = [] ↔ bs = [] := by
  simp only [flatten, List.flatMap_eq_nil_iff, List.eq_nil_iff_forall_not_mem (l := bs)]
  exact forall_congr' fun b => imp_congr_right fun _ => by simp [b.nonempty]

@[simp]
theorem covered_nil : Covered [] p ↔ False := by
  simp [Covered]

@[simp]
theorem covered_cons : Covered (b :: bs) p ↔ p ∈ b ∨ Covered bs p := by
  simp [Covered]

@[simp]
theorem covered_append : Covered (bs ++ cs) p ↔ Covered bs p ∨ Covered cs p := by
  simp [Covered, or_and_right, exists_or]

theorem covered_iff_mem_flatten : Covered bs p ↔ ∃ r ∈ flatten bs, p ∈ r := by
  simp only [Covered, Band.mem_iff_mem_rects, mem_flatten]
  constructor
  case mp  => rintro ⟨b, hb, r, hr, hp⟩; exact ⟨r, ⟨b, hb, hr⟩, hp⟩
  case mpr => rintro ⟨r, ⟨b, hb, hr⟩, hp⟩; exact ⟨b, hb, r, hr, hp⟩

theorem Stacked.pairwise (s : Stacked bs) : bs.Pairwise (·.bottom ≤ ·.top) := by
  have : IsTrans Band (·.bottom ≤ ·.top) := ⟨fun _ b _ h₁ h₂ => h₁.trans <| b.ordered.le.trans h₂⟩
  exact List.isChain_iff_pairwise.mp <| s.imp fun _ _ h => h.1

theorem Stacked.bottom_le (s : Stacked (b :: bs)) (h : c ∈ bs) : b.bottom ≤ c.top :=
  List.rel_of_pairwise_cons s.pairwise h

theorem Stacked.tail (s : Stacked (b :: bs)) : Stacked bs :=
  List.IsChain.tail s

-- Above the bottom of the first band, only that band matters.
theorem Stacked.covered_of_lt (s : Stacked (b :: bs)) (h : p.y < b.bottom) :
    Covered (b :: bs) p ↔ (b.top ≤ p.y ∧ b.Covers p.x) := by
  rw [covered_cons, Band.mem_iff, and_iff_left h, or_iff_left]
  rintro ⟨c, hc, hp⟩
  have := s.bottom_le hc
  have := (Band.mem_iff.mp hp).1
  omega

theorem covered_of_bottom_le (h : b.bottom ≤ p.y) : Covered (b :: bs) p ↔ Covered bs p := by
  rw [covered_cons, or_iff_right]
  intro hp
  have := (Band.mem_iff.mp hp).1
  omega

theorem Stacked.top_lt_of_mem (s : Stacked (b :: bs)) (h : r ∈ flatten bs) : b.top < r.top := by
  have ⟨c, hc, hr⟩ := mem_flatten.mp h
  have := s.bottom_le hc
  have := (c.aligned r hr).1
  have := b.ordered
  omega

theorem Band.exists_cons (b : Band) : ∃ r rest, b.rects = r :: rest ∧ r.top = b.top ∧ r.bottom = b.bottom := by
  obtain ⟨r, rest, h⟩ := List.exists_cons_of_ne_nil b.nonempty
  exact ⟨r, rest, h, b.aligned r (by simp [h])⟩

theorem leadingBand_append {rest after : List Rect}
    (hr : ∀ a ∈ rest, a.top = r.top) (ha : ∀ a ∈ after, a.top ≠ r.top) :
    leadingBand (r :: (rest ++ after)) = r :: rest ∧ afterBand (r :: (rest ++ after)) = after := by
  rw [leadingBand, afterBand, List.takeWhile_append_of_pos (by simpa using hr),
    List.dropWhile_append_of_pos (by simpa using hr)]
  cases after
  case nil => simp
  case cons a as => simp [ha a (by simp)]

theorem Stacked.split_flatten (s : Stacked (b :: bs)) :
    leadingBand (flatten (b :: bs)) = b.rects ∧ afterBand (flatten (b :: bs)) = flatten bs := by
  have ⟨r, rest, h, ht, _⟩ := b.exists_cons
  have hr : ∀ a ∈ rest, a.top = r.top := fun a ha => ht ▸ (b.aligned a (by simp [h, ha])).1
  have hb : ∀ a ∈ flatten bs, a.top ≠ r.top := fun a ha => ht ▸ (s.top_lt_of_mem ha).ne'
  simpa [h] using leadingBand_append hr hb

theorem leadingBand_append_afterBand (rects : List Rect) :
    leadingBand rects ++ afterBand rects = rects := by
  cases rects <;> simp [leadingBand, afterBand]

theorem top_eq_of_mem_leadingBand {rest : List Rect} {a : Rect} (h : a ∈ leadingBand (r :: rest)) :
    a.top = r.top := by
  cases List.mem_cons.mp h
  case inl h => rw [h]
  case inr h => simpa using List.mem_takeWhile_imp h

theorem top_lt_of_mem_afterBand {rest : List Rect} {a : Rect} (b : Banded (r :: rest))
    (h : a ∈ afterBand (r :: rest)) : r.top < a.top := by
  have hs := List.pairwise_cons.mp b.sorted
  simp only [afterBand] at h
  cases hd : rest.dropWhile (·.top = r.top)
  case nil => simp [hd] at h
  case cons c cs =>
    have hc : c.top ≠ r.top := by
      simpa [hd] using List.head_dropWhile_not (fun a : Rect => decide (a.top = r.top)) (l := rest) (by simp [hd])
    have hm : c ∈ rest := (List.dropWhile_sublist _).mem (hd ▸ List.mem_cons_self)
    have hrc := hs.1 c hm
    have hp := hs.2.sublist (List.dropWhile_sublist (fun a : Rect => decide (a.top = r.top)))
    rw [hd] at h hp
    cases List.mem_cons.mp h
    case inl h => subst h; omega
    case inr h => have := List.rel_of_pairwise_cons hp h; omega

theorem spansAt_append_of_ne {l₁ l₂ : List Rect} {y : Int} (h : ∀ a ∈ l₁, a.top ≠ y) :
    spansAt (l₁ ++ l₂) y = spansAt l₂ y := by
  have h : l₁.filter (·.top = y) = [] := List.filter_eq_nil_iff.mpr (by simpa using h)
  simp [spansAt, h]

theorem spansAt_append_of_eq {l₁ l₂ : List Rect} {y : Int}
    (h₁ : ∀ a ∈ l₁, a.top = y) (h₂ : ∀ a ∈ l₂, a.top ≠ y) :
    spansAt (l₁ ++ l₂) y = l₁.map fun r => (r.left, r.right) := by
  have h₁ : l₁.filter (·.top = y) = l₁ := List.filter_eq_self.mpr (by simpa using h₁)
  have h₂ : l₂.filter (·.top = y) = [] := List.filter_eq_nil_iff.mpr (by simpa using h₂)
  simp [spansAt, h₁, h₂]

theorem Stacked.spansAt_eq (s : Stacked bs) (h : b ∈ bs) : spansAt (flatten bs) b.top = b.spans := by
  induction bs
  case nil => cases h
  case cons c bs ih =>
    rw [flatten_cons]
    cases List.mem_cons.mp h
    case inl h =>
      subst h
      exact spansAt_append_of_eq (fun a ha => (b.aligned a ha).1) fun a ha => (s.top_lt_of_mem ha).ne'
    case inr h =>
      rw [spansAt_append_of_ne, ih s.tail h]
      intro a ha
      have := s.bottom_le h
      have := (c.aligned a ha).1
      have := c.ordered
      omega

theorem Banded.afterBand {rest : List Rect} (b : Banded (r :: rest)) : Banded (afterBand (r :: rest)) := by
  have ha := leadingBand_append_afterBand (r :: rest)
  have hs : (Region.afterBand (r :: rest)).Sublist (r :: rest) := by
    conv_rhs => rw [← ha]
    exact List.sublist_append_right _ _
  refine b.sublist hs fun a hm => ?_
  conv_rhs => rw [← ha]
  refine (spansAt_append_of_ne fun c hc => ?_).symm
  have := top_eq_of_mem_leadingBand hc
  have := top_lt_of_mem_afterBand b hm
  omega

-- The leading band of a canonical list of rectangles.
def Banded.band {rest : List Rect} (b : Banded (r :: rest)) : Band where
  top    := r.top
  bottom := r.bottom
  rects  := leadingBand (r :: rest)
  ordered  := (Rect.isEmpty_false_iff.mp <| b.nonempty r (by simp)).2
  nonempty := by simp [leadingBand]
  aligned a ha := by
    have ht := top_eq_of_mem_leadingBand ha
    have hm : a ∈ r :: rest := leadingBand_append_afterBand (r :: rest) ▸ List.mem_append_left _ ha
    exact ⟨ht, b.sameBottom a hm r (by simp) ht⟩
  separated := by
    have hl : (leadingBand (r :: rest)).Sublist (r :: rest) := by
      conv_rhs => rw [← leadingBand_append_afterBand (r :: rest)]
      exact List.sublist_append_left _ _
    refine ⟨fun a ha => (Rect.isEmpty_false_iff.mp <| b.nonempty a (hl.mem ha)).1, ?_⟩
    refine (b.gap.sublist hl).imp_of_mem fun ha hc h => h ?_
    rw [top_eq_of_mem_leadingBand ha, top_eq_of_mem_leadingBand hc]

theorem Banded.exists_stacked {rects : List Rect} (b : Banded rects) :
    ∃ bs, Stacked bs ∧ flatten bs = rects := by
  cases rects
  case nil => exact ⟨[], .nil, rfl⟩
  case cons r rest =>
    have ⟨bs, hs, hf⟩ := b.afterBand.exists_stacked
    have ha : flatten (b.band :: bs) = r :: rest := by
      rw [flatten_cons, hf]
      exact leadingBand_append_afterBand (r :: rest)
    refine ⟨b.band :: bs, List.isChain_cons.mpr ⟨fun c hc => ?_, hs⟩, ha⟩
    have hc := List.mem_of_mem_head? hc
    have ⟨s, _, h, ht, _⟩ := c.exists_cons
    have hs' : s ∈ flatten bs := mem_flatten.mpr ⟨c, hc, by simp [h]⟩
    have hm : s ∈ Region.afterBand (r :: rest) := hf ▸ hs'
    have hlt := top_lt_of_mem_afterBand b hm
    have hm' : s ∈ r :: rest := ha ▸ List.mem_append_right _ hs'
    constructor
    case left => exact ht ▸ b.noOverlap r (by simp) s hm' hlt
    case right =>
      intro he
      have hne := b.coalesced r (by simp) s hm' (ht ▸ he)
      have h₁ : spansAt (r :: rest) r.top = b.band.spans := by
        rw [← ha]
        refine spansAt_append_of_eq (fun a ha => top_eq_of_mem_leadingBand ha) fun a ha => ?_
        exact (top_lt_of_mem_afterBand b (hf ▸ ha)).ne'
      have h₂ : spansAt (r :: rest) s.top = c.spans := by
        rw [← ha, flatten_cons, spansAt_append_of_ne, ht, hs.spansAt_eq hc]
        intro a ha
        have := top_eq_of_mem_leadingBand ha
        omega
      rwa [h₁, h₂] at hne
termination_by rects.length
decreasing_by
  subst ‹_ = _ :: _›
  exact length_afterBand_lt

theorem Stacked.pairwise_flatten (s : Stacked bs) :
    (flatten bs).Pairwise fun a b => (a.top = b.top ∧ a.right < b.left) ∨ a.bottom ≤ b.top := by
  rw [flatten, List.pairwise_flatMap]
  constructor
  case left =>
    intro b _
    refine b.separated.gap.imp_of_mem fun ha hc h => .inl ⟨?_, h⟩
    rw [(b.aligned _ ha).1, (b.aligned _ hc).1]
  case right =>
    refine s.pairwise.imp fun {b c} h r hr t ht => .inr ?_
    rwa [(b.aligned r hr).2, (c.aligned t ht).1]

theorem rect_nonempty_of_mem_flatten (h : r ∈ flatten bs) : r.isEmpty = false :=
  have ⟨b, _, hr⟩ := mem_flatten.mp h
  b.rect_nonempty hr

theorem Stacked.eq_or_bottom_le (s : Stacked bs) (hb : b ∈ bs) (hc : c ∈ bs) :
    b = c ∨ b.bottom ≤ c.top ∨ c.bottom ≤ b.top := by
  induction bs
  case nil => cases hb
  case cons d bs ih =>
    cases List.mem_cons.mp hb <;> cases List.mem_cons.mp hc
    case inl.inl h₁ h₂ => exact .inl <| h₁.trans h₂.symm
    case inl.inr h₁ h₂ => exact .inr <| .inl <| h₁ ▸ s.bottom_le h₂
    case inr.inl h₁ h₂ => exact .inr <| .inr <| h₂ ▸ s.bottom_le h₁
    case inr.inr h₁ h₂ => exact ih s.tail h₁ h₂

theorem Stacked.spans_ne (s : Stacked bs) (hb : b ∈ bs) (hc : c ∈ bs) (h : b.bottom = c.top) :
    b.spans ≠ c.spans := by
  induction bs
  case nil => cases hb
  case cons d bs ih =>
    cases List.mem_cons.mp hb <;> cases List.mem_cons.mp hc
    case inl.inl h₁ h₂ => subst h₁ h₂; exact absurd h c.ordered.ne'
    case inr.inr h₁ h₂ => exact ih s.tail h₁ h₂
    case inr.inl h₁ h₂ =>
      subst h₂
      have := s.bottom_le h₁
      have := b.ordered
      have := c.ordered
      omega
    case inl.inr h₁ h₂ =>
      -- A band that touches `b` from below can only be the one right behind it.
      subst h₁
      cases bs
      case nil => cases h₂
      case cons e bs =>
        have ha : b.Above e := (List.isChain_cons_cons.mp s).1
        cases List.mem_cons.mp h₂
        case inl h₂ => subst h₂; exact ha.2 h
        case inr h₂ =>
          have := s.tail.bottom_le h₂
          have := ha.1
          have := e.ordered
          omega

theorem Stacked.banded (s : Stacked bs) : Banded (flatten bs) where
  nonempty r hr := rect_nonempty_of_mem_flatten hr
  sorted := by
    refine s.pairwise_flatten.imp_of_mem fun {a c} ha _ h => ?_
    have := Rect.isEmpty_false_iff.mp (rect_nonempty_of_mem_flatten ha)
    omega
  gap := by
    refine s.pairwise_flatten.imp_of_mem fun {a c} ha _ h => ?_
    have := Rect.isEmpty_false_iff.mp (rect_nonempty_of_mem_flatten ha)
    omega
  sameBottom a ha c hc h := by
    have ⟨b₁, hb₁, h₁⟩ := mem_flatten.mp ha
    have ⟨b₂, hb₂, h₂⟩ := mem_flatten.mp hc
    rw [(b₁.aligned a h₁).1, (b₂.aligned c h₂).1] at h
    rw [(b₁.aligned a h₁).2, (b₂.aligned c h₂).2]
    have := b₁.ordered
    have := b₂.ordered
    rcases s.eq_or_bottom_le hb₁ hb₂ with h' | h' | h'
    · rw [h']
    all_goals omega
  noOverlap a ha c hc h := by
    have ⟨b₁, hb₁, h₁⟩ := mem_flatten.mp ha
    have ⟨b₂, hb₂, h₂⟩ := mem_flatten.mp hc
    rw [(b₁.aligned a h₁).1, (b₂.aligned c h₂).1] at h
    rw [(b₁.aligned a h₁).2, (b₂.aligned c h₂).1]
    have := b₁.ordered
    have := b₂.ordered
    rcases s.eq_or_bottom_le hb₁ hb₂ with h' | h' | h'
    · subst h'; omega
    all_goals omega
  coalesced a ha c hc h := by
    have ⟨b₁, hb₁, h₁⟩ := mem_flatten.mp ha
    have ⟨b₂, hb₂, h₂⟩ := mem_flatten.mp hc
    rw [(b₁.aligned a h₁).2, (b₂.aligned c h₂).1] at h
    rw [(b₁.aligned a h₁).1, (b₂.aligned c h₂).1, s.spansAt_eq hb₁, s.spansAt_eq hb₂]
    exact s.spans_ne hb₁ hb₂ h

end

section

variable {bs : List Band} {rects : List Rect} {bounds b₁ b₂ : Rect} {p : Point}

-- The bounding rectangle of non-empty rectangles is determined by the points which they cover.
theorem isBoundingRect_iff (hn : ∀ r ∈ rects, r.isEmpty = false) :
    IsBoundingRect rects bounds ↔
      (∀ p, (∃ r ∈ rects, p ∈ r) → p ∈ bounds) ∧
      (∃ r ∈ rects, ∃ p ∈ r, p.x = bounds.left) ∧ (∃ r ∈ rects, ∃ p ∈ r, p.y = bounds.top) ∧
      (∃ r ∈ rects, ∃ p ∈ r, p.x + 1 = bounds.right) ∧
      (∃ r ∈ rects, ∃ p ∈ r, p.y + 1 = bounds.bottom) := by
  simp only [Rect.isEmpty_false_iff] at hn
  simp only [Rect.mem_iff]
  constructor
  case mp =>
    intro ⟨hb, ⟨l, hl, hl'⟩, ⟨t, ht, ht'⟩, ⟨r, hr, hr'⟩, ⟨b, hb₁, hb'⟩⟩
    refine ⟨?_, ⟨l, hl, ⟨l.left, l.top⟩, ?_⟩, ⟨t, ht, ⟨t.left, t.top⟩, ?_⟩,
      ⟨r, hr, ⟨r.right - 1, r.top⟩, ?_⟩, ⟨b, hb₁, ⟨b.left, b.bottom - 1⟩, ?_⟩⟩
    · rintro p ⟨c, hc, hp⟩
      have := hb c hc
      omega
    · have := hn l hl; simp only; omega
    · have := hn t ht; simp only; omega
    · have := hn r hr; simp only; omega
    · have := hn b hb₁; simp only; omega
  case mpr =>
    intro ⟨hb, ⟨l, hl, pl, hl'⟩, ⟨t, ht, pt, ht'⟩, ⟨r, hr, pr, hr'⟩, ⟨b, hb₁, pb, hb'⟩⟩
    have hc : ∀ c ∈ rects, bounds.left ≤ c.left ∧ bounds.top ≤ c.top ∧
        c.right ≤ bounds.right ∧ c.bottom ≤ bounds.bottom := fun c hc => by
      have := hn c hc
      have := hb ⟨c.left, c.top⟩ ⟨c, hc, by simp only; omega⟩
      have := hb ⟨c.right - 1, c.bottom - 1⟩ ⟨c, hc, by simp only; omega⟩
      simp only at *
      omega
    refine ⟨hc, ⟨l, hl, ?_⟩, ⟨t, ht, ?_⟩, ⟨r, hr, ?_⟩, ⟨b, hb₁, ?_⟩⟩
    · have := hc l hl; omega
    · have := hc t ht; omega
    · have := hc r hr; omega
    · have := hc b hb₁; omega

end
end KWin.Region
