import PlasmaModel.Region.Theorems.Band

namespace KWin.Region

open IntervalList

-- The rectangles `out` are a canonical (possibly empty) band which covers exactly `P`.
structure IsRow (top bottom : Int) (out : List Rect) (P : Int → Prop) : Prop where
  aligned   : ∀ r ∈ out, r.top = top ∧ r.bottom = bottom
  separated : Separated Rect.left Rect.right out
  covers    : ∀ x, Covers Rect.left Rect.right out x ↔ P x

variable {top bottom scanline x : Int} {rect : Rect} {emitted left right : List Rect}
variable {P Q : Int → Prop}

theorem IsRow.congr (r : IsRow top bottom left P) (h : ∀ x, P x ↔ Q x) : IsRow top bottom left Q :=
  ⟨r.aligned, r.separated, fun x => (r.covers x).trans (h x)⟩

theorem IsRow.sliced (s : Separated Rect.left Rect.right left) :
    IsRow top bottom (left.map (slicedRect · top bottom)) (Covers Rect.left Rect.right left) where
  aligned   := by simp [slicedRect]
  separated := s.map (fun _ => rfl) (fun _ => rfl)
  covers _  := covers_map (fun _ _ => rfl) (fun _ _ => rfl)

namespace IsRow

theorem nil : IsRow top bottom [] fun _ => False :=
  ⟨by simp, .nil, by simp⟩

-- The band which is being emitted is a row, read from right to left.
theorem cons_reverse {a : Rect} (r : IsRow top bottom emitted.reverse P)
    (ha : a.top = top ∧ a.bottom = bottom) (hr : a.left < a.right)
    (hg : ∀ e ∈ emitted, e.right < a.left) :
    IsRow top bottom (a :: emitted).reverse fun x => P x ∨ (a.left ≤ x ∧ x < a.right) where
  aligned := by
    simp only [List.mem_reverse, List.mem_cons, forall_eq_or_imp]
    exact ⟨ha, fun e he => r.aligned e (by simpa using he)⟩
  separated := Separated.reverse_cons_iff.mpr ⟨hr, hg, r.separated⟩
  covers x := by
    rw [covers_reverse, covers_cons, ← r.covers, covers_reverse]
    exact or_comm

theorem setRight (r : IsRow top bottom (rect :: emitted).reverse P)
    (hr : rect.right ≤ x) :
    IsRow top bottom (rect.setRight x :: emitted).reverse
      fun y => P y ∨ (rect.left ≤ y ∧ y < x) := by
  have ⟨hn, hg, hs⟩ := Separated.reverse_cons_iff.mp r.separated
  refine ⟨?_, Separated.reverse_cons_iff.mpr ⟨hn.trans_le hr, hg, hs⟩, fun y => ?_⟩
  · intro e he
    simp only [List.mem_reverse, List.mem_cons] at he
    rcases he with rfl | he
    · exact r.aligned rect (by simp)
    · exact r.aligned e (by simp [he])
  · rw [← r.covers, covers_reverse, covers_cons, covers_reverse, covers_cons]
    simp only [Rect.setRight]
    constructor
    · rintro (h | h) <;> simp [h]
    · rintro ((h | h) | h)
      · exact .inl ⟨h.1, by omega⟩
      · exact .inr h
      · exact .inl h

theorem right_le (r : IsRow top bottom (rect :: emitted).reverse P) :
    ∀ e ∈ emitted, e.right < rect.left :=
  (Separated.reverse_cons_iff.mp r.separated).2.1

theorem left_lt_right (r : IsRow top bottom (rect :: emitted).reverse P) : rect.left < rect.right :=
  (Separated.reverse_cons_iff.mp r.separated).1

theorem of_mem (r : IsRow top bottom (rect :: emitted).reverse P)
    (h : rect.left ≤ x ∧ x < rect.right) : P x := by
  rw [← r.covers, covers_reverse, covers_cons]
  exact .inl h

end IsRow

theorem mergeRect_row (r : IsRow top bottom emitted.reverse P) (hr : rect.left < rect.right)
    (hl : ∀ e ∈ emitted.head?, e.left ≤ rect.left) :
    IsRow top bottom (mergeRect top bottom rect emitted).reverse
      fun x => P x ∨ (rect.left ≤ x ∧ x < rect.right) := by
  cases emitted
  case nil => exact r.cons_reverse ⟨rfl, rfl⟩ hr (by simp)
  case cons previousRect emitted =>
    have hl : previousRect.left ≤ rect.left := hl previousRect rfl
    rw [mergeRect]
    split
    case isTrue h =>
      split
      case isTrue h' =>
        refine (r.setRight h'.le).congr fun x => ?_
        have := r.of_mem (x := x)
        constructor
        · rintro (hp | hx)
          · exact .inl hp
          · by_cases hx' : x < previousRect.right
            · exact .inl <| this ⟨hx.1, hx'⟩
            · exact .inr ⟨by omega, hx.2⟩
        · rintro (hp | hx)
          · exact .inl hp
          · exact .inr ⟨by omega, hx.2⟩
      case isFalse h' =>
        refine r.congr fun x => (or_iff_left_of_imp fun hx => r.of_mem ?_).symm
        omega
    case isFalse h =>
      refine r.cons_reverse ⟨rfl, rfl⟩ hr ?_
      have := r.left_lt_right
      simp only [List.mem_cons, forall_eq_or_imp, slicedRect]
      exact ⟨by omega, fun e he => by have := r.right_le e he; omega⟩

theorem mergeRect_head_left (top bottom : Int) (hl : ∀ e ∈ emitted.head?, e.left ≤ rect.left) :
    ∀ e ∈ (mergeRect top bottom rect emitted).head?, e.left ≤ rect.left := by
  unfold mergeRect
  split
  case h_1 =>
    split
    case isTrue => split <;> simpa [Rect.setRight] using hl
    case isFalse => simp [slicedRect]
  case h_2 => simp [slicedRect]

theorem head_left_le_of_tail (s : Separated Rect.left Rect.right (rect :: left))
    (he : ∀ e ∈ emitted.head?, e.left ≤ rect.left) :
    ∀ e ∈ emitted.head?, ∀ l ∈ left.head?, e.left ≤ l.left := by
  intro e he' l hl
  have := he e he'
  have := s.head
  have := s.head_gap l (List.mem_of_mem_head? hl)
  omega

theorem mergedRects_row (r : IsRow top bottom emitted.reverse P)
    (hl : Separated Rect.left Rect.right left) (hr : Separated Rect.left Rect.right right)
    (hel : ∀ e ∈ emitted.head?, ∀ l ∈ left.head?, e.left ≤ l.left)
    (her : ∀ e ∈ emitted.head?, ∀ l ∈ right.head?, e.left ≤ l.left) :
    IsRow top bottom (mergedRects top bottom emitted left right) fun x =>
      P x ∨ Covers Rect.left Rect.right left x ∨ Covers Rect.left Rect.right right x := by
  fun_induction mergedRects top bottom emitted left right generalizing P
  case case1 emitted l left r' right h ih =>
    have he : ∀ e ∈ emitted.head?, e.left ≤ l.left := fun e he => hel e he l rfl
    have he' := mergeRect_head_left top bottom he
    refine (ih (mergeRect_row r hl.head he) hl.tail hr (head_left_le_of_tail hl he') ?_).congr fun x => ?_
    · rintro e hm _ ⟨⟩
      exact (he' e hm).trans h.le
    · simp only [covers_cons, or_assoc]
  case case2 emitted l left r' right h ih =>
    have he : ∀ e ∈ emitted.head?, e.left ≤ r'.left := fun e he => her e he r' rfl
    have he' := mergeRect_head_left top bottom he
    refine (ih (mergeRect_row r hr.head he) hl hr.tail ?_ (head_left_le_of_tail hr he')).congr fun x => ?_
    · rintro e hm _ ⟨⟩
      exact (he' e hm).trans (not_lt.mp h)
    · simp only [covers_cons]
      tauto
  case case3 emitted l left ih =>
    have he : ∀ e ∈ emitted.head?, e.left ≤ l.left := fun e he => hel e he l rfl
    have he' := mergeRect_head_left top bottom he
    refine (ih (mergeRect_row r hl.head he) hl.tail hr (head_left_le_of_tail hl he') (by simp)).congr ?_
    simp only [covers_cons, or_assoc, implies_true]
  case case4 emitted r' right ih =>
    have he : ∀ e ∈ emitted.head?, e.left ≤ r'.left := fun e he => her e he r' rfl
    have he' := mergeRect_head_left top bottom he
    refine (ih (mergeRect_row r hr.head he) hl hr.tail (by simp) (head_left_le_of_tail hr he')).congr ?_
    simp only [covers_cons, covers_nil, false_or, or_assoc, implies_true]
  case case5 emitted => exact r.congr fun x => by simp

-- No rectangle of the band ends at or before the scanline.
def Ahead (scanline : Int) (band : List Rect) : Prop :=
  ∀ l ∈ band.head?, scanline < l.right

theorem advance_separated (s : Separated Rect.left Rect.right left) :
    Separated Rect.left Rect.right (advance scanline left) := by
  cases left
  case nil => exact .nil
  case cons l left =>
    rw [advance]
    split
    · exact s.tail
    · exact s

-- Rectangles that end at the scanline have no part behind it.
theorem covers_advance (h : scanline ≤ x) :
    Covers Rect.left Rect.right (advance scanline left) x ↔ Covers Rect.left Rect.right left x := by
  cases left
  case nil => rfl
  case cons l left =>
    rw [advance]
    split
    case isTrue h' => exact (Separated.covers_of_hi_le (h' ▸ h)).symm
    case isFalse => rfl

theorem covers_of_covers_advance (h : Covers Rect.left Rect.right (advance scanline left) x) :
    Covers Rect.left Rect.right left x := by
  cases left
  case nil => exact h
  case cons l left =>
    rw [advance] at h
    split at h
    · exact covers_cons.mpr (.inr h)
    · exact h

theorem lt_of_covers_advance (s : Separated Rect.left Rect.right (rect :: left))
    (h : Covers Rect.left Rect.right (advance rect.right (rect :: left)) x) : rect.right < x := by
  rw [advance, if_pos rfl] at h
  exact s.hi_lt_of_covers_tail h

theorem advance_ahead (s : Separated Rect.left Rect.right left) (h : ∀ l ∈ left.head?, scanline ≤ l.right) :
    Ahead scanline (advance scanline left) := by
  cases left
  case nil => simp [advance, Ahead]
  case cons l left =>
    have h : scanline ≤ l.right := h l rfl
    rw [advance]
    split
    case isTrue h' =>
      intro l' hl'
      have hm := List.mem_of_mem_head? hl'
      have := s.head_gap l' hm
      have := s.tail.nonempty l' hm
      omega
    case isFalse h' =>
      rintro _ ⟨⟩
      omega

-- One iteration of a scan settles the points between the scanline and its next position `y`. It emits those in `E`.
theorem covers_step (f : Prop → Prop → Prop) {l r : Rect} {y : Int} {E : Prop}
    (hl : Separated Rect.left Rect.right (l :: left))
    (hr : Separated Rect.left Rect.right (r :: right))
    (hs : scanline ≤ y) (hy : y ≤ l.right ∧ y ≤ r.right)
    (he : E ↔ x < y ∧ scanline ≤ x ∧ f (l.left ≤ x) (r.left ≤ x)) :
    E ∨ (y ≤ x ∧ f (Covers Rect.left Rect.right (advance y (l :: left)) x)
        (Covers Rect.left Rect.right (advance y (r :: right)) x)) ↔
      scanline ≤ x ∧ f (Covers Rect.left Rect.right (l :: left) x)
        (Covers Rect.left Rect.right (r :: right) x) := by
  by_cases hx : y ≤ x
  case pos =>
    rw [covers_advance hx, covers_advance hx, he, or_iff_right (by omega), iff_true_intro hx,
      iff_true_intro (hs.trans hx)]
  case neg =>
    rw [hl.covers_of_lt_hi (by omega), hr.covers_of_lt_hi (by omega), he, or_iff_left (by omega),
      iff_true_intro (not_le.mp hx), true_and]

theorem IsRow.gap_of_head (r : IsRow top bottom emitted.reverse P)
    (h : ∀ e ∈ emitted.head?, e.right < x) : ∀ e ∈ emitted, e.right < x := by
  cases emitted
  case nil => simp
  case cons e es =>
    have he : e.right < x := h e rfl
    have := r.left_lt_right
    simp only [List.mem_cons, forall_eq_or_imp]
    exact ⟨he, fun e' he' => by have := r.right_le e' he'; omega⟩

-- The rest of a band is copied once the other band has ended.
theorem IsRow.append_sliced (r : IsRow top bottom (rect :: emitted).reverse P)
    (s : Separated Rect.left Rect.right left) (h : ∀ l ∈ left, rect.right < l.left) :
    IsRow top bottom ((rect :: emitted).reverse ++ left.map (slicedRect · top bottom))
      fun x => P x ∨ Covers Rect.left Rect.right left x where
  aligned e he := by
    cases List.mem_append.mp he
    case inl he => exact r.aligned e he
    case inr he => exact (sliced s).aligned e he
  separated := by
    refine Separated.append_iff.mpr ⟨r.separated, (sliced s).separated, fun e he l hl => ?_⟩
    obtain ⟨l, hm, rfl⟩ := List.mem_map.mp hl
    exact r.gap_of_head (by simpa [slicedRect] using h l hm) e (List.mem_reverse.mp he)
  covers x := by rw [covers_append, r.covers, (sliced s).covers]

theorem subtractedRects_row (r : IsRow top bottom emitted.reverse P)
    (hl : Separated Rect.left Rect.right left) (hr : Separated Rect.left Rect.right right)
    (al : Ahead scanline left) (ar : Ahead scanline right)
    -- If the last emitted rectangle ends at the scanline, then nothing may be emitted from there.
    (he : ∀ e ∈ emitted.head?, e.right ≤ scanline ∧ (e.right = scanline →
      Covers Rect.left Rect.right left scanline → Covers Rect.left Rect.right right scanline)) :
    IsRow top bottom (subtractedRects top bottom scanline emitted left right) fun x =>
      P x ∨ (scanline ≤ x ∧ Covers Rect.left Rect.right left x ∧ ¬Covers Rect.left Rect.right right x) := by
  fun_induction subtractedRects top bottom scanline emitted left right generalizing P
  case case1 scanline emitted l left r' right h x₀ h' scanline' ih =>
    have al : scanline < l.right := al l rfl
    have hl' := hl.head
    have hr' := hr.head
    have hx₀ : x₀ < scanline' := by omega
    have hg : ∀ e ∈ emitted.head?, e.right < x₀ := by
      intro e hm
      have ⟨h₁, h₂⟩ := he e hm
      by_contra hc
      have hs : e.right = scanline := by omega
      refine hr.not_covers_of_lt ?_ (h₂ hs (covers_cons.mpr (.inl ?_))) <;> omega
    have r := r.cons_reverse (a := ⟨x₀, top, scanline', bottom⟩) ⟨rfl, rfl⟩ hx₀ (r.gap_of_head hg)
    refine (ih r (advance_separated hl) (advance_separated hr) (advance_ahead hl ?_)
      (advance_ahead hr ?_) ?_).congr fun x => ?_
    · rintro _ ⟨⟩; omega
    · rintro _ ⟨⟩; omega
    · rintro _ ⟨⟩
      refine ⟨le_rfl, fun _ => ?_⟩
      rw [covers_advance le_rfl, covers_advance le_rfl]
      intro hc
      have : scanline' ≠ l.right := fun hs => hl.not_covers_hi (hs ▸ hc)
      exact covers_cons.mpr (.inl (by omega))
    · rw [or_assoc]
      exact or_congr_right <| covers_step (· ∧ ¬·) hl hr (by omega) (by omega) (by grind)
  case case2 scanline emitted l left r' right h x₀ h' scanline' ih =>
    have al : scanline < l.right := al l rfl
    have ar : scanline < r'.right := ar r' rfl
    refine (ih r (advance_separated hl) (advance_separated hr) (advance_ahead hl ?_)
      (advance_ahead hr ?_) ?_).congr fun x => ?_
    · rintro _ ⟨⟩; omega
    · rintro _ ⟨⟩; omega
    · intro e hm
      have := he e hm
      omega
    · rw [← covers_step (· ∧ ¬·) (y := scanline') (E := False) hl hr (by omega) (by omega) (by grind),
        false_or]
  case case3 scanline emitted l left r' right h scanline' ih =>
    have al : scanline < l.right := al l rfl
    have ar : scanline < r'.right := ar r' rfl
    refine (ih r (advance_separated hl) (advance_separated hr) (advance_ahead hl ?_)
      (advance_ahead hr ?_) ?_).congr fun x => ?_
    · rintro _ ⟨⟩; omega
    · rintro _ ⟨⟩; omega
    · intro e hm
      have := he e hm
      omega
    · rw [← covers_step (· ∧ ¬·) (y := scanline') (E := False) hl hr (by omega) (by omega) (by grind),
        false_or]
  case case4 scanline emitted l left =>
    have al : scanline < l.right := al l rfl
    have hl' := hl.head
    have hg : ∀ e ∈ emitted.head?, e.right < max l.left scanline := by
      intro e hm
      have ⟨h₁, h₂⟩ := he e hm
      by_contra hc
      have hs : e.right = scanline := by omega
      exact covers_nil.mp <| h₂ hs (covers_cons.mpr (.inl (by omega)))
    have r := r.cons_reverse (a := ⟨max l.left scanline, top, l.right, bottom⟩) ⟨rfl, rfl⟩
      (by simp only; omega) (r.gap_of_head hg)
    have r := r.append_sliced hl.tail hl.head_gap
    rw [List.reverse_cons, List.append_assoc, List.singleton_append] at r
    refine r.congr fun x => ?_
    have := hl.hi_lt_of_covers_tail (x := x)
    simp only [covers_nil, not_false_eq_true, and_true, covers_cons]
    rw [or_assoc]
    refine or_congr_right ?_
    grind
  case case5 scanline emitted right =>
    exact r.congr fun x => by simp

theorem emitTouching_row {a : Rect} (r : IsRow top bottom emitted.reverse P)
    (ha : a.top = top ∧ a.bottom = bottom) (hr : a.left < a.right)
    (he : ∀ e ∈ emitted.head?, e.right ≤ a.left) :
    IsRow top bottom (emitTouching a emitted).reverse
      fun x => P x ∨ (a.left ≤ x ∧ x < a.right) := by
  cases emitted
  case nil => exact r.cons_reverse ha hr (by simp)
  case cons previousRect emitted =>
    have he : previousRect.right ≤ a.left := he previousRect rfl
    rw [emitTouching]
    split
    case isTrue h =>
      refine (r.setRight (by omega)).congr fun x => ?_
      have := r.of_mem (x := x)
      have := r.left_lt_right
      grind
    case isFalse h => exact r.cons_reverse ha hr (r.gap_of_head (by simp; omega))

theorem emitTouching_eq_cons (rect : Rect) (emitted : List Rect) :
    ∃ e es, emitTouching rect emitted = e :: es ∧ e.right = rect.right := by
  unfold emitTouching
  split
  case h_1 => split <;> exact ⟨_, _, rfl, rfl⟩
  case h_2 => exact ⟨_, _, rfl, rfl⟩

theorem emitTouching_head_right : ∀ e ∈ (emitTouching rect emitted).head?, e.right ≤ rect.right := by
  have ⟨e, es, h, he⟩ := emitTouching_eq_cons rect emitted
  simp [h, he]

theorem xoredRects_tail_row (r : IsRow top bottom emitted.reverse P)
    (hl : Separated Rect.left Rect.right (rect :: left)) (al : scanline < rect.right)
    (he : ∀ e ∈ emitted.head?, e.right ≤ scanline) :
    IsRow top bottom (xoredRects.tail top bottom scanline emitted rect left) fun x =>
      P x ∨ (scanline ≤ x ∧ Covers Rect.left Rect.right (rect :: left) x) := by
  have hl' := hl.head
  have r := emitTouching_row r (a := ⟨max rect.left scanline, top, rect.right, bottom⟩) ⟨rfl, rfl⟩
    (by simp only; omega) (fun e hm => by have := he e hm; simp only; omega)
  have ⟨e, es, ht, hr⟩ := emitTouching_eq_cons ⟨max rect.left scanline, top, rect.right, bottom⟩ emitted
  rw [ht] at r
  have r := r.append_sliced hl.tail fun l hm => by have := hl.head_gap l hm; simp only at hr; omega
  rw [← ht] at r
  refine r.congr fun x => ?_
  have := hl.hi_lt_of_covers_tail (x := x)
  rw [covers_cons, or_assoc]
  refine or_congr_right ?_
  grind

theorem xoredRects_row (r : IsRow top bottom emitted.reverse P)
    (hl : Separated Rect.left Rect.right left) (hr : Separated Rect.left Rect.right right)
    (al : Ahead scanline left) (ar : Ahead scanline right)
    (he : ∀ e ∈ emitted.head?, e.right ≤ scanline) :
    IsRow top bottom (xoredRects top bottom scanline emitted left right) fun x =>
      P x ∨ (scanline ≤ x ∧
        Xor (Covers Rect.left Rect.right left x) (Covers Rect.left Rect.right right x)) := by
  fun_induction xoredRects top bottom scanline emitted left right generalizing P
  case case1 scanline emitted l left r' right h x₀ h' scanline' ih =>
    have al : scanline < l.right := al l rfl
    have hl' := hl.head
    have hr' := hr.head
    have r := emitTouching_row r (a := ⟨x₀, top, scanline', bottom⟩) ⟨rfl, rfl⟩
      (by simp only; omega) (fun e hm => by have := he e hm; simp only; omega)
    refine (ih r (advance_separated hl) (advance_separated hr) (advance_ahead hl ?_)
      (advance_ahead hr ?_) emitTouching_head_right).congr fun x => ?_
    · rintro _ ⟨⟩; omega
    · rintro _ ⟨⟩; omega
    · rw [or_assoc]
      exact or_congr_right <| covers_step Xor hl hr (by omega) (by omega) (by grind)
  case case2 scanline emitted l left r' right h x₀ h' scanline' ih =>
    have al : scanline < l.right := al l rfl
    have ar : scanline < r'.right := ar r' rfl
    refine (ih r (advance_separated hl) (advance_separated hr) (advance_ahead hl ?_)
      (advance_ahead hr ?_) ?_).congr fun x => ?_
    · rintro _ ⟨⟩; omega
    · rintro _ ⟨⟩; omega
    · intro e hm
      have := he e hm
      omega
    · rw [← covers_step Xor (y := scanline') (E := False) hl hr (by omega) (by omega) (by grind),
        false_or]
  case case3 scanline emitted l left r' right h x₀ h' scanline' ih =>
    have ar : scanline < r'.right := ar r' rfl
    have hl' := hl.head
    have hr' := hr.head
    have r := emitTouching_row r (a := ⟨x₀, top, scanline', bottom⟩) ⟨rfl, rfl⟩
      (by simp only; omega) (fun e hm => by have := he e hm; simp only; omega)
    refine (ih r (advance_separated hl) (advance_separated hr) (advance_ahead hl ?_)
      (advance_ahead hr ?_) emitTouching_head_right).congr fun x => ?_
    · rintro _ ⟨⟩; omega
    · rintro _ ⟨⟩; omega
    · rw [or_assoc]
      exact or_congr_right <| covers_step Xor hl hr (by omega) (by omega) (by grind)
  case case4 scanline emitted l left r' right h x₀ h' scanline' ih =>
    have al : scanline < l.right := al l rfl
    have ar : scanline < r'.right := ar r' rfl
    refine (ih r (advance_separated hl) (advance_separated hr) (advance_ahead hl ?_)
      (advance_ahead hr ?_) ?_).congr fun x => ?_
    · rintro _ ⟨⟩; omega
    · rintro _ ⟨⟩; omega
    · intro e hm
      have := he e hm
      omega
    · rw [← covers_step Xor (y := scanline') (E := False) hl hr (by omega) (by omega) (by grind),
        false_or]
  case case5 scanline emitted l left =>
    refine (xoredRects_tail_row r hl (al l rfl) he).congr fun x => ?_
    grind [covers_nil]
  case case6 scanline emitted r' right =>
    refine (xoredRects_tail_row r hr (ar r' rfl) he).congr fun x => ?_
    grind [covers_nil]
  case case7 =>
    exact r.congr fun x => by simp

theorem intersectedRects_row (r : IsRow top bottom emitted.reverse P)
    (hl : Separated Rect.left Rect.right left) (hr : Separated Rect.left Rect.right right)
    (he : ∀ e ∈ emitted.head?, ∀ x,
      Covers Rect.left Rect.right left x → Covers Rect.left Rect.right right x → e.right < x) :
    IsRow top bottom (intersectedRects top bottom emitted left right) fun x =>
      P x ∨ (Covers Rect.left Rect.right left x ∧ Covers Rect.left Rect.right right x) := by
  fun_induction intersectedRects top bottom emitted left right generalizing P
  case case1 emitted l left r' right x₁ x₂ ih =>
    have hl' := hl.head
    have hr' := hr.head
    -- Whichever of the two rectangles ends at `x₂` is behind us.
    have hb : ∀ x, Covers Rect.left Rect.right (advance x₂ (l :: left)) x →
        Covers Rect.left Rect.right (advance x₂ (r' :: right)) x → x₂ < x := by
      intro x h₁ h₂
      by_cases h : x₂ = l.right
      case pos => rw [h] at h₁ ⊢; exact lt_of_covers_advance hl h₁
      case neg =>
        have h : x₂ = r'.right := by omega
        rw [h] at h₂ ⊢
        exact lt_of_covers_advance hr h₂
    have hs : ∀ x, (x₁ ≤ x ∧ x < x₂) ∨ (Covers Rect.left Rect.right (advance x₂ (l :: left)) x ∧
          Covers Rect.left Rect.right (advance x₂ (r' :: right)) x) ↔
        (Covers Rect.left Rect.right (l :: left) x ∧ Covers Rect.left Rect.right (r' :: right) x) := by
      intro x
      have := hb x
      by_cases hx : x₂ ≤ x
      case pos =>
        rw [covers_advance hx, covers_advance hx]
        grind
      case neg =>
        rw [hl.covers_of_lt_hi (by omega), hr.covers_of_lt_hi (by omega)]
        grind
    simp only [← hs, ← or_assoc]
    by_cases h : x₁ < x₂
    case pos =>
      simp only [if_pos h, dif_pos h] at ih ⊢
      have hg : ∀ e ∈ emitted.head?, e.right < x₁ := fun e hm =>
        he e hm x₁ (covers_cons.mpr (.inl (by omega))) (covers_cons.mpr (.inl (by omega)))
      refine ih (r.cons_reverse (a := ⟨x₁, top, x₂, bottom⟩) ⟨rfl, rfl⟩ h (r.gap_of_head hg))
        (advance_separated hl) (advance_separated hr) ?_
      rintro _ ⟨⟩
      exact hb
    case neg =>
      simp only [if_neg h, dif_neg h] at ih ⊢
      refine (ih r (advance_separated hl) (advance_separated hr) ?_).congr fun x => ?_
      · exact fun e hm x h₁ h₂ => he e hm x (covers_of_covers_advance h₁) (covers_of_covers_advance h₂)
      · refine or_congr_left (or_iff_left fun _ => ?_).symm
        omega
  case case2 emitted left right h =>
    refine r.congr fun x => ?_
    cases left <;> cases right
    case cons.cons => exact absurd rfl (h _ _ _ _ rfl)
    all_goals simp

end KWin.Region
