import Mathlib.Algebra.Order.BigOperators.Group.List
import Mathlib.Tactic.Positivity
import PlasmaModel.Placement.PlaceSmart

namespace KWin.Placement

-- The edges of the window are integers.
structure Window.Integral (client : Window) : Prop where
  x      : ∃ l : ℤ, client.x = l
  y      : ∃ t : ℤ, client.y = t
  width  : ∃ w : ℕ, client.width = w
  height : ∃ h : ℕ, client.height = h

def Window.weight (client : Window) : Int :=
  if client.keepAbove then 16 else if client.keepBelow && !client.isDock then 0 else 1

@[simp]
theorem toInt_intCast (n : ℤ) : toInt n = n := by
  unfold toInt
  split_ifs <;> simp

namespace Window.Integral

variable {client : Window}

theorem xl (h : client.Integral) : (client.xl : ℚ) = client.x := by
  have ⟨l, hl⟩ := h.x
  rw [Window.xl, hl, toInt_intCast]

theorem yt (h : client.Integral) : (client.yt : ℚ) = client.y := by
  have ⟨t, ht⟩ := h.y
  rw [Window.yt, ht, toInt_intCast]

theorem xr (h : client.Integral) : (client.xr : ℚ) = client.x + client.width := by
  have ⟨w, hw⟩ := h.width
  rw [Window.xr, ← h.xl, hw]
  exact_mod_cast toInt_intCast (client.xl + w)

theorem yb (h : client.Integral) : (client.yb : ℚ) = client.y + client.height := by
  have ⟨t, ht⟩ := h.height
  rw [Window.yb, ← h.yt, ht]
  exact_mod_cast toInt_intCast (client.yt + t)

theorem xl_le (h : client.Integral) : client.xl ≤ client.xr := by
  have ⟨w, hw⟩ := h.width
  have hx : (client.xr : ℚ) = client.xl + w := by rw [h.xr, h.xl, hw]
  have hx : client.xr = client.xl + w := by exact_mod_cast hx
  omega

theorem yt_le (h : client.Integral) : client.yt ≤ client.yb := by
  have ⟨t, ht⟩ := h.height
  have hy : (client.yb : ℚ) = client.yt + t := by rw [h.yb, h.yt, ht]
  have hy : client.yb = client.yt + t := by exact_mod_cast hy
  omega

end Window.Integral

theorem sum_map_eq_zero_iff {α β : Type*} [AddCommMonoid α] [PartialOrder α] [IsOrderedAddMonoid α] {l : List β}
    {f : β → α} (h : ∀ b ∈ l, 0 ≤ f b) : 0 ≤ (l.map f).sum ∧ ((l.map f).sum = 0 ↔ ∀ b ∈ l, f b = 0) := by
  induction l
  case nil => simp
  case cons b l ih =>
    have ⟨hb, hl⟩ := List.forall_mem_cons.mp h
    have ⟨hn, hz⟩ := ih hl
    refine ⟨by simpa using add_nonneg hb hn, ?_⟩
    rw [List.map_cons, List.sum_cons, add_eq_zero_iff_of_nonneg hb hn, hz, List.forall_mem_cons]

namespace Search

variable {s : Search} {st : State} {client : Window} {x y here possible : Int}

-- The client counts at this position.
def Blocks (s : Search) (x y : Int) (client : Window) : Prop :=
  client.weight ≠ 0 ∧ (client.xl < client.xr ∧ client.yt < client.yb) ∧
    (x < client.xr ∧ client.xl < x + s.cw) ∧ (y < client.yb ∧ client.yt < y + s.ch)

def Free (s : Search) (x y : Int) : Prop :=
  ∀ client ∈ s.clients, ¬s.Blocks x y client

-- The position is one of the area.
def Inside (s : Search) (x y : Int) : Prop :=
  (y + s.ch ≤ s.areaYb ∨ ¬s.isLower) ∧ x + s.cw ≤ s.areaXr

theorem clientOverlap_eq (x y : Int) (client : Window) : s.clientOverlap x y client =
    if (x < client.xr ∧ client.xl < x + s.cw) ∧ (y < client.yb ∧ client.yt < y + s.ch) then
      client.weight * ((min (x + s.cw) client.xr - max x client.xl) * (min (y + s.ch) client.yb - max y client.yt))
    else 0 := by
  simp only [clientOverlap, Window.weight, and_assoc, gt_iff_lt]
  split_ifs <;> ring

theorem clientOverlap_pos_iff (h : client.Integral) :
    0 ≤ s.clientOverlap x y client ∧ (s.clientOverlap x y client = 0 ↔ ¬s.Blocks x y client) := by
  have hw : 0 ≤ client.weight := by
    unfold Window.weight
    split_ifs <;> decide
  have hcw := s.cw_pos
  have hch := s.ch_pos
  have hx := h.xl_le
  have hy := h.yt_le
  rw [clientOverlap_eq]
  split_ifs with hi
  · have hxs : 0 ≤ min (x + s.cw) client.xr - max x client.xl := by omega
    have hys : 0 ≤ min (y + s.ch) client.yb - max y client.yt := by omega
    refine ⟨by positivity, ?_⟩
    simp only [mul_eq_zero, Blocks, hi, and_true, not_and_or, not_not, not_lt]
    omega
  · exact ⟨le_rfl, by simp only [true_iff]; exact fun hb => hi hb.2.2⟩

-- The clients overlap the window by nothing exactly if none of them blocks it.
theorem foldl_overlap (hi : ∀ client ∈ s.clients, client.Integral) :
    0 ≤ s.clients.foldl (fun overlap client => overlap + s.clientOverlap x y client) none ∧
      (s.clients.foldl (fun overlap client => overlap + s.clientOverlap x y client) none = none ↔ s.Free x y) := by
  have hsum : s.clients.foldl (fun overlap client => overlap + s.clientOverlap x y client) none =
      (s.clients.map (s.clientOverlap x y)).sum := by
    rw [List.sum_eq_foldl, List.foldl_map]
    rfl
  obtain ⟨hn, hz⟩ :=
    sum_map_eq_zero_iff (f := s.clientOverlap x y) fun client hc => (clientOverlap_pos_iff (hi client hc)).1
  rw [hsum]
  refine ⟨hn, hz.trans (forall₂_congr fun client hc => ?_)⟩
  exact (clientOverlap_pos_iff (hi client hc)).2

theorem overlap_of_inside (h : s.Inside x y) : s.overlap x y =
    s.clients.foldl (fun overlap client => overlap + s.clientOverlap x y client) none := by
  rw [overlap, if_neg, if_neg (not_lt.mpr h.2)]
  exact fun ⟨hy, hl⟩ => h.1.elim (fun hle => absurd hle (not_le.mpr hy)) fun hn => hn hl

theorem overlap_eq_none_iff (hi : ∀ client ∈ s.clients, client.Integral) :
    s.overlap x y = none ↔ s.Inside x y ∧ s.Free x y := by
  constructor
  case mp =>
    intro h
    have hin : s.Inside x y := inside_of_overlap h.ge
    exact ⟨hin, (foldl_overlap hi).2.mp (overlap_of_inside hin ▸ h)⟩
  case mpr => exact fun ⟨hin, hf⟩ => overlap_of_inside hin ▸ (foldl_overlap hi).2.mpr hf

theorem overlap_of_neg (hi : ∀ client ∈ s.clients, client.Integral) (h : s.overlap x y < none) :
    (s.overlap x y = hWrong ∧ s.areaYb < y + s.ch) ∨ (s.overlap x y = wWrong ∧ s.areaXr < x + s.cw) := by
  unfold overlap at *
  split_ifs at * with hy hx
  · exact .inl ⟨rfl, hy.1⟩
  · exact .inr ⟨rfl, hx⟩
  · exact absurd (foldl_overlap hi).1 (not_le.mpr h)

theorem wide_of_eq_wWrong (hi : ∀ client ∈ s.clients, client.Integral) (h : s.overlap x y = wWrong) :
    s.areaXr < x + s.cw := by
  have hneg : s.overlap x y < none := h ▸ (by decide : wWrong < none)
  cases overlap_of_neg hi hneg
  case inl hl => exact absurd (hl.1.symm.trans h) (by decide)
  case inr hr => exact hr.2

-- The candidates of the clients bound what the fold over them finds.
theorem foldl_le {f : Int → Window → Int} (hf : ∀ possible client, f possible client ≤ possible)
    (clients : List Window) : clients.foldl f possible ≤ possible := by
  induction clients generalizing possible
  case nil => exact le_rfl
  case cons client clients ih => exact ih.trans (hf possible client)

theorem foldl_le_of_mem {f : Int → Window → Int} {candidate : Int} {clients : List Window}
    (hf : ∀ possible client, f possible client ≤ possible) (hc : ∀ possible, f possible client ≤ candidate)
    (hm : client ∈ clients) : clients.foldl f possible ≤ candidate := by
  induction clients generalizing possible
  case nil => cases hm
  case cons c clients ih =>
    cases hm
    case head => exact (foldl_le hf clients).trans (hc possible)
    case tail hm => exact ih hm

theorem nextX_le (hc : client ∈ s.clients) (hy : y < client.yb ∧ client.yt < y + s.ch) (hx : x < client.xr) :
    s.nextX x y ≤ client.xr := by
  refine foldl_le_of_mem ?_ ?_ hc
  · intro possible client
    split_ifs
    · exact closer_le.trans closer_le
    · exact le_rfl
  · intro possible
    rw [if_pos (by omega)]
    exact closer_le.trans (closer_le_candidate hx)

theorem nextY_le (hc : client ∈ s.clients) (hy : y < client.yb) : s.nextY y ≤ client.yb := by
  refine foldl_le_of_mem ?_ ?_ hc
  · exact fun _ _ => closer_le.trans closer_le
  · exact fun _ => closer_le.trans (closer_le_candidate hy)

-- No free position of the row is skipped.
theorem blocked_of_lt_nextX {z : Int} (h : ¬s.Free x y) (hz : x ≤ z) (hn : z < s.nextX x y) : ¬s.Free z y := by
  induction z, hz using Int.leInduction with
  | base => exact h
  | succ z hz ih =>
    intro hfree
    apply ih (by omega)
    intro client hc hb
    -- This client ends right at the next position.
    have hend : client.xr = z + 1 := by
      by_contra hne
      have ⟨hw, hn, hx, hy⟩ := hb
      exact hfree client hc ⟨hw, hn, by omega, hy⟩
    have := nextX_le hc hb.2.2.2 (x := x) (by omega)
    omega

-- The clients that are in the way of a row are also in the way of the rows before the next one.
theorem blocked_of_lt_nextY {z : Int} (h : ¬s.Free x y) (hz : y ≤ z) (hn : z < s.nextY y) : ¬s.Free x z := by
  intro hfree
  apply h
  intro client hc ⟨hw, hne, hx, hy⟩
  have := nextY_le hc hy.1
  exact hfree client hc ⟨hw, hne, hx, by omega⟩

-- The loop stops at a free position if there is one from the current row on, and none before it in this row.
theorem run_free (hi : ∀ client ∈ s.clients, client.Integral) {fx fy : Int} (hfree : s.Free fx fy)
    (hx : toInt s.area.left ≤ fx ∧ fx + s.cw ≤ s.areaXr) (hy : st.y ≤ fy ∧ fy + s.ch ≤ s.areaYb)
    (hrow : ∀ z, toInt s.area.left ≤ z → z < st.x → ¬s.Free z st.y) :
    s.Free (s.run st).1 (s.run st).2 ∧ (s.run st).2 ≤ fy := by
  have hch := s.ch_pos
  fun_induction run s st
  case case1 st overlap h => exact ⟨((overlap_eq_none_iff hi).mp h).2, hy.1⟩
  case case2 st overlap h hpos st' hlt ih =>
    have hin := inside_of_overlap (Int.le_of_lt hpos)
    have hblocked : ¬s.Free st.x st.y := fun hf => h ((overlap_eq_none_iff hi).mpr ⟨hin, hf⟩)
    refine ih ?_ ?_
    · simpa [st'] using hy
    · intro z hz hlt
      simp only [st', State.remember_y]
      by_cases hzx : z < st.x
      case pos => exact hrow z hz hzx
      case neg => exact blocked_of_lt_nextX hblocked (not_lt.mp hzx) hlt
  case case3 => omega
  case case4 st overlap h hpos hw st' hlt ih =>
    have hend := wide_of_eq_wWrong hi hw
    refine ih ⟨?_, hy.2⟩ fun z hz hlt => absurd hlt (not_lt.mpr hz)
    by_contra hle
    exact blocked_of_lt_nextY (hrow fx hx.1 (by omega)) hy.1 (not_le.mp hle) hfree
  case case5 st overlap h hpos hw st' hlt =>
    have hend := wide_of_eq_wWrong hi hw
    exact absurd hfree (blocked_of_lt_nextY (hrow fx hx.1 (by omega)) hy.1 (by omega))
  case case6 st overlap h hpos hw =>
    have hneg : s.overlap st.x st.y < none := lt_of_le_of_ne (not_lt.mp hpos) h
    cases overlap_of_neg hi hneg
    case inl hl => omega
    case inr hr => exact absurd hr.1 hw

-- The best position so far is one of the area.
structure State.Placed (s : Search) (st : State) : Prop where
  here    : toInt s.area.left ≤ st.x ∧ toInt s.area.top ≤ st.y
  start   : toInt s.area.left ≤ st.xOptimal ∧ toInt s.area.top ≤ st.yOptimal
  optimal : s.Inside st.xOptimal st.yOptimal

theorem State.Placed.remember (h : st.Placed s) : (st.remember (s.overlap st.x st.y)).Placed s := by
  unfold State.remember
  split_ifs with hf hm
  · exact ⟨h.here, h.start, h.optimal⟩
  · exact ⟨h.here, h.here, inside_of_overlap hm.1⟩
  · exact h

theorem run_inside (h : st.Placed s) :
    (toInt s.area.left ≤ (s.run st).1 ∧ toInt s.area.top ≤ (s.run st).2) ∧ s.Inside (s.run st).1 (s.run st).2 := by
  fun_induction run s st
  case case1 st overlap ho => exact ⟨h.here, inside_of_overlap ho.ge⟩
  case case2 st overlap _ hpos st' _ ih =>
    have hr : st'.Placed s := h.remember
    have hx := (inside_of_overlap (Int.le_of_lt hpos)).2
    have hcw := s.cw_pos
    have hnext := lt_nextX_or (s := s) (x := st.x) (y := st.y)
    have hl := h.here.1
    exact ih ⟨⟨by simp only; omega, hr.here.2⟩, hr.start, hr.optimal⟩
  case case3 => exact ⟨h.remember.start, h.remember.optimal⟩
  case case4 st overlap _ _ _ st' hlt ih =>
    have hr : st'.Placed s := h.remember
    have hnext := lt_nextY_or (s := s) (y := st.y)
    have ht := h.here.2
    exact ih ⟨⟨le_rfl, by simp only; omega⟩, hr.start, hr.optimal⟩
  case case5 => exact ⟨h.remember.start, h.remember.optimal⟩
  case case6 => exact ⟨h.remember.start, h.remember.optimal⟩

end Search

-- The length that two intervals have in common.
def common (lo hi lo' hi' : ℚ) : ℚ :=
  max 0 (min hi hi' - max lo lo')

def weightedOverlap (clients : List Window) (position : PointF) (size : SizeF) : ℚ :=
  (clients.map fun client => client.weight *
    (common position.x (position.x + size.width) client.x (client.x + client.width) *
      common position.y (position.y + size.height) client.y (client.y + client.height))).sum

def Within (area : RectF) (position : PointF) (size : SizeF) : Prop :=
  (area.left ≤ position.x ∧ position.x + size.width ≤ area.right) ∧
    (area.top ≤ position.y ∧ position.y + size.height ≤ area.bottom)

variable {lo hi lo' hi' : ℚ} {clients : List Window} {position : PointF} {size : SizeF}

theorem common_nonneg : 0 ≤ common lo hi lo' hi' :=
  le_max_left ..

theorem common_eq_zero_iff : common lo hi lo' hi' = 0 ↔ hi ≤ lo ∨ hi ≤ lo' ∨ hi' ≤ lo ∨ hi' ≤ lo' := by
  rw [common, max_eq_left_iff, sub_nonpos, min_le_iff, le_max_iff, le_max_iff, or_assoc]

theorem weightedOverlap_eq_zero_iff : weightedOverlap clients position size = 0 ↔ ∀ client ∈ clients,
    client.weight = 0 ∨
    common position.x (position.x + size.width) client.x (client.x + client.width) = 0 ∨
    common position.y (position.y + size.height) client.y (client.y + client.height) = 0 := by
  have hnonneg (client : Window) : (0 : ℚ) ≤ client.weight *
      (common position.x (position.x + size.width) client.x (client.x + client.width) *
        common position.y (position.y + size.height) client.y (client.y + client.height)) := by
    have hw : 0 ≤ client.weight := by
      unfold Window.weight
      split_ifs <;> decide
    exact mul_nonneg (Int.cast_nonneg hw) (mul_nonneg common_nonneg common_nonneg)
  refine (sum_map_eq_zero_iff fun client _ => hnonneg client).2.trans (forall₂_congr fun client _ => ?_)
  rw [mul_eq_zero, mul_eq_zero, Int.cast_eq_zero]

theorem floor_add_ceil_le {x w : ℚ} {n : ℤ} (h : x + w ≤ n) : ⌊x⌋ + ⌈w⌉ ≤ n := by
  have hw : ⌈w⌉ ≤ n - ⌊x⌋ := by
    rw [Int.ceil_le]
    push_cast
    have := Int.floor_le x
    linarith
  omega

-- A client blocks the rounded position only if the window overlaps it at the exact one.
theorem Search.free_floor {s : Search} (hi : ∀ client ∈ s.clients, client.Integral) (hw : 0 < size.width)
    (hh : 0 < size.height) (hcw : s.cw = ⌈size.width⌉) (hch : s.ch = ⌈size.height⌉)
    (h : weightedOverlap s.clients position size = 0) : s.Free ⌊position.x⌋ ⌊position.y⌋ := by
  intro client hc ⟨hweight, ⟨hne, hne'⟩, ⟨hx, hx'⟩, hy, hy'⟩
  have hcl := hi client hc
  rw [hcw] at hx'
  rw [hch] at hy'
  rw [Int.floor_lt] at hx hy
  cases (weightedOverlap_eq_zero_iff.mp h client hc).resolve_left hweight
  case inl hz =>
    rw [← hcl.xr, ← hcl.xl, common_eq_zero_iff, Int.cast_le] at hz
    rcases hz with hz | hz | hz | hz
    · linarith
    · exact absurd (floor_add_ceil_le hz) (not_le.mpr hx')
    · exact absurd hz (not_le.mpr hx)
    · exact absurd hz (not_le.mpr hne)
  case inr hz =>
    rw [← hcl.yb, ← hcl.yt, common_eq_zero_iff, Int.cast_le] at hz
    rcases hz with hz | hz | hz | hz
    · linarith
    · exact absurd (floor_add_ceil_le hz) (not_le.mpr hy')
    · exact absurd hz (not_le.mpr hy)
    · exact absurd hz (not_le.mpr hne')

theorem Search.Free.weightedOverlap {s : Search} {x y : Int} (hf : s.Free x y)
    (hi : ∀ client ∈ s.clients, client.Integral) (hcw : s.cw = ⌈size.width⌉) (hch : s.ch = ⌈size.height⌉) :
    weightedOverlap s.clients ⟨x, y⟩ size = 0 := by
  rw [weightedOverlap_eq_zero_iff]
  intro client hc
  have hcl := hi client hc
  have hw : (size.width : ℚ) ≤ s.cw := hcw ▸ Int.le_ceil _
  have hh : (size.height : ℚ) ≤ s.ch := hch ▸ Int.le_ceil _
  have hb := hf client hc
  rw [← hcl.xr, ← hcl.xl, ← hcl.yb, ← hcl.yt, common_eq_zero_iff, common_eq_zero_iff]
  simp only [Blocks, not_and_or, not_lt, not_not] at hb
  rcases hb with hb | (hb | hb) | (hb | hb) | hb | hb
  · exact .inl hb
  · exact .inr (.inl (.inr (.inr (.inr (Int.cast_le.mpr hb)))))
  · exact .inr (.inr (.inr (.inr (.inr (Int.cast_le.mpr hb)))))
  · exact .inr (.inl (.inr (.inr (.inl (Int.cast_le.mpr hb)))))
  · have hb : (x + s.cw : ℚ) ≤ client.xl := by exact_mod_cast hb
    exact .inr (.inl (.inr (.inl (by simp only; linarith))))
  · exact .inr (.inr (.inr (.inr (.inl (Int.cast_le.mpr hb)))))
  · have hb : (y + s.ch : ℚ) ≤ client.yt := by exact_mod_cast hb
    exact .inr (.inr (.inr (.inl (by simp only; linarith))))

namespace Search

variable {s : Search} {area : Rect}

theorem areaXr_eq (h : s.area = area.toRectF) : s.areaXr = area.right := by
  simp [areaXr, h, Rect.toRectF]

theorem areaYb_eq (h : s.area = area.toRectF) : s.areaYb = area.bottom := by
  simp [areaYb, h, Rect.toRectF]

theorem toInt_left (h : s.area = area.toRectF) : toInt s.area.left = area.left := by
  simp [h, Rect.toRectF]

theorem toInt_top (h : s.area = area.toRectF) : toInt s.area.top = area.top := by
  simp [h, Rect.toRectF]

theorem isLower_iff (h : s.area = area.toRectF) : s.isLower ↔ s.ch < area.bottom - area.top := by
  simp only [isLower, h, decide_eq_true_iff, Rect.toRectF]
  norm_cast

-- The vertical position is that of the search only if the window is lower than the area.
def optimal (s : Search) : Point :=
  let optimal := s.run { x := toInt s.area.left, y := toInt s.area.top }
  ⟨optimal.1, if s.isLower then optimal.2 else toInt s.area.top⟩

section

variable (harea : s.area = area.toRectF) (hcw : s.cw ≤ area.right - area.left) (hch : s.ch ≤ area.bottom - area.top)
include harea hcw hch

theorem start_placed : State.Placed s { x := toInt s.area.left, y := toInt s.area.top } := by
  have hl := toInt_left harea
  have ht := toInt_top harea
  have hr := areaXr_eq harea
  have hb := areaYb_eq harea
  exact ⟨⟨le_rfl, le_rfl⟩, ⟨le_rfl, le_rfl⟩, .inl (by simp only; omega), by simp only; omega⟩

theorem optimal_inside : (area.left ≤ s.optimal.x ∧ s.optimal.x + s.cw ≤ area.right) ∧
    (area.top ≤ s.optimal.y ∧ s.optimal.y + s.ch ≤ area.bottom) := by
  have hl := toInt_left harea
  have ht := toInt_top harea
  have hr := areaXr_eq harea
  have hb := areaYb_eq harea
  have ⟨⟨hx, hy⟩, hyb, hxr⟩ := run_inside (start_placed harea hcw hch)
  simp only [optimal]
  refine ⟨⟨hl.symm.le.trans hx, hr ▸ hxr⟩, ?_⟩
  split_ifs with hlow
  · exact ⟨ht.symm.le.trans hy, hb ▸ hyb.resolve_right (not_not.mpr hlow)⟩
  · omega

theorem optimal_free (hi : ∀ client ∈ s.clients, client.Integral) {fx fy : Int} (hfree : s.Free fx fy)
    (hx : area.left ≤ fx ∧ fx + s.cw ≤ area.right) (hy : area.top ≤ fy ∧ fy + s.ch ≤ area.bottom) :
    s.Free s.optimal.x s.optimal.y := by
  have hl := toInt_left harea
  have ht := toInt_top harea
  have hr := areaXr_eq harea
  have hb := areaYb_eq harea
  have hrow : ∀ z, toInt s.area.left ≤ z → z < State.x { x := toInt s.area.left, y := toInt s.area.top } →
      ¬s.Free z (toInt s.area.top) := fun z hz hlt => absurd hlt (not_lt.mpr hz)
  have ⟨hf, hle⟩ := run_free hi hfree (by omega) (by simp only; omega) hrow
  have ⟨⟨_, hyt⟩, _⟩ := run_inside (start_placed harea hcw hch)
  simp only [optimal]
  split_ifs with hlow
  · exact hf
  · -- The window is as high as the area, so that only its top row is inside.
    rw [isLower_iff harea] at hlow
    have heq : (s.run { x := toInt s.area.left, y := toInt s.area.top }).2 = toInt s.area.top := by omega
    rw [heq] at hf
    exact hf

end

theorem optimal_spec (harea : s.area = area.toRectF) (hi : ∀ client ∈ s.clients, client.Integral)
    (hcw : s.cw = ⌈size.width⌉) (hch : s.ch = ⌈size.height⌉) (hwidth : size.width < area.right - area.left)
    (hheight : size.height < area.bottom - area.top) (hw : 0 < size.width) (hh : 0 < size.height) :
    Within area.toRectF ⟨s.optimal.x, s.optimal.y⟩ size ∧
      ((∃ q, Within area.toRectF q size ∧ KWin.Placement.weightedOverlap s.clients q size = 0) →
        KWin.Placement.weightedOverlap s.clients ⟨s.optimal.x, s.optimal.y⟩ size = 0) := by
  have hcw' : s.cw ≤ area.right - area.left := hcw ▸ Int.ceil_le.mpr (by push_cast; exact hwidth.le)
  have hch' : s.ch ≤ area.bottom - area.top := hch ▸ Int.ceil_le.mpr (by push_cast; exact hheight.le)
  have hwc : size.width ≤ s.cw := hcw ▸ Int.le_ceil _
  have hhc : size.height ≤ s.ch := hch ▸ Int.le_ceil _
  constructor
  case left =>
    have ⟨⟨hl, hr⟩, ht, hb⟩ := optimal_inside harea hcw' hch'
    have hr : (s.optimal.x + s.cw : ℚ) ≤ area.right := by exact_mod_cast hr
    have hb : (s.optimal.y + s.ch : ℚ) ≤ area.bottom := by exact_mod_cast hb
    refine ⟨⟨Int.cast_le.mpr hl, ?_⟩, Int.cast_le.mpr ht, ?_⟩ <;> simp only [Rect.toRectF] <;> linarith
  case right =>
    intro ⟨q, ⟨⟨hl, hr⟩, ht, hb⟩, hq⟩
    have hfree := free_floor hi hw hh hcw hch hq
    have hx : area.left ≤ ⌊q.x⌋ ∧ ⌊q.x⌋ + s.cw ≤ area.right := ⟨Int.le_floor.mpr hl, hcw ▸ floor_add_ceil_le hr⟩
    have hy : area.top ≤ ⌊q.y⌋ ∧ ⌊q.y⌋ + s.ch ≤ area.bottom := ⟨Int.le_floor.mpr ht, hch ▸ floor_add_ceil_le hb⟩
    exact (optimal_free harea hcw' hch' hi hfree hx hy).weightedOverlap hi hcw hch

end Search

theorem placeSmart_finds {window : Window} {stackingOrder : List Window} {currentDesktop : Nat} {area : Rect}
    (hi : ∀ client ∈ relevantClients window stackingOrder currentDesktop, client.Integral)
    (hwidth : window.width < area.right - area.left) (hheight : window.height < area.bottom - area.top) :
    (0 < window.width → 0 < window.height →
      ∃ p, placeSmart window stackingOrder currentDesktop area.toRectF = some p) ∧
    ∀ p, placeSmart window stackingOrder currentDesktop area.toRectF = some p →
      Within area.toRectF ⟨p.x, p.y⟩ window.size ∧
      ((∃ q, Within area.toRectF q window.size ∧
        weightedOverlap (relevantClients window stackingOrder currentDesktop) q window.size = 0) →
      weightedOverlap (relevantClients window stackingOrder currentDesktop) ⟨p.x, p.y⟩ window.size = 0) := by
  unfold placeSmart
  split_ifs with hempty
  · refine ⟨fun hw hh => ?_, by simp⟩
    exact absurd hempty (not_or.mpr ⟨not_le.mpr hw, not_le.mpr hh⟩)
  refine ⟨fun _ _ => ⟨_, rfl⟩, fun p hp => ?_⟩
  have ⟨hw, hh⟩ := not_or.mp hempty
  rw [not_le] at hw hh
  cases hp
  let search : Search := {
    clients := relevantClients window stackingOrder currentDesktop
    area := area.toRectF
    cw := ⌈window.width⌉
    ch := ⌈window.height⌉
    cw_pos := Int.ceil_pos.mpr hw
    ch_pos := Int.ceil_pos.mpr hh
  }
  have harea : search.area = area.toRectF := rfl
  exact Search.optimal_spec harea hi rfl rfl hwidth hheight hw hh

-- A window of fractional size, and another one in the corner where the search starts.
def dialog : Window := {
  id := 0, x := 0, y := 0, width := 21 / 2, height := 19 / 2, isClient := true, isShown := true, desktops := [1]
  isOnCurrentActivity := true, isDesktop := false, isDock := false, keepAbove := false, keepBelow := false
}

def terminal : Window := { dialog with id := 1, width := 60, height := 40 }

theorem placeSmart_finds_dialog : ∃ p, placeSmart dialog [dialog, terminal] 1 ⟨0, 0, 100, 80⟩ = some p := by
  have hi : ∀ client ∈ relevantClients dialog [dialog, terminal] 1, client.Integral := by
    have hrelevant : relevantClients dialog [dialog, terminal] 1 = [terminal] := rfl
    rw [hrelevant]
    simp only [List.mem_singleton, forall_eq]
    exact ⟨⟨0, rfl⟩, ⟨0, rfl⟩, ⟨60, rfl⟩, ⟨40, rfl⟩⟩
  have hwidth : dialog.width < (⟨0, 0, 100, 80⟩ : Rect).right - (⟨0, 0, 100, 80⟩ : Rect).left := by norm_num [dialog]
  have hheight : dialog.height < (⟨0, 0, 100, 80⟩ : Rect).bottom - (⟨0, 0, 100, 80⟩ : Rect).top := by norm_num [dialog]
  have h := placeSmart_finds hi hwidth hheight
  have ⟨p, hp⟩ := h.1 (by norm_num [dialog]) (by norm_num [dialog])
  exact ⟨p, by simpa [Rect.toRectF] using hp⟩

end KWin.Placement
