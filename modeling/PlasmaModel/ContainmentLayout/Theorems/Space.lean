import Mathlib.Algebra.Order.Field.Rat
import Mathlib.Tactic.FieldSimp
import Mathlib.Tactic.Linarith
import Mathlib.Tactic.Ring
import PlasmaModel.ContainmentLayout.Theorems.Cells

-- The spaces that a search finds.
namespace ContainmentLayoutManager

open PreferredLayoutDirection

theorem round_intCast (n : ℤ) : round n = n := by
  have hfloor (k : ℤ) : ⌊(k : ℚ) + 1 / 2⌋ = k := by
    rw [Int.floor_eq_iff]
    constructor <;> linarith
  have hneg := hfloor (-n)
  rw [Int.cast_neg] at hneg
  rw [round, hfloor, hneg]
  split <;> simp

theorem truncate_intCast (n : ℤ) : truncate n = n := by
  simp [truncate]

theorem truncate_le {q : ℚ} (h : 0 < truncate q) : (truncate q : ℚ) ≤ q := by
  rw [truncate] at h ⊢
  split at h
  case isTrue hq =>
    rw [if_pos hq]
    exact Int.floor_le q
  case isFalse hq =>
    have : ⌈q⌉ ≤ 0 := Int.ceil_le.mpr (by simpa using (not_le.mp hq).le)
    exact absurd h (not_lt.mpr this)

theorem qBound_eq {low value high : ℚ} (hl : low ≤ value) (hh : value ≤ high) : qBound low value high = value := by
  rw [qBound, min_eq_right hh, max_eq_right hl]

-- Layout and cells measure whole pixels.
structure AppletsLayout.Integral (layout : AppletsLayout) : Prop where
  width      : ∃ n : ℤ, layout.width = n
  height     : ∃ n : ℤ, layout.height = n
  cellWidth  : ∃ n : ℤ, 0 < n ∧ layout.cellWidth = n
  cellHeight : ∃ n : ℤ, 0 < n ∧ layout.cellHeight = n

namespace AppletsLayout.Integral

variable {layout : AppletsLayout}

theorem cellWidth_pos (h : layout.Integral) : 0 < layout.cellWidth := by
  have ⟨n, hn, hw⟩ := h.cellWidth
  rw [hw]
  exact_mod_cast hn

theorem cellHeight_pos (h : layout.Integral) : 0 < layout.cellHeight := by
  have ⟨n, hn, hw⟩ := h.cellHeight
  rw [hw]
  exact_mod_cast hn

theorem truncate_width (h : layout.Integral) (k : ℤ) :
    (truncate (k * layout.cellWidth) : ℚ) = k * layout.cellWidth := by
  have ⟨n, _, hw⟩ := h.cellWidth
  rw [hw]
  exact_mod_cast truncate_intCast (k * n)

theorem truncate_height (h : layout.Integral) (k : ℤ) :
    (truncate (k * layout.cellHeight) : ℚ) = k * layout.cellHeight := by
  have ⟨n, _, hw⟩ := h.cellHeight
  rw [hw]
  exact_mod_cast truncate_intCast (k * n)

end AppletsLayout.Integral

namespace QRect

variable {layout : AppletsLayout} {rect : QRect}

def pixels (layout : AppletsLayout) (rect : QRect) : QRectF where
  x      := rect.x * layout.cellWidth
  y      := rect.y * layout.cellHeight
  width  := rect.width * layout.cellWidth
  height := rect.height * layout.cellHeight

-- Not empty and in the grid.
structure Inside (layout : AppletsLayout) (rect : QRect) : Prop where
  left   : 0 ≤ rect.x
  top    : 0 ≤ rect.y
  width  : 0 < rect.width
  height : 0 < rect.height
  right  : rect.x + rect.width ≤ layout.columns
  bottom : rect.y + rect.height ≤ layout.rows

theorem fits {position extent total : ℤ} {size cell : ℚ} (hc : 0 < cell) (hp : 0 ≤ position) (he : 0 < extent)
    (ht : total = truncate (size / cell)) (hs : position + extent ≤ total) :
    position * cell + extent * cell ≤ size := by
  have hpos : 0 < truncate (size / cell) := by omega
  have hle : ((position + extent : ℤ) : ℚ) ≤ size / cell := (Int.cast_le.mpr (ht ▸ hs)).trans (truncate_le hpos)
  rw [le_div_iff₀ hc] at hle
  push_cast at hle
  linarith

theorem round_qBound {position extent total : ℤ} {size cell : ℚ} (hc : 0 < cell) (hp : 0 ≤ position) (he : 0 < extent)
    (ht : total = truncate (size / cell)) (hs : position + extent ≤ total) :
    round (qBound 0 (position * cell) (max 0 (size - extent * cell)) / cell) = position := by
  have hle := fits hc hp he ht hs
  have hp : (0 : ℚ) ≤ position * cell := mul_nonneg (by exact_mod_cast hp) hc.le
  rw [qBound_eq hp ((le_sub_iff_add_le.mpr hle).trans (le_max_right ..)), mul_div_cancel_right₀ _ hc.ne', round_intCast]

theorem cellBasedGeometry_pixels (hl : layout.Integral) (h : rect.Inside layout) :
    layout.cellBasedGeometry (rect.pixels layout) = rect := by
  have hw := hl.cellWidth_pos
  have hh := hl.cellHeight_pos
  have hx := round_qBound hw h.left h.width rfl h.right
  have hy := round_qBound hh h.top h.height rfl h.bottom
  simp only [AppletsLayout.cellBasedGeometry, pixels, hx, hy, mul_div_cancel_right₀ _ hw.ne',
    mul_div_cancel_right₀ _ hh.ne', round_intCast]

end QRect

namespace GridLayoutManager

variable {Item : Type} [DecidableEq Item] {layout : AppletsLayout} {m m' : GridLayoutManager Item}
variable {item : Item} {cell : Cell} {rect : QRect} {direction : PreferredLayoutDirection}

theorem inside_of_available (hw : 0 < rect.width) (hh : 0 < rect.height)
    (h : ∀ cell ∈ rect.cells, m.isCellAvailable layout cell = true) : rect.Inside layout := by
  have hfirst := (isCellAvailable_iff.mp (h (rect.y, rect.x) (QRect.mem_cells.mpr ⟨⟨by omega, by omega⟩, by omega, by omega⟩))).1
  have hlast := (isCellAvailable_iff.mp (h (rect.y + rect.height - 1, rect.x + rect.width - 1)
    (QRect.mem_cells.mpr ⟨⟨by omega, by omega⟩, by omega, by omega⟩))).1
  simp only [AppletsLayout.isOutOfBounds, Bool.or_eq_false_iff, decide_eq_false_iff_not] at hfirst hlast
  constructor <;> omega

theorem isRectAvailable_pixels (hl : layout.Integral) (hw : 0 < rect.width) (hh : 0 < rect.height)
    (h : ∀ cell ∈ rect.cells, m.isCellAvailable layout cell = true) :
    m.isRectAvailable layout (rect.pixels layout) = true := by
  have hin := inside_of_available hw hh h
  have hx : (0 : ℚ) ≤ rect.x * layout.cellWidth := mul_nonneg (by exact_mod_cast hin.left) hl.cellWidth_pos.le
  have hy : (0 : ℚ) ≤ rect.y * layout.cellHeight := mul_nonneg (by exact_mod_cast hin.top) hl.cellHeight_pos.le
  have hright := QRect.fits hl.cellWidth_pos hin.left hw rfl hin.right
  have hbottom := QRect.fits hl.cellHeight_pos hin.top hh rfl hin.bottom
  rw [isRectAvailable, if_neg, QRect.cellBasedGeometry_pixels hl hin]
  · exact List.all_eq_true.mpr h
  · simp only [QRect.pixels]
    rintro (hlt | hlt | hlt | hlt) <;> linarith

-- The cell that many cells on.
def shifted (cell : Cell) (k : ℤ) : PreferredLayoutDirection → Cell
  | bottomToTop           => (cell.1 - k, cell.2)
  | topToBottom           => (cell.1 + k, cell.2)
  | rightToLeft           => (cell.1, cell.2 - k)
  | leftToRight | closest => (cell.1, cell.2 + k)

theorem shifted_nextCell (k : ℤ) : shifted (nextCell cell direction) k direction = shifted cell (k + 1) direction := by
  cases direction <;> ext <;> simp [shifted, nextCell] <;> ring

theorem shifted_zero : shifted cell 0 direction = cell := by
  cases direction <;> simp [shifted]

theorem count_available (maxCellsNeeded avail : ℤ) (cell : Cell) :
    avail ≤ freeSpaceInDirection.count layout m direction maxCellsNeeded avail cell ∧
    freeSpaceInDirection.count layout m direction maxCellsNeeded avail cell ≤ max avail maxCellsNeeded ∧
    ∀ k : ℕ, avail + k < freeSpaceInDirection.count layout m direction maxCellsNeeded avail cell →
      m.isCellAvailable layout (shifted cell k direction) = true := by
  induction avail, cell using freeSpaceInDirection.count.induct layout m direction maxCellsNeeded with
  | case1 avail cell h ih =>
    have ⟨hle, hmax, hk⟩ := ih
    rw [freeSpaceInDirection.count, if_pos h]
    refine ⟨by omega, by omega, fun k hlt => ?_⟩
    cases k with
    | zero => exact shifted_zero ▸ h.1
    | succ k =>
      have := hk k (by push_cast at hlt; omega)
      rwa [shifted_nextCell] at this
  | case2 avail cell h =>
    rw [freeSpaceInDirection.count, if_neg h]
    exact ⟨le_refl _, le_max_left .., by omega⟩

theorem freeSpaceInDirection_available {maxCellsNeeded k : ℤ} (hk : 0 ≤ k)
    (h : k < m.freeSpaceInDirection layout cell direction maxCellsNeeded) :
    m.isCellAvailable layout (shifted cell k direction) = true := by
  have ⟨n, hn⟩ := Int.eq_ofNat_of_zero_le hk
  subst hn
  exact (count_available maxCellsNeeded 0 cell).2.2 n (by simpa [freeSpaceInDirection] using h)

-- Unless the lines share no cell, all lines that were counted have as many free cells.
theorem measureLines_spec (free : ℤ → ℤ) (wanted minimum : Extent) (count : ℕ) (line : ℤ) (measured : Extent) :
    let result := measureLines free wanted minimum count line measured
    result.across ≤ measured.across ∧ result.along ≤ measured.along + count ∧
      (0 < result.across → ∀ k : ℕ, measured.along + k < result.along → result.across ≤ free (line + k)) := by
  induction count generalizing line measured
  case zero => exact ⟨le_refl _, by simp [measureLines], fun _ k hk => by simp [measureLines] at hk; omega⟩
  case succ count ih =>
    simp only [measureLines]
    have halong : (if 0 < free line then measured.along + 1 else measured.along) ≤ measured.along + 1 := by
      split <;> omega
    have hcounted (hline : 0 < free line) :
        (if 0 < free line then measured.along + 1 else measured.along) = measured.along + 1 := if_pos hline
    generalize (if 0 < free line then measured.along + 1 else measured.along) = along at halong hcounted ⊢
    split
    case isTrue h =>
      exact ⟨min_le_left .., by dsimp only; omega, fun hpos => by dsimp only at hpos; omega⟩
    case isFalse h =>
      split
      case isTrue =>
        refine ⟨min_le_left .., by dsimp only; omega, fun hpos k hk => ?_⟩
        dsimp only at hk
        have hzero : k = 0 := by omega
        subst hzero
        simp
      case isFalse =>
        have ⟨hacross, hbound, hfree⟩ := ih (line + 1) { across := min measured.across (free line), along }
        dsimp only at hacross hbound hfree
        refine ⟨hacross.trans (min_le_left ..), by omega, fun hpos k hk => ?_⟩
        have hline := hcounted (by omega)
        cases k with
        | zero => simpa using hacross.trans (min_le_right ..)
        | succ k =>
          have := hfree hpos k (by omega)
          rwa [add_assoc, add_comm 1, ← Nat.cast_succ] at this

-- The cells that the space at a cell takes.
def cellsAt (cell : Cell) (size : QSize) : PreferredLayoutDirection → QRect
  | bottomToTop => { x := cell.2, y := cell.1 + 1 - size.height, width := size.width, height := size.height }
  | rightToLeft => { x := cell.2 + 1 - size.width, y := cell.1, width := size.width, height := size.height }
  | topToBottom | leftToRight | closest => { x := cell.2, y := cell.1, width := size.width, height := size.height }

theorem spaceAt_eq_pixels (hl : layout.Integral) (size : QSize) :
    spaceAt layout cell size direction = (cellsAt cell size direction).pixels layout := by
  simp only [spaceAt, hl.truncate_width, hl.truncate_height]
  cases direction <;> simp [cellsAt, QRect.pixels] <;> ring

theorem measureRows_available (itemSize minimumGridSize : QSize) {row column : ℤ}
    (hrow : 0 ≤ row ∧ row < (m.measureRows layout cell direction itemSize minimumGridSize).height)
    (hcolumn : 0 ≤ column ∧ column < (m.measureRows layout cell direction itemSize minimumGridSize).width) :
    m.isCellAvailable layout (shifted (cell.1 + row, cell.2) column direction) = true := by
  have ⟨n, hn⟩ := Int.eq_ofNat_of_zero_le hrow.1
  subst hn
  have ⟨_, _, hfree⟩ := measureLines_spec
    (fun row => m.freeSpaceInDirection layout (row, cell.2) direction itemSize.width)
    ⟨itemSize.width, itemSize.height⟩ ⟨minimumGridSize.width, minimumGridSize.height⟩ itemSize.height.toNat cell.1
    ⟨INT_MAX, 0⟩
  have hle := hfree (hcolumn.1.trans_lt hcolumn.2) n (by simpa [measureRows] using hrow.2)
  exact freeSpaceInDirection_available hcolumn.1 (hcolumn.2.trans_le hle)

theorem measureColumns_available (itemSize minimumGridSize : QSize) {row column : ℤ}
    (hrow : 0 ≤ row ∧ row < (m.measureColumns layout cell direction itemSize minimumGridSize).height)
    (hcolumn : 0 ≤ column ∧ column < (m.measureColumns layout cell direction itemSize minimumGridSize).width) :
    m.isCellAvailable layout (shifted (cell.1, cell.2 + column) row direction) = true := by
  have ⟨n, hn⟩ := Int.eq_ofNat_of_zero_le hcolumn.1
  subst hn
  have ⟨_, _, hfree⟩ := measureLines_spec
    (fun column => m.freeSpaceInDirection layout (cell.1, column) direction itemSize.height)
    ⟨itemSize.height, itemSize.width⟩ ⟨minimumGridSize.height, minimumGridSize.width⟩ itemSize.width.toNat cell.2
    ⟨INT_MAX, 0⟩
  have hle := hfree (hrow.1.trans_lt hrow.2) n (by simpa [measureColumns] using hcolumn.2)
  exact freeSpaceInDirection_available hrow.1 (hrow.2.trans_le hle)

-- The space that begins at a cell is free wherever it was measured.
theorem measure_available {itemSize minimumGridSize size : QSize}
    (hw : size.width ≤ (m.measure layout cell itemSize minimumGridSize direction).width)
    (hh : size.height ≤ (m.measure layout cell itemSize minimumGridSize direction).height) :
    ∀ other ∈ (cellsAt cell size direction).cells, m.isCellAvailable layout other = true := by
  intro other hother
  rw [QRect.mem_cells] at hother
  cases direction with
  | closest =>
    simp only [measure] at hw hh
    simp only [cellsAt] at hother
    omega
  | leftToRight =>
    simp only [measure, cellsAt] at hw hh hother
    have : m.isCellAvailable layout (shifted (cell.1 + (other.1 - cell.1), cell.2) (other.2 - cell.2) leftToRight) = true :=
      measureRows_available itemSize minimumGridSize ⟨by omega, by omega⟩ ⟨by omega, by omega⟩
    simpa [shifted] using this
  | rightToLeft =>
    simp only [measure, cellsAt] at hw hh hother
    have : m.isCellAvailable layout (shifted (cell.1 + (other.1 - cell.1), cell.2) (cell.2 - other.2) rightToLeft) = true :=
      measureRows_available itemSize minimumGridSize ⟨by omega, by omega⟩ ⟨by omega, by omega⟩
    simpa [shifted] using this
  | topToBottom =>
    simp only [measure, cellsAt] at hw hh hother
    have : m.isCellAvailable layout (shifted (cell.1, cell.2 + (other.2 - cell.2)) (other.1 - cell.1) topToBottom) = true :=
      measureColumns_available itemSize minimumGridSize ⟨by omega, by omega⟩ ⟨by omega, by omega⟩
    simpa [shifted] using this
  | bottomToTop =>
    simp only [measure, cellsAt] at hw hh hother
    have : m.isCellAvailable layout (shifted (cell.1, cell.2 + (other.2 - cell.2)) (cell.1 - other.1) bottomToTop) = true :=
      measureColumns_available itemSize minimumGridSize ⟨by omega, by omega⟩ ⟨by omega, by omega⟩
    simpa [shifted] using this

theorem search_found (hl : layout.Integral) {itemSize minimumGridSize : QSize} (cell : Cell)
    (h : ¬(nextAvailableSpace.search layout m itemSize minimumGridSize direction cell).isEmpty = true) :
    ∃ rect : QRect, nextAvailableSpace.search layout m itemSize minimumGridSize direction cell = rect.pixels layout ∧
      min itemSize.width minimumGridSize.width ≤ rect.width ∧ min itemSize.height minimumGridSize.height ≤ rect.height ∧
      ∀ other ∈ rect.cells, m.isCellAvailable layout other = true := by
  induction cell using nextAvailableSpace.search.induct layout m itemSize minimumGridSize direction with
  | case1 cell hc size hsize =>
    rw [nextAvailableSpace.search, dif_pos hc, if_pos hsize]
    refine ⟨_, spaceAt_eq_pixels hl _, ?_, ?_, measure_available (min_le_right ..) (min_le_right ..)⟩
    · cases direction <;> exact min_le_min_left _ hsize.1
    · cases direction <;> exact min_le_min_left _ hsize.2
  | case2 cell hc size hsize ih =>
    rw [nextAvailableSpace.search, dif_pos hc, if_neg hsize] at h ⊢
    exact ih h
  | case3 cell hc =>
    rw [nextAvailableSpace.search, dif_neg hc] at h
    exact absurd rfl h

theorem isCellAvailable_releaseSpaceImpl (item : Item) (h : m.isCellAvailable layout cell = true) :
    (m.releaseSpaceImpl item).isCellAvailable layout cell = true := by
  rw [isCellAvailable_iff] at h ⊢
  refine ⟨h.1, ?_⟩
  rw [releaseSpaceImpl]
  split
  case h_1 => exact h.2
  case h_2 =>
    rw [Hash.lookup_foldl_erase]
    split
    case isTrue => rfl
    case isFalse => exact h.2

theorem isRectAvailable_mono {rect : QRectF} (h : m.isRectAvailable layout rect = true)
    (hm : ∀ cell, m.isCellAvailable layout cell = true → m'.isCellAvailable layout cell = true) :
    m'.isRectAvailable layout rect = true := by
  have hcells := isCellAvailable_of_isRectAvailable h
  rw [isRectAvailable] at h ⊢
  split at h
  case isTrue => cases h
  case isFalse hin =>
    rw [if_neg hin]
    exact List.all_eq_true.mpr fun cell hcell => hm cell (hcells cell hcell)

theorem assignSpaceImpl_accepts {rect : QRectF} (item : Item) (h : m.isRectAvailable layout rect = true) :
    (m.assignSpaceImpl layout item rect).2 = true := by
  have := isRectAvailable_mono h fun _ => isCellAvailable_releaseSpaceImpl item
  rw [assignSpaceImpl, if_pos this]

-- A space that a search found. It is still accepted after the item has been moved there.
structure Found (layout : AppletsLayout) (m : GridLayoutManager Item) (minimumSize : QSizeF) (rect : QRectF) : Prop where
  minimum  : minimumSize.width ≤ rect.width ∧ minimumSize.height ≤ rect.height
  free     : ∀ cell ∈ (layout.cellBasedGeometry rect).cells, m.isCellAvailable layout cell = true
  accepted : ∀ item items, (assignSpaceImpl layout { m with items } item rect).2 = true

theorem le_ceil_mul {q cell : ℚ} {k : ℤ} (hc : 0 < cell) (h : ⌈q / cell⌉ ≤ k) : q ≤ k * cell :=
  (div_le_iff₀ hc).mp (Int.ceil_le.mp h)

theorem nextAvailableSpace_found (hl : layout.Integral) {minimumSize : QSizeF}
    (hm : 0 < minimumSize.width ∧ 0 < minimumSize.height)
    (h : ¬(m.nextAvailableSpace layout item minimumSize direction).isEmpty = true) :
    Found layout m minimumSize (m.nextAvailableSpace layout item minimumSize direction) := by
  have ⟨rect, hsearch, hwidth, hheight, hfree⟩ := search_found hl _ h
  have hrect : m.nextAvailableSpace layout item minimumSize direction = rect.pixels layout := hsearch
  rw [min_eq_right (le_max_right ..)] at hwidth hheight
  have hw : 0 < rect.width := (Int.ceil_pos.mpr (div_pos hm.1 hl.cellWidth_pos)).trans_le hwidth
  have hh : 0 < rect.height := (Int.ceil_pos.mpr (div_pos hm.2 hl.cellHeight_pos)).trans_le hheight
  rw [hrect]
  constructor
  case minimum => exact ⟨le_ceil_mul hl.cellWidth_pos hwidth, le_ceil_mul hl.cellHeight_pos hheight⟩
  case free => rwa [QRect.cellBasedGeometry_pixels hl (inside_of_available hw hh hfree)]
  case accepted => exact fun item items => assignSpaceImpl_accepts item (isRectAvailable_pixels hl hw hh hfree)

end GridLayoutManager
end ContainmentLayoutManager

-- What holds between any two calls.
namespace ContainmentLayoutManager.GridLayoutManager

variable {Item : Type} [DecidableEq Item] {layout : AppletsLayout} {m m' : GridLayoutManager Item}
variable {item : Item} {cell : Cell} {rect : QRectF} {distances : List (ℤ × QRectF)} {dist : ℤ}

theorem mem_insertDistance {entry : ℤ × QRectF} (h : entry ∈ insertDistance distances dist rect) :
    entry ∈ distances ∨ entry = (dist, rect) := by
  simp only [insertDistance, List.mem_append, List.mem_cons, List.mem_filter] at h
  cases h with
  | inl h => exact .inl h.1
  | inr h => exact h.elim .inr fun h => .inl h.1

theorem insertDistance_ne_nil : insertDistance distances dist rect ≠ [] :=
  List.append_ne_nil_of_right_ne_nil _ (List.cons_ne_nil _ _)

-- The space for the item in one of the directions.
def spaceFor (layout : AppletsLayout) (m : GridLayoutManager Item) (item : Item)
    (direction : PreferredLayoutDirection) : QRectF :=
  m.nextAvailableSpace layout item ((m.items item).minimumSize layout) direction

theorem addDistance_cases (layout : AppletsLayout) (m : GridLayoutManager Item) (item : Item)
    (distances : List (ℤ × QRectF)) (direction : PreferredLayoutDirection) :
    (m.spaceFor layout item direction).isEmpty = true ∧ m.addDistance layout item distances direction = distances ∨
    ¬(m.spaceFor layout item direction).isEmpty = true ∧ ∃ dist,
      m.addDistance layout item distances direction =
        insertDistance distances dist (m.spaceFor layout item direction) := by
  simp only [addDistance]
  split
  case isTrue h => exact .inl ⟨h, rfl⟩
  case isFalse h => exact .inr ⟨h, _, rfl⟩

-- The distances hold what the directions so far have found.
theorem mem_foldl_addDistance {directions : List PreferredLayoutDirection} {entry : ℤ × QRectF}
    (h : entry ∈ directions.foldl (m.addDistance layout item) distances) : entry ∈ distances ∨
      ∃ direction ∈ directions, entry.2 = m.spaceFor layout item direction ∧
        ¬(m.spaceFor layout item direction).isEmpty = true := by
  induction directions generalizing distances
  case nil => exact .inl h
  case cons direction directions ih =>
    cases ih h with
    | inr h =>
      have ⟨other, hother, hfound⟩ := h
      exact .inr ⟨other, List.mem_cons_of_mem _ hother, hfound⟩
    | inl h =>
      cases addDistance_cases layout m item distances direction with
      | inl hempty => exact .inl (hempty.2 ▸ h)
      | inr hfound =>
        have ⟨hne, dist, heq⟩ := hfound
        cases mem_insertDistance (heq ▸ h) with
        | inl h => exact .inl h
        | inr h => exact .inr ⟨direction, List.mem_cons_self, h ▸ rfl, hne⟩

theorem foldl_addDistance_ne_nil {directions : List PreferredLayoutDirection} (h : distances ≠ []) :
    directions.foldl (m.addDistance layout item) distances ≠ [] := by
  induction directions generalizing distances
  case nil => exact h
  case cons direction directions ih =>
    refine ih ?_
    cases addDistance_cases layout m item distances direction with
    | inl hempty => rwa [hempty.2]
    | inr hfound =>
      have ⟨_, _, heq⟩ := hfound
      exact heq ▸ insertDistance_ne_nil

theorem isEmpty_of_foldl_addDistance {directions : List PreferredLayoutDirection}
    (h : directions.foldl (m.addDistance layout item) [] = []) :
    ∀ direction ∈ directions, (m.spaceFor layout item direction).isEmpty = true := by
  induction directions
  case nil => simp
  case cons direction directions ih =>
    rw [List.foldl_cons] at h
    cases addDistance_cases layout m item [] direction with
    | inl hempty =>
      rw [hempty.2] at h
      exact List.forall_mem_cons.mpr ⟨hempty.1, ih h⟩
    | inr hfound =>
      have ⟨_, _, heq⟩ := hfound
      exact absurd h (foldl_addDistance_ne_nil (heq ▸ insertDistance_ne_nil))

theorem candidateGeometry_cases (layout : AppletsLayout) (m : GridLayoutManager Item) (item : Item) :
    (∃ direction, m.candidateGeometry layout item = m.spaceFor layout item direction ∧
      ¬(m.spaceFor layout item direction).isEmpty = true) ∨
    (∀ direction ∈ searchedDirections, (m.spaceFor layout item direction).isEmpty = true) ∧
      m.candidateGeometry layout item = (m.items item).rect := by
  simp only [candidateGeometry]
  split
  case h_1 h => exact .inr ⟨isEmpty_of_foldl_addDistance h, rfl⟩
  case h_2 dist first others h =>
    have hfirst : (dist, first) ∈ searchedDirections.foldl (m.addDistance layout item) [] := h ▸ List.mem_cons_self
    cases mem_foldl_addDistance hfirst with
    | inl h => cases h
    | inr h =>
      have ⟨direction, _, hfound⟩ := h
      exact .inl ⟨direction, hfound⟩

-- No loop of the search in that direction goes on for ever.
structure SearchEnds (layout : AppletsLayout) (m : GridLayoutManager Item) (direction : PreferredLayoutDirection) :
    Prop where
  nextAvailableCell    : WellFounded fun next cell => ¬layout.isOutOfBounds cell = true ∧
    next = advance layout cell direction ∧ ¬m.isCellAvailable layout next = true
  freeSpaceInDirection : ∀ maxCellsNeeded : ℤ, WellFounded fun (next cell : ℤ × Cell) =>
    m.isCellAvailable layout cell.2 = true ∧ cell.1 < maxCellsNeeded ∧ next = (cell.1 + 1, nextCell cell.2 direction)
  nextAvailableSpace   : WellFounded fun next cell => m.isCellAvailable layout cell = true ∧
    next = m.nextAvailableCell layout cell direction

theorem searchEnds (direction : PreferredLayoutDirection) : SearchEnds layout m direction where
  nextAvailableCell :=
    Subrelation.wf (fun ⟨hin, hnext, _⟩ => hnext ▸ remaining_advance layout hin)
      (InvImage.wf (fun cell => remaining layout cell direction) wellFounded_lt)
  freeSpaceInDirection maxCellsNeeded :=
    Subrelation.wf (fun ⟨_, hlt, hnext⟩ => by subst hnext; exact show Int.toNat _ < Int.toNat _ by omega)
      (InvImage.wf (fun cell : ℤ × Cell => (maxCellsNeeded - cell.1).toNat) wellFounded_lt)
  nextAvailableSpace :=
    Subrelation.wf (fun ⟨havailable, hnext⟩ => hnext ▸ m.remaining_nextAvailableCell layout havailable)
      (InvImage.wf (fun cell => remaining layout cell direction) wellFounded_lt)

theorem Placed.eq_of_mem {item' : Item} {points points' : QSet Cell} (h : Placed layout m)
    (hi : m.pointsForItem.lookup item = some points) (hi' : m.pointsForItem.lookup item' = some points')
    (hc : cell ∈ points) (hc' : cell ∈ points') : item = item' := by
  have hitem := (h.inverse cell item).mpr ⟨points, hi, hc⟩
  have hitem' := (h.inverse cell item').mpr ⟨points', hi', hc'⟩
  exact Option.some.inj (hitem.symm.trans hitem')

structure Correct (layout : AppletsLayout) (m : GridLayoutManager Item) : Prop extends Placed layout m where
  apart     : ∀ item item' points points' cell, m.pointsForItem.lookup item = some points →
    m.pointsForItem.lookup item' = some points' → cell ∈ points → cell ∈ points' → item = item'
  found     : ∀ item minimumSize direction, 0 < minimumSize.width → 0 < minimumSize.height →
    ¬(m.nextAvailableSpace layout item minimumSize direction).isEmpty = true →
    Found layout m minimumSize (m.nextAvailableSpace layout item minimumSize direction)
  candidate : ∀ item, 0 < ((m.items item).minimumSize layout).width → 0 < ((m.items item).minimumSize layout).height →
    Found layout m ((m.items item).minimumSize layout) (m.candidateGeometry layout item) ∨
    (∀ direction ∈ searchedDirections, (m.spaceFor layout item direction).isEmpty = true) ∧
      m.candidateGeometry layout item = (m.items item).rect
  ends      : ∀ direction, SearchEnds layout m direction

theorem Placed.correct (h : Placed layout m) (hl : layout.Integral) : Correct layout m where
  toPlaced  := h
  apart     := fun _ _ _ _ _ hi hi' hc hc' => h.eq_of_mem hi hi' hc hc'
  found     := fun _ _ _ hw hh hne => nextAvailableSpace_found hl ⟨hw, hh⟩ hne
  candidate := by
    intro item hw hh
    cases candidateGeometry_cases layout m item with
    | inl hfound =>
      have ⟨direction, heq, hne⟩ := hfound
      rw [heq]
      exact .inl (nextAvailableSpace_found hl ⟨hw, hh⟩ hne)
    | inr hfull => exact .inr hfull
  ends      := searchEnds

theorem Placed.empty (items : Item → ItemContainer) (childItems : List Item) :
    Placed layout ({ items, childItems } : GridLayoutManager Item) :=
  cleared (m := { items, childItems })

theorem always_correct (hl : layout.Integral) (items : Item → ItemContainer) (childItems : List Item)
    (events : List (Event Item)) : Machine.Always (step layout) (Correct layout) { items, childItems } events :=
  .of_invariant events (Placed.empty items childItems) (fun h => h.correct hl) fun h hs => h.step hs

-- Two clocks on a desktop of ten by six cells.
theorem always_correct_clocks :
    let layout : AppletsLayout :=
      { width := 105, height := 60, cellWidth := 10, cellHeight := 10, minimumItemWidth := 20, minimumItemHeight := 20,
        defaultItemWidth := 40, defaultItemHeight := 40 }
    let clock : ItemContainer :=
      { key := "clock", x := 12, y := 7, width := 33, height := 0, rotation := 0, layoutAttached := some ⟨30, 15⟩,
        preferredLayoutDirection := .closest }
    Machine.Always (step layout) (Correct layout) { items := fun _ : Bool => clock, childItems := [true, false] }
      [.positionItemAndAssign true, .positionItemAndAssign false, .releaseSpace true, .resetLayout] :=
  always_correct ⟨⟨105, rfl⟩, ⟨60, rfl⟩, ⟨10, by decide, rfl⟩, ⟨10, by decide, rfl⟩⟩ _ _ _

end ContainmentLayoutManager.GridLayoutManager
