import PlasmaModel.ContainmentLayout.Theorems.Space

-- What the searches for free cells find, and what they miss.
namespace ContainmentLayoutManager.GridLayoutManager

open PreferredLayoutDirection

variable {Item : Type} [DecidableEq Item] {layout : AppletsLayout} {m : GridLayoutManager Item} {item : Item}
variable {cell start : Cell} {direction : PreferredLayoutDirection}

-- The cell where a search begins, which is in the grid unless a coordinate is negative.
def nearest (layout : AppletsLayout) (start : Cell) : Cell :=
  (min start.1 (layout.rows - 1), min start.2 (layout.columns - 1))

-- The order of the direction: rows first, or columns first.
def Follows (direction : PreferredLayoutDirection) (start cell : Cell) : Prop :=
  match direction with
  | leftToRight | closest => start.1 < cell.1 ∨ start.1 = cell.1 ∧ start.2 < cell.2
  | rightToLeft           => cell.1 < start.1 ∨ start.1 = cell.1 ∧ cell.2 < start.2
  | topToBottom           => start.2 < cell.2 ∨ start.2 = cell.2 ∧ start.1 < cell.1
  | bottomToTop           => cell.2 < start.2 ∨ start.2 = cell.2 ∧ cell.1 < start.1

-- The cell where that line of the space at a cell begins.
def lineAt (cell : Cell) (line : ℤ) : PreferredLayoutDirection → Cell
  | leftToRight | rightToLeft | closest => (cell.1 + line, cell.2)
  | topToBottom | bottomToTop           => (cell.1, cell.2 + line)

-- How long a line of this size is, and how many there are.
def extentOf (size : QSize) : PreferredLayoutDirection → Extent
  | leftToRight | rightToLeft | closest => ⟨size.width, size.height⟩
  | topToBottom | bottomToTop           => ⟨size.height, size.width⟩

-- All lines that the item has now begin with as many free cells as are needed.
def Fits (layout : AppletsLayout) (m : GridLayoutManager Item) (itemSize minimumGridSize : QSize)
    (direction : PreferredLayoutDirection) (cell : Cell) : Prop :=
  ∀ line : ℕ, line < (extentOf itemSize direction).along → ∀ k : ℕ, k < (extentOf minimumGridSize direction).across →
    m.isCellAvailable layout (shifted (lineAt cell line direction) k direction) = true

-- A size of some cells.
structure Positive (size : QSize) : Prop where
  width  : 0 < size.width ∧ size.width ≤ INT_MAX
  height : 0 < size.height ∧ size.height ≤ INT_MAX

variable {itemSize minimumGridSize : QSize}

theorem Fits.isCellAvailable (h : Fits layout m itemSize minimumGridSize direction cell)
    (hm : Positive minimumGridSize) (hw : minimumGridSize.width ≤ itemSize.width)
    (hh : minimumGridSize.height ≤ itemSize.height) : m.isCellAvailable layout cell = true := by
  have hline : lineAt cell 0 direction = cell := by cases direction <;> simp [lineAt]
  have hfirst := h 0 (by have := hm.height.1; have := hm.width.1; cases direction <;> simp [extentOf] <;> omega) 0
    (by have := hm.height.1; have := hm.width.1; cases direction <;> simp [extentOf] <;> omega)
  rwa [Nat.cast_zero, shifted_zero, hline] at hfirst

-- Four cells, of which only the last one is free.
def desktop : AppletsLayout where
  width             := 20
  height            := 20
  cellWidth         := 10
  cellHeight        := 10
  minimumItemWidth  := 10
  minimumItemHeight := 10
  defaultItemWidth  := 10
  defaultItemHeight := 10

end ContainmentLayoutManager.GridLayoutManager
