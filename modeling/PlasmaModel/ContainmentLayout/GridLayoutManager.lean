import Mathlib.Data.Rat.Floor
import PlasmaModel.Lib.ListMove
import PlasmaModel.Lib.QSet
import PlasmaModel.Lib.Runs

-- The manager that places the widgets of a desktop in the cells of a grid.
namespace ContainmentLayoutManager

structure QSizeF where
  width  : ℚ
  height : ℚ

structure QRectF where
  x      : ℚ := 0
  y      : ℚ := 0
  width  : ℚ := 0
  height : ℚ := 0

def QRectF.isEmpty (rect : QRectF) : Bool :=
  rect.width ≤ 0 || rect.height ≤ 0

-- The row and the column of a cell.
abbrev Cell := ℤ × ℤ

structure QSize where
  width  : ℤ
  height : ℤ
deriving DecidableEq

structure QRect where
  x      : ℤ
  y      : ℤ
  width  : ℤ
  height : ℤ

-- Row by row.
def QRect.cells (rect : QRect) : List Cell :=
  (List.range rect.height.toNat).flatMap fun row : ℕ =>
    (List.range rect.width.toNat).map fun column : ℕ => (rect.y + row, rect.x + column)

-- `round` moves halves away from zero, and a conversion to `int` drops what is behind the point.
def round (q : ℚ) : ℤ :=
  if 0 ≤ q then ⌊q + 1 / 2⌋ else -⌊-q + 1 / 2⌋

def truncate (q : ℚ) : ℤ :=
  if 0 ≤ q then ⌊q⌋ else ⌈q⌉

def qBound (low value high : ℚ) : ℚ :=
  max low (min high value)

inductive PreferredLayoutDirection
  | closest
  | leftToRight
  | rightToLeft
  | topToBottom
  | bottomToTop
deriving DecidableEq

structure AppletsLayout where
  width             : ℚ
  height            : ℚ
  cellWidth         : ℚ
  cellHeight        : ℚ
  minimumItemWidth  : ℚ
  minimumItemHeight : ℚ
  defaultItemWidth  : ℚ
  defaultItemHeight : ℚ

namespace AppletsLayout

variable (layout : AppletsLayout)

def rows : ℤ :=
  truncate (layout.height / layout.cellHeight)

def columns : ℤ :=
  truncate (layout.width / layout.cellWidth)

def cellBasedGeometry (geom : QRectF) : QRect where
  x      := round (qBound 0 geom.x (max 0 (layout.width - geom.width)) / layout.cellWidth)
  y      := round (qBound 0 geom.y (max 0 (layout.height - geom.height)) / layout.cellHeight)
  width  := round (geom.width / layout.cellWidth)
  height := round (geom.height / layout.cellHeight)

def isOutOfBounds (cell : Cell) : Bool :=
  cell.1 < 0 || cell.2 < 0 || layout.rows ≤ cell.1 || layout.columns ≤ cell.2

end AppletsLayout

open PreferredLayoutDirection

def nextCell (cell : Cell) : PreferredLayoutDirection → Cell
  | bottomToTop           => (cell.1 - 1, cell.2)
  | topToBottom           => (cell.1 + 1, cell.2)
  | rightToLeft           => (cell.1, cell.2 - 1)
  | leftToRight | closest => (cell.1, cell.2 + 1)

-- Where a search goes on that has left the grid.
def nextLine (cell : Cell) : PreferredLayoutDirection → Cell
  | bottomToTop           => (cell.1, cell.2 - 1)
  | topToBottom           => (cell.1, cell.2 + 1)
  | rightToLeft           => (cell.1 - 1, cell.2)
  | leftToRight | closest => (cell.1 + 1, cell.2)

-- The size hints of the item's attached layout.
structure SizeHints where
  minimumWidth  : ℚ
  minimumHeight : ℚ

structure ItemContainer where
  key                      : String
  x                        : ℚ
  y                        : ℚ
  width                    : ℚ
  height                   : ℚ
  rotation                 : ℚ
  layoutAttached           : Option SizeHints
  preferredLayoutDirection : PreferredLayoutDirection

namespace ItemContainer

def rect (item : ItemContainer) : QRectF where
  x      := item.x
  y      := item.y
  width  := item.width
  height := item.height

def minimumSize (layout : AppletsLayout) (item : ItemContainer) : QSizeF :=
  let minimumSize : QSizeF := ⟨truncate layout.minimumItemWidth, truncate layout.minimumItemHeight⟩
  match item.layoutAttached with
  | some hints => ⟨max minimumSize.width hints.minimumWidth, max minimumSize.height hints.minimumHeight⟩
  | none => minimumSize

end ItemContainer

structure Geom where
  x        : ℚ
  y        : ℚ
  width    : ℚ
  height   : ℚ
  rotation : ℚ

structure GridLayoutManager (Item : Type) [DecidableEq Item] where
  items         : Item → ItemContainer
  -- the item containers of the layout, except for its place holder
  childItems    : List Item
  grid          : AList fun _ : Cell => Item := ∅
  pointsForItem : AList fun _ : Item => QSet Cell := ∅
  parsedConfig  : AList fun _ : String => Geom := ∅
  -- with which geometry the item has last been assigned its space, which no function reads
  assigned      : Item → Option QRectF := fun _ => none

namespace GridLayoutManager

variable {Item : Type} [DecidableEq Item] (layout : AppletsLayout) (m : GridLayoutManager Item)

def isCellAvailable (cell : Cell) : Bool :=
  !layout.isOutOfBounds cell && cell ∉ m.grid

def itemIsManaged (item : Item) : Bool :=
  item ∈ m.pointsForItem

def isRectAvailable (rect : QRectF) : Bool :=
  if rect.x < 0 ∨ rect.y < 0 ∨ layout.width < rect.x + rect.width ∨ layout.height < rect.y + rect.height then
    false
  else
    (layout.cellBasedGeometry rect).cells.all (m.isCellAvailable layout)

def releaseSpaceImpl (item : Item) : GridLayoutManager Item :=
  match m.pointsForItem.lookup item with
  | none => m
  | some points =>
    { m with
      grid          := points.values.foldl (fun grid point => grid.erase point) m.grid
      pointsForItem := m.pointsForItem.erase item }

-- Both items have the layout as their parent.
def stackBefore (item item2 : Item) : GridLayoutManager Item :=
  { m with
    childItems :=
      let others := m.childItems.erase item
      others.insertIdx (others.idxOf item2) item }

def reorderTabOrder (item : Item) : GridLayoutManager Item :=
  if item ∈ m.childItems then
    let covered := m.childItems.find? fun item2 =>
      item ≠ item2 ∧ (m.items item).y < (m.items item2).y + (m.items item2).height ∧ (m.items item).x ≤ (m.items item2).x
    match covered with
    | some item2 => m.stackBefore item item2
    | none => m
  else
    m

def assignSpaceImpl (item : Item) (geometry : QRectF) : GridLayoutManager Item × Bool :=
  let m := m.releaseSpaceImpl item
  if m.isRectAvailable layout geometry then
    let cells := (layout.cellBasedGeometry geometry).cells
    let m := { m with
      grid          := cells.foldl (fun grid cell => grid.insert cell item) m.grid
      pointsForItem := cells.foldl (fun points cell => Holdings.hold points item cell) m.pointsForItem
      assigned      := Function.update m.assigned item (some geometry) }
    (m.reorderTabOrder item, true)
  else
    (m, false)

-- The loop of `nextAvailableCell` and `nextTakenCell`: the cell after this one, which is on another line if the grid
-- ends there.
def advance (cell : Cell) (direction : PreferredLayoutDirection) : Cell :=
  let nCell := nextCell cell direction
  if layout.isOutOfBounds nCell then nextLine nCell direction else nCell

-- How many cells of the line there are from this one to the end of the grid.
def remaining (cell : Cell) (direction : PreferredLayoutDirection) : ℕ :=
  if layout.isOutOfBounds cell then
    0
  else
    match direction with
    | bottomToTop           => (cell.1 + 1).toNat
    | topToBottom           => (layout.rows - cell.1).toNat
    | rightToLeft           => (cell.2 + 1).toNat
    | leftToRight | closest => (layout.columns - cell.2).toNat

theorem remaining_advance {cell : Cell} {direction : PreferredLayoutDirection} (h : ¬layout.isOutOfBounds cell = true) :
    remaining layout (advance layout cell direction) direction < remaining layout cell direction := by
  cases direction <;> simp [remaining, advance, nextCell, nextLine, AppletsLayout.isOutOfBounds] at h ⊢ <;> split <;> grind

def nextAvailableCell.search (direction : PreferredLayoutDirection) (nCell : Cell) : Cell :=
  if h : layout.isOutOfBounds nCell then
    (-1, -1)
  else
    let next := advance layout nCell direction
    if m.isCellAvailable layout next then next else search direction next
termination_by remaining layout nCell direction
decreasing_by exact remaining_advance layout h

def nextAvailableCell (cell : Cell) (direction : PreferredLayoutDirection) : Cell :=
  nextAvailableCell.search layout m direction (min cell.1 (layout.rows - 1), min cell.2 (layout.columns - 1))

-- Counts on from `avail`, at most up to `maxCellsNeeded`.
def freeSpaceInDirection.count (direction : PreferredLayoutDirection) (maxCellsNeeded avail : ℤ) (nCell : Cell) : ℤ :=
  if m.isCellAvailable layout nCell ∧ avail < maxCellsNeeded then
    count direction maxCellsNeeded (avail + 1) (nextCell nCell direction)
  else
    avail
termination_by (maxCellsNeeded - avail).toNat

def freeSpaceInDirection (cell : Cell) (direction : PreferredLayoutDirection) (maxCellsNeeded : ℤ) : ℤ :=
  freeSpaceInDirection.count layout m direction maxCellsNeeded 0 cell

-- What has been measured of a space: the extent that all lines have so far, and the number of lines.
structure Extent where
  across : ℤ
  along  : ℤ

-- The loop of `nextAvailableSpace` over the lines from `line` on, whose free cells `free` counts.
def measureLines (free : ℤ → ℤ) (wanted minimum : Extent) : ℕ → ℤ → Extent → Extent
  | 0, _, measured => measured
  | count + 1, line, measured =>
    let freeLine := free line
    let across := min measured.across freeLine
    if freeLine ≤ 0 ∧ measured.along < minimum.along then
      { measured with across }
    else
      let along := if 0 < freeLine then measured.along + 1 else measured.along
      if (wanted.across ≤ across ∧ wanted.along ≤ along) ∨ across < minimum.across then
        { across, along }
      else
        measureLines free wanted minimum count (line + 1) { across, along }

def INT_MAX : ℤ :=
  2147483647

def measureRows (cell : Cell) (direction : PreferredLayoutDirection) (itemSize minimumGridSize : QSize) : QSize :=
  let freeRow := fun currentRow => m.freeSpaceInDirection layout (currentRow, cell.2) direction itemSize.width
  let measured := measureLines freeRow ⟨itemSize.width, itemSize.height⟩ ⟨minimumGridSize.width, minimumGridSize.height⟩
    itemSize.height.toNat cell.1 ⟨INT_MAX, 0⟩
  { width := measured.across, height := measured.along }

def measureColumns (cell : Cell) (direction : PreferredLayoutDirection) (itemSize minimumGridSize : QSize) : QSize :=
  let freeColumn := fun currentColumn => m.freeSpaceInDirection layout (cell.1, currentColumn) direction itemSize.height
  let measured := measureLines freeColumn ⟨itemSize.height, itemSize.width⟩
    ⟨minimumGridSize.height, minimumGridSize.width⟩ itemSize.width.toNat cell.2 ⟨INT_MAX, 0⟩
  { width := measured.along, height := measured.across }

-- A default `QSize` is not valid.
def measure (cell : Cell) (itemSize minimumGridSize : QSize) (direction : PreferredLayoutDirection) : QSize :=
  match direction with
  | leftToRight | rightToLeft => m.measureRows layout cell direction itemSize minimumGridSize
  | topToBottom | bottomToTop => m.measureColumns layout cell direction itemSize minimumGridSize
  | closest => { width := -1, height := -1 }

-- The space of that many cells that begins at the cell.
def spaceAt (cell : Cell) (size : QSize) (direction : PreferredLayoutDirection) : QRectF :=
  let width := truncate (size.width * layout.cellWidth)
  let height := truncate (size.height * layout.cellHeight)
  match direction with
  | bottomToTop =>
    { x := cell.2 * layout.cellWidth, y := (cell.1 + 1) * layout.cellHeight - height, width, height }
  | rightToLeft =>
    { x := (cell.2 + 1) * layout.cellWidth - width, y := cell.1 * layout.cellHeight, width, height }
  | topToBottom | leftToRight | closest =>
    { x := cell.2 * layout.cellWidth, y := cell.1 * layout.cellHeight, width, height }

theorem isOutOfBounds_eq_false_of_isCellAvailable {cell : Cell} (h : m.isCellAvailable layout cell = true) :
    ¬layout.isOutOfBounds cell = true := by
  simp [isCellAvailable] at h
  simp [h.1]

theorem remaining_search {direction : PreferredLayoutDirection} (cell : Cell) (h : ¬layout.isOutOfBounds cell = true) :
    remaining layout (nextAvailableCell.search layout m direction cell) direction < remaining layout cell direction := by
  induction cell using nextAvailableCell.search.induct layout m direction with
  | case1 cell hout => contradiction
  | case2 cell hin next hnext =>
    rw [nextAvailableCell.search, dif_neg hin, if_pos hnext]
    exact remaining_advance layout hin
  | case3 cell hin next hnext ih =>
    rw [nextAvailableCell.search, dif_neg hin, if_neg hnext]
    have hlt : remaining layout next direction < remaining layout cell direction := remaining_advance layout hin
    by_cases hout : layout.isOutOfBounds next = true
    case pos =>
      rw [nextAvailableCell.search, dif_pos hout]
      exact Nat.lt_of_le_of_lt (Nat.zero_le _) hlt
    case neg => exact (ih hout).trans hlt

theorem remaining_nextAvailableCell {cell : Cell} {direction : PreferredLayoutDirection}
    (h : m.isCellAvailable layout cell = true) :
    remaining layout (m.nextAvailableCell layout cell direction) direction < remaining layout cell direction := by
  have hin := m.isOutOfBounds_eq_false_of_isCellAvailable layout h
  have hcell : (min cell.1 (layout.rows - 1), min cell.2 (layout.columns - 1)) = cell := by
    simp [AppletsLayout.isOutOfBounds] at hin
    ext <;> simp <;> omega
  rw [nextAvailableCell, hcell]
  exact m.remaining_search layout cell hin

def nextAvailableSpace.search (itemSize minimumGridSize : QSize) (direction : PreferredLayoutDirection)
    (cell : Cell) : QRectF :=
  if h : m.isCellAvailable layout cell then
    let partialSize := m.measure layout cell itemSize minimumGridSize direction
    if minimumGridSize.width ≤ partialSize.width ∧ minimumGridSize.height ≤ partialSize.height then
      let size := { width := min itemSize.width partialSize.width, height := min itemSize.height partialSize.height }
      spaceAt layout cell size direction
    else
      search itemSize minimumGridSize direction (m.nextAvailableCell layout cell direction)
  else
    {}
termination_by remaining layout cell direction
decreasing_by exact m.remaining_nextAvailableCell layout h

def nextAvailableSpace (item : Item) (minimumSize : QSizeF) (direction : PreferredLayoutDirection) : QRectF :=
  let minimumGridSize : QSize :=
    { width := ⌈minimumSize.width / layout.cellWidth⌉, height := ⌈minimumSize.height / layout.cellHeight⌉ }
  let itemCellGeom := layout.cellBasedGeometry (m.items item).rect
  let itemSize : QSize :=
    { width  := max itemCellGeom.width minimumGridSize.width
      height := max itemCellGeom.height minimumGridSize.height }
  let cell : Cell :=
    match direction with
    | rightToLeft => (itemCellGeom.y, itemCellGeom.x + itemSize.width)
    | bottomToTop => (itemCellGeom.y + itemSize.height, itemCellGeom.x)
    | leftToRight | topToBottom | closest => (itemCellGeom.y, itemCellGeom.x)
  let cell := if m.isCellAvailable layout cell then cell else m.nextAvailableCell layout cell direction
  nextAvailableSpace.search layout m itemSize minimumGridSize direction cell

-- A `QMap` from distances to rectangles, in ascending order of its keys.
def insertDistance (distances : List (ℤ × QRectF)) (dist : ℤ) (rect : QRectF) : List (ℤ × QRectF) :=
  distances.filter (·.1 < dist) ++ (dist, rect) :: distances.filter (dist < ·.1)

-- How far the centers are from each other, and how much the sizes differ.
def score (original target : QRectF) : ℚ :=
  |original.x + original.width / 2 - (target.x + target.width / 2)| +
    |original.y + original.height / 2 - (target.y + target.height / 2)| +
    (|original.width - target.width| + |original.height - target.height|)

def searchedDirections : List PreferredLayoutDirection :=
  [leftToRight, rightToLeft, topToBottom, bottomToTop]

def addDistance (item : Item) (distances : List (ℤ × QRectF)) (direction : PreferredLayoutDirection) :
    List (ℤ × QRectF) :=
  let rect := m.nextAvailableSpace layout item ((m.items item).minimumSize layout) direction
  if rect.isEmpty then
    distances
  else
    let dist := if (m.items item).preferredLayoutDirection = direction then 0 else truncate (score (m.items item).rect rect)
    insertDistance distances dist rect

-- The closest rectangle, unless the item prefers one of the directions, or the one that it has if the grid is full.
def candidateGeometry (item : Item) : QRectF :=
  let distances := searchedDirections.foldl (m.addDistance layout item) []
  match distances with
  | [] => (m.items item).rect
  | (_, first) :: _ => first

def setItem (item : Item) (properties : ItemContainer) : GridLayoutManager Item :=
  { m with items := Function.update m.items item properties }

def setSize (item : Item) (width height : ℚ) : GridLayoutManager Item :=
  m.setItem item { m.items item with width, height }

def initializeSize (item : Item) : GridLayoutManager Item :=
  if (m.items item).width ≤ 0 ∨ (m.items item).height ≤ 0 then
    m.setSize item (max layout.minimumItemWidth layout.defaultItemWidth)
      (max layout.minimumItemHeight layout.defaultItemHeight)
  else
    m

def positionItem (item : Item) : GridLayoutManager Item × QRectF :=
  let m := m.initializeSize layout item
  let candidate := m.candidateGeometry layout item
  (m.setItem item { m.items item with
    x      := candidate.x
    y      := candidate.y
    width  := candidate.width
    height := candidate.height }, candidate)

def positionAndAssign (item : Item) : GridLayoutManager Item :=
  let (m, candidate) := m.positionItem layout item
  (m.assignSpaceImpl layout item candidate).1

def positionItemAndAssign (item : Item) : GridLayoutManager Item :=
  (m.releaseSpaceImpl item).positionAndAssign layout item

def releaseSpace (item : Item) : GridLayoutManager Item :=
  m.releaseSpaceImpl item

def resetLayout : GridLayoutManager Item :=
  m.childItems.foldl (fun m item => m.positionAndAssign layout item) { m with grid := ∅, pointsForItem := ∅ }

def restoreItem (item : Item) : GridLayoutManager Item × Bool :=
  match m.parsedConfig.lookup (m.items item).key with
  | some geom =>
    let m := m.setItem item { m.items item with
      x        := geom.x
      y        := geom.y
      width    := geom.width
      height   := geom.height
      rotation := geom.rotation }
    if layout.width ≤ 0 ∨ layout.height ≤ 0 then
      (m, true)
    else
      ((m.releaseSpaceImpl item).positionAndAssign layout item, true)
  | none => (m, false)

end GridLayoutManager

-- Beside the calls: what else becomes of the items, and another configuration that is parsed.
inductive Event (Item : Type)
  | itemChanged (item : Item) (properties : ItemContainer)
  | childItemsChanged (childItems : List Item)
  | layoutParsed (parsedConfig : AList fun _ : String => Geom)
  | positionItemAndAssign (item : Item)
  | releaseSpace (item : Item)
  | restoreItem (item : Item)
  | resetLayout

open GridLayoutManager in
def step {Item : Type} [DecidableEq Item] (layout : AppletsLayout) (m : GridLayoutManager Item) :
    Event Item → Option (GridLayoutManager Item)
  | .itemChanged item properties   => some (m.setItem item properties)
  | .childItemsChanged childItems  => some { m with childItems }
  | .layoutParsed parsedConfig     => some { m with parsedConfig }
  | .positionItemAndAssign item    => some (m.positionItemAndAssign layout item)
  | .releaseSpace item             => some (m.releaseSpace item)
  | .restoreItem item              => some (m.restoreItem layout item).1
  | .resetLayout                   => some (m.resetLayout layout)

end ContainmentLayoutManager
