import PlasmaModel.ContainmentLayout.GridLayoutManager

-- Which cells are taken, and by whom.
namespace ContainmentLayoutManager

theorem QRect.mem_cells {rect : QRect} {cell : Cell} : cell ∈ rect.cells ↔
    (rect.y ≤ cell.1 ∧ cell.1 < rect.y + rect.height) ∧ rect.x ≤ cell.2 ∧ cell.2 < rect.x + rect.width := by
  simp only [cells, List.mem_flatMap, List.mem_map, List.mem_range]
  constructor
  case mp =>
    rintro ⟨row, hrow, column, hcolumn, rfl⟩
    exact ⟨⟨by omega, by omega⟩, by omega, by omega⟩
  case mpr =>
    intro ⟨⟨htop, hbottom⟩, hleft, hright⟩
    refine ⟨(cell.1 - rect.y).toNat, by omega, (cell.2 - rect.x).toNat, by omega, ?_⟩
    ext
    · exact show rect.y + ((cell.1 - rect.y).toNat : ℤ) = cell.1 by omega
    · exact show rect.x + ((cell.2 - rect.x).toNat : ℤ) = cell.2 by omega

namespace GridLayoutManager

variable {Item : Type} [DecidableEq Item] {layout : AppletsLayout} {m m' : GridLayoutManager Item}
variable {item : Item} {cell : Cell} {geometry rect : QRectF}

-- The two maps are inverse to each other, and the cells of each managed item are those of the rectangle that it was
-- assigned, all of them in the grid.
structure Placed (layout : AppletsLayout) (m : GridLayoutManager Item) : Prop where
  inverse : Holdings.Inverse m.grid m.pointsForItem
  covers  : ∀ {item points}, m.pointsForItem.lookup item = some points → ∃ geometry, m.assigned item = some geometry ∧
    ∀ cell, cell ∈ points ↔ cell ∈ (layout.cellBasedGeometry geometry).cells
  inside  : ∀ {item points}, m.pointsForItem.lookup item = some points →
    ∀ cell ∈ points, layout.isOutOfBounds cell = false

theorem isCellAvailable_iff : m.isCellAvailable layout cell = true ↔
    layout.isOutOfBounds cell = false ∧ m.grid.lookup cell = none := by
  simp [isCellAvailable, Hash.notMem_iff]

namespace Placed

theorem congr (h : Placed layout m) (hg : m'.grid = m.grid) (hp : m'.pointsForItem = m.pointsForItem)
    (ha : m'.assigned = m.assigned) : Placed layout m' where
  inverse := hg ▸ hp ▸ h.inverse
  covers  := hp ▸ ha ▸ h.covers
  inside  := hp ▸ h.inside

theorem setItem (h : Placed layout m) (item : Item) (properties : ItemContainer) :
    Placed layout (m.setItem item properties) :=
  h.congr rfl rfl rfl

theorem reorderTabOrder (h : Placed layout m) (item : Item) : Placed layout (m.reorderTabOrder item) := by
  rw [GridLayoutManager.reorderTabOrder]
  split
  case isTrue =>
    dsimp only
    split
    case h_1 => exact h.congr rfl rfl rfl
    case h_2 => exact h
  case isFalse => exact h

theorem cleared : Placed layout { m with grid := ∅, pointsForItem := ∅ } where
  inverse := .empty
  covers  := by simp
  inside  := by simp

theorem releaseSpaceImpl (h : Placed layout m) (item : Item) : Placed layout (m.releaseSpaceImpl item) := by
  rw [GridLayoutManager.releaseSpaceImpl]
  split
  case h_1 => exact h
  case h_2 points hpoints =>
    have hold {item' points'} (he : (m.pointsForItem.erase item).lookup item' = some points') :
        m.pointsForItem.lookup item' = some points' := by
      rw [Hash.lookup_erase] at he
      split at he
      case isTrue => cases he
      case isFalse => exact he
    exact {
      inverse := h.inverse.release hpoints
      covers  := fun he => h.covers (hold he)
      inside  := fun he => h.inside (hold he)
    }

end Placed

theorem releaseSpaceImpl_lookup : (m.releaseSpaceImpl item).pointsForItem.lookup item = none := by
  rw [releaseSpaceImpl]
  split
  case h_1 h => exact h
  case h_2 => exact AList.lookup_erase item m.pointsForItem

theorem isCellAvailable_of_isRectAvailable (h : m.isRectAvailable layout rect = true) :
    ∀ cell ∈ (layout.cellBasedGeometry rect).cells, m.isCellAvailable layout cell = true := by
  rw [isRectAvailable] at h
  split at h
  case isTrue => cases h
  case isFalse => exact List.all_eq_true.mp h

namespace Placed

theorem take (h : Placed layout m) (hlookup : m.pointsForItem.lookup item = none)
    (hcells : ∀ cell ∈ (layout.cellBasedGeometry geometry).cells, m.isCellAvailable layout cell = true) :
    Placed layout { m with
      grid          := (layout.cellBasedGeometry geometry).cells.foldl (fun grid cell => grid.insert cell item) m.grid
      pointsForItem := (layout.cellBasedGeometry geometry).cells.foldl
        (fun points cell => Holdings.hold points item cell) m.pointsForItem
      assigned      := Function.update m.assigned item (some geometry) } := by
  generalize hc : (layout.cellBasedGeometry geometry).cells = cells at hcells
  -- an item without cells has no entry, before and after
  have hpoints {points} (he : (cells.foldl (fun points cell => Holdings.hold points item cell) m.pointsForItem).lookup
      item = some points) : ∀ cell, cell ∈ points ↔ cell ∈ cells := by
    cases cells with
    | nil => cases hlookup.symm.trans he
    | cons first others =>
      have ⟨points', hpoints', hmem⟩ := Holdings.lookup_foldl_hold hlookup (List.cons_ne_nil first others)
      cases hpoints'.symm.trans he
      exact hmem
  constructor
  case inverse =>
    exact h.inverse.take hlookup fun cell hcell => (isCellAvailable_iff.mp (hcells cell hcell)).2
  case covers =>
    intro item' points he
    by_cases hi : item' = item
    case pos =>
      subst hi
      exact ⟨geometry, Function.update_self .., hc ▸ hpoints he⟩
    case neg =>
      rw [Holdings.lookup_foldl_hold_of_ne hi] at he
      have ⟨geometry', ha, hcovers⟩ := h.covers he
      exact ⟨geometry', (Function.update_of_ne hi _ _).trans ha, hcovers⟩
  case inside =>
    intro item' points he
    by_cases hi : item' = item
    case pos =>
      subst hi
      exact fun cell hcell => (isCellAvailable_iff.mp (hcells cell ((hpoints he cell).mp hcell))).1
    case neg =>
      rw [Holdings.lookup_foldl_hold_of_ne hi] at he
      exact h.inside he

theorem assignSpaceImpl (h : Placed layout m) (item : Item) (geometry : QRectF) :
    Placed layout (m.assignSpaceImpl layout item geometry).1 := by
  have hreleased := h.releaseSpaceImpl item
  rw [GridLayoutManager.assignSpaceImpl]
  dsimp only
  split
  case isFalse => exact hreleased
  case isTrue hrect =>
    have hcells := isCellAvailable_of_isRectAvailable hrect
    exact (hreleased.take releaseSpaceImpl_lookup hcells).reorderTabOrder item

theorem initializeSize (h : Placed layout m) (item : Item) : Placed layout (m.initializeSize layout item) := by
  rw [GridLayoutManager.initializeSize]
  split
  case isTrue => exact h.congr rfl rfl rfl
  case isFalse => exact h

theorem positionItem (h : Placed layout m) (item : Item) : Placed layout (m.positionItem layout item).1 :=
  (h.initializeSize item).setItem item _

theorem positionAndAssign (h : Placed layout m) (item : Item) : Placed layout (m.positionAndAssign layout item) :=
  (h.positionItem item).assignSpaceImpl item _

theorem positionItemAndAssign (h : Placed layout m) (item : Item) :
    Placed layout (m.positionItemAndAssign layout item) :=
  (h.releaseSpaceImpl item).positionAndAssign item

theorem foldl_positionAndAssign (h : Placed layout m) (items : List Item) :
    Placed layout (items.foldl (fun m item => m.positionAndAssign layout item) m) := by
  induction items generalizing m
  case nil => exact h
  case cons item items ih => exact ih (h.positionAndAssign item)

theorem restoreItem (h : Placed layout m) (item : Item) : Placed layout (m.restoreItem layout item).1 := by
  rw [GridLayoutManager.restoreItem]
  split
  case h_1 geom hgeom =>
    dsimp only
    split
    case isTrue => exact h.setItem item _
    case isFalse => exact ((h.setItem item _).releaseSpaceImpl item).positionAndAssign item
  case h_2 => exact h

theorem step {event : Event Item} (h : Placed layout m) (hs : step layout m event = some m') : Placed layout m' := by
  cases event <;> cases hs
  case itemChanged item properties => exact h.setItem item properties
  case childItemsChanged | layoutParsed => exact h.congr rfl rfl rfl
  case positionItemAndAssign item => exact h.positionItemAndAssign item
  case releaseSpace item => exact h.releaseSpaceImpl item
  case restoreItem item => exact h.restoreItem item
  case resetLayout => exact cleared.foldl_positionAndAssign m.childItems

end Placed

end GridLayoutManager
end ContainmentLayoutManager
