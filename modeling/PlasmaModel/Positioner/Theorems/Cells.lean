import PlasmaModel.Positioner.Theorems.Handlers

namespace Folder.Positioner

variable {it : Iteration} {s s' : Positioner} {event : Event} {n : Int}

-- The positioner that gives every row of a listed folder a cell of its own.
structure Complete (s : Positioner) : Prop where
  enabled             : s.enabled
  listing             : s.folderModel.listing = false
  deferApplyPositions : s.deferApplyPositions = false
  placed              : Placed s (sourceRows s)

namespace Complete

theorem initMaps (he : s.enabled) (hl : s.folderModel.listing = false) (hd : s.deferApplyPositions = false) :
    Complete (s.initMaps s.folderModel.rowCount) := by
  have ⟨_, _, hmaps⟩ := OnlyMaps.initMaps s s.folderModel.rowCount
  have h := Placed.initMaps s s.folderModel.rowCount
  rw [hmaps] at h ⊢
  exact ⟨he, hl, hd, h⟩

theorem sameRows (h : Complete s) (hs : SameRows s s') : Complete s' where
  enabled := hs.enabled.trans h.enabled
  listing := by rw [hs.folderModel]; exact h.listing
  deferApplyPositions := hs.deferApplyPositions.trans h.deferApplyPositions
  placed := by
    rw [sourceRows, hs.folderModel]
    exact h.placed.congr hs.proxyToSource hs.sourceToProxy

theorem convertFolderModelData (it : Iteration) (h : Complete s) : Complete (s.convertFolderModelData it) := by
  unfold Positioner.convertFolderModelData
  rw [h.listing]
  dsimp only
  split
  case isTrue => exact ⟨h.enabled, h.listing, rfl, h.placed.congr rfl rfl⟩
  case isFalse =>
    let s₁ : Positioner := { s with deferApplyPositions := false }.emit .beginResetModel
    have h₁ := applyPositions_placed it s₁
    have ⟨_, _, heq⟩ := OnlyMaps.applyPositions it s₁
    rw [show sourceRows s₁ = sourceRows s from rfl] at h₁
    show Complete ((s₁.applyPositions it).emit (.endResetModel (s₁.applyPositions it).rowCount))
    rw [heq] at h₁ ⊢
    exact ⟨h.enabled, h.listing, rfl, h₁.congr rfl rfl⟩

theorem reapplies (h : Complete s) (hs : Reapplies it s s') : Complete s' := by
  induction hs
  case refl => exact h
  case tail s₁ s₂ _ hstep ih =>
    cases hstep
    case inl hsame => exact ih.sameRows hsame
    case inr heq => exact heq ▸ ih.convertFolderModelData it

theorem endInsert (h : Complete s) : Complete s.endInsert := by
  unfold Positioner.endInsert
  split
  case isTrue => split <;> exact ⟨h.enabled, h.listing, h.deferApplyPositions, h.placed.congr rfl rfl⟩
  case isFalse => exact ⟨h.enabled, h.listing, h.deferApplyPositions, h.placed.congr rfl rfl⟩

theorem endRemove (h : Complete s) : Complete s.endRemove := by
  unfold Positioner.endRemove
  split <;> exact ⟨h.enabled, h.listing, h.deferApplyPositions, h.placed.congr rfl rfl⟩

end Complete

theorem insertUrls_length {urls new : List String} {start : Nat} (h : start ≤ urls.length) :
    (insertUrls urls start new).length = urls.length + new.length := by
  simp [insertUrls]
  omega

theorem removeUrls_length {urls : List String} {first last : Nat} (hf : first ≤ last) (hl : last < urls.length) :
    (removeUrls urls first last).length = urls.length - (last - first + 1) := by
  simp [removeUrls]
  omega

-- The positioner between the two signals of an insertion, and of a removal, of the folder model.
def midInsert (it : Iteration) (s : Positioner) (start : Nat) (urls : List String)
    (h : (insertUrls s.folderModel.urls start urls).Nodup) : Positioner :=
  { s.sourceRowsAboutToBeInserted it start (start + urls.length - 1) with
    folderModel := { s.folderModel with urls := insertUrls s.folderModel.urls start urls, nodup := h } }

def midRemove (it : Iteration) (s : Positioner) (first last : Nat) (h : first ≤ last) : Positioner :=
  { s.sourceRowsAboutToBeRemoved it first last with
    folderModel := { s.folderModel with
      urls  := removeUrls s.folderModel.urls first last
      nodup := (removeUrls_sublist h).nodup s.folderModel.nodup } }

variable {start : Nat} {urls : List String} {first last : Nat}

theorem Step.eq_insertion (h : Step it s (.rowsInserted start urls) s') :
    start ≤ s.folderModel.urls.length ∧ urls ≠ [] ∧ ∃ hn, s' = (s.midInsert it start urls hn).sourceRowsInserted it := by
  cases h with
  | rowsInserted hs hu hn => exact ⟨hs, hu, hn, rfl⟩

theorem Step.eq_removal (h : Step it s (.rowsRemoved first last) s') :
    last < s.folderModel.urls.length ∧ ∃ hf, s' = (s.midRemove it first last hf).sourceRowsRemoved it := by
  cases h with
  | rowsRemoved hf hl => exact ⟨hl, hf, rfl⟩

theorem Complete.midInsert (h : Complete s) (hs : start ≤ s.folderModel.urls.length) (hu : urls ≠ [])
    (hn : (insertUrls s.folderModel.urls start urls).Nodup) : Complete (s.midInsert it start urls hn) := by
  have hset := sourceRowsAboutToBeInserted_settings it s start (start + urls.length - 1)
  have ⟨hp, _⟩ := sourceRowsAboutToBeInserted_placed it h.placed h.enabled h.deferApplyPositions hs hu
  refine ⟨(congrArg Positioner.enabled hset).trans h.enabled, h.listing,
    (congrArg Positioner.deferApplyPositions hset).trans h.deferApplyPositions, ?_⟩
  have hset : sourceRows (s.midInsert it start urls hn) = {row | 0 ≤ row ∧ row < s.folderModel.rowCount + urls.length} := by
    ext row
    simp [sourceRows, Positioner.midInsert, FolderModel.rowCount, insertUrls_length hs]
  rw [hset]
  exact hp.congr rfl rfl

theorem Complete.midRemove (h : Complete s) (hf : first ≤ last) (hl : last < s.folderModel.urls.length) :
    Complete (s.midRemove it first last hf) := by
  have hset := sourceRowsAboutToBeRemoved_settings it s first last
  have ⟨hp, _⟩ := sourceRowsAboutToBeRemoved_placed it h.placed h.enabled hf hl
  refine ⟨(congrArg Positioner.enabled hset).trans h.enabled, h.listing,
    (congrArg Positioner.deferApplyPositions hset).trans h.deferApplyPositions, ?_⟩
  have hset : sourceRows (s.midRemove it first last hf) =
      {row | 0 ≤ row ∧ row < s.folderModel.rowCount - ((last : Int) - first + 1)} := by
    ext row
    simp only [sourceRows, Positioner.midRemove, FolderModel.rowCount, removeUrls_length hf hl, Set.mem_ofPred_eq]
    omega
  rw [hset]
  exact hp.congr rfl rfl

def Event.isMove : Event → Bool
  | .move _ _ => true
  | _ => false

theorem Complete.step (h : Complete s) (hs : Step it s event s') (hm : event.isMove = false) : Complete s' := by
  cases hs
  case rowsInserted start urls hs hu hn =>
    exact (h.midInsert hs hu hn).endInsert.reapplies (sourceRowsInserted_reapplies it _)
  case rowsRemoved first last hf hl =>
    exact (h.midRemove hf hl).endRemove.reapplies (sourceRowsRemoved_reapplies it _)
  case convertFolderModelData positions =>
    have h' : Complete { s with positions } := ⟨h.enabled, h.listing, h.deferApplyPositions, h.placed.congr rfl rfl⟩
    exact h'.convertFolderModelData it
  case move => contradiction

-- What comes of a positioner that starts with the rows of a listed folder.
inductive Filled : Positioner → Prop
  | initMaps {s : Positioner} (he : s.enabled) (hl : s.folderModel.listing = false) (hd : s.deferApplyPositions = false) :
      Filled (s.initMaps s.folderModel.rowCount)
  | step {s s' : Positioner} {it : Iteration} {event : Event} (h : Filled s) (hs : Step it s event s')
      (hm : event.isMove = false) : Filled s'

theorem Filled.complete (h : Filled s) : Complete s := by
  induction h
  case initMaps he hl hd => exact .initMaps he hl hd
  case step _ hs hm ih => exact ih.step hs hm

theorem Complete.insertion_keeps (h : Complete s) (hs : Step it s (.rowsInserted start urls) s') (cell row : Int)
    (hc : s.proxyToSource.lookup cell = some row) :
    (s.sourceRowsAboutToBeInserted it start (start + urls.length - 1)).proxyToSource.lookup cell =
        some (insertedRow start urls.length row) ∧
      (s.hasSavedPositions = false → s.deferRestoreChangedPositions = false →
        s'.proxyToSource.lookup cell = some (insertedRow start urls.length row)) := by
  have ⟨hs, hu, hn, heq⟩ := hs.eq_insertion
  have ⟨_, hk⟩ := sourceRowsAboutToBeInserted_placed it h.placed h.enabled h.deferApplyPositions hs hu
  refine ⟨hk cell row hc, fun hsaved hdefer => ?_⟩
  have hset := sourceRowsAboutToBeInserted_settings it s start (start + urls.length - 1)
  have hsaved : (s.midInsert it start urls hn).hasSavedPositions = false := by
    rw [← hsaved]
    exact hasSavedPositions_congr ((congrArg Positioner.config hset).trans rfl)
      ((congrArg Positioner.resolution hset).trans rfl) rfl
  have hsame := sourceRowsInserted_same it hsaved ((congrArg Positioner.deferRestoreChangedPositions hset).trans hdefer)
  rw [heq, hsame.proxyToSource, endInsert_proxyToSource]
  exact hk cell row hc

theorem Complete.removal_keeps (h : Complete s) (hs : Step it s (.rowsRemoved first last) s') (cell row : Int)
    (hc : s.proxyToSource.lookup cell = some row) (hr : row < first ∨ last < row) :
    (s.sourceRowsAboutToBeRemoved it first last).proxyToSource.lookup cell = some (removedRow first last row) ∧
      (s.hasSavedPositions = false → s'.proxyToSource.lookup cell = some (removedRow first last row)) := by
  have ⟨hl, hf, heq⟩ := hs.eq_removal
  have ⟨_, hk⟩ := sourceRowsAboutToBeRemoved_placed it h.placed h.enabled hf hl
  have hr : row ∉ rows first last := by
    rw [mem_rows]
    omega
  refine ⟨hk cell row hc hr, fun hsaved => ?_⟩
  have hset := sourceRowsAboutToBeRemoved_settings it s first last
  have hsaved : (s.midRemove it first last hf).hasSavedPositions = false := by
    rw [← hsaved]
    exact hasSavedPositions_congr ((congrArg Positioner.config hset).trans rfl)
      ((congrArg Positioner.resolution hset).trans rfl) rfl
  rw [heq, (sourceRowsRemoved_same it hsaved).proxyToSource, endRemove_proxyToSource]
  exact hk cell row hc hr

-- Saved positions are what the handlers apply in the end. Without any, a row that is neither inserted nor
-- removed stays in its cell.
theorem rows_in_cells (s : Positioner) (h : Filled s) :
    (∀ cell row, s.proxyToSource.lookup cell = some row ↔ s.sourceToProxy.lookup row = some cell) ∧
    (∀ row, (∃ cell, s.sourceToProxy.lookup row = some cell) ↔ 0 ≤ row ∧ row < s.folderModel.rowCount) ∧
    (∀ it start urls s', Step it s (.rowsInserted start urls) s' → ∀ cell row, s.proxyToSource.lookup cell = some row →
      (s.sourceRowsAboutToBeInserted it start (start + urls.length - 1)).proxyToSource.lookup cell =
          some (insertedRow start urls.length row) ∧
        (s.hasSavedPositions = false → s.deferRestoreChangedPositions = false →
          s'.proxyToSource.lookup cell = some (insertedRow start urls.length row))) ∧
    (∀ it first last s', Step it s (.rowsRemoved first last) s' → ∀ cell row, s.proxyToSource.lookup cell = some row →
      row < first ∨ last < row →
        (s.sourceRowsAboutToBeRemoved it first last).proxyToSource.lookup cell = some (removedRow first last row) ∧
          (s.hasSavedPositions = false → s'.proxyToSource.lookup cell = some (removedRow first last row))) := by
  have hc := h.complete
  refine ⟨hc.placed.inverse, hc.placed.rows, ?_, ?_⟩
  · exact fun it start urls s' hs => hc.insertion_keeps hs
  · exact fun it first last s' hs => hc.removal_keeps hs

-- A folder of three files, of which the position of one is saved.
def inOrder : Iteration :=
  ⟨fun entries => entries, fun entries => .refl entries⟩

def firstPosition : Positioner where
  folderModel     := { urls := [], nodup := .nil }
  positionsHeader := some { numStripes := 1, perStripe := 5 }
  positions       := (∅ : QHash String GridPosition).insert "a" { stripe := 0, pos := 0 }

def threeFiles : Positioner where
  folderModel := { urls := ["a", "b", "c"], nodup := by decide }
  perStripe   := 5
  resolution  := "r"
  config      := some ((∅ : QHash String (List String)).insert "r" (firstPosition.positionsList inOrder))

theorem rows_in_cells_three_files :
    ((threeFiles.initMaps 3).sourceRowsAboutToBeRemoved inOrder (1 : Nat) (1 : Nat)).proxyToSource.lookup 2 =
      some (removedRow 1 1 2) :=
  ((rows_in_cells (threeFiles.initMaps 3) (.initMaps rfl rfl rfl)).2.2.2 inOrder 1 1 _ (.rowsRemoved le_rfl (by decide))
    2 2 (by decide) (.inr (by decide))).1

-- The position that is saved is applied again when the file in the middle is removed. The last one
-- moves up.
theorem removed_row_moves_another :
    Filled (threeFiles.initMaps 3) ∧
    Step inOrder (threeFiles.initMaps 3) (.rowsRemoved 1 1)
      (((threeFiles.initMaps 3).midRemove inOrder 1 1 le_rfl).sourceRowsRemoved inOrder) ∧
    (threeFiles.initMaps 3).proxyToSource.lookup 2 = some 2 ∧
    (((threeFiles.initMaps 3).midRemove inOrder 1 1 le_rfl).sourceRowsRemoved inOrder).proxyToSource.lookup 2 = none ∧
    (((threeFiles.initMaps 3).midRemove inOrder 1 1 le_rfl).sourceRowsRemoved inOrder).proxyToSource.lookup 1 = some 1 := by
  refine ⟨.initMaps rfl rfl rfl, .rowsRemoved le_rfl (by decide), by decide, ?_⟩
  let s := ((threeFiles.initMaps 3).midRemove inOrder 1 1 le_rfl).endRemove.flushPendingChanges false
  have hload := loadAndApplyPositionsConfig_saved firstPosition s inOrder inOrder (by decide) (by decide)
    (by decide) rfl (AList.lookup_insert _) rfl
  have hs : (((threeFiles.initMaps 3).midRemove inOrder 1 1 le_rfl).sourceRowsRemoved inOrder).proxyToSource =
      (s.loadAndApplyPositionsConfig inOrder).proxyToSource :=
    (SameRows.updatePositionsList inOrder (s.loadAndApplyPositionsConfig inOrder) 0).proxyToSource
  rw [hs, hload]
  decide

end Folder.Positioner
