import Mathlib.Logic.Relation
import PlasmaModel.Positioner.Theorems.Convert

namespace Folder.Positioner

variable {it : Iteration} {s s' s'' : Positioner} {start stop first last : Int}

-- A positioner without what its handlers change of the rows.
def settings (s : Positioner) : Positioner :=
  { s.clearMaps with pendingChanges := [], ignoreNextTransaction := false, beginInsertRowsCalled := false, signals := [] }

-- What changes nothing but the cells of the rows.
def OnlyMaps (s s' : Positioner) : Prop :=
  ∃ proxyToSource sourceToProxy, s' = { s with proxyToSource, sourceToProxy }

namespace OnlyMaps

theorem refl (s : Positioner) : OnlyMaps s s :=
  ⟨_, _, rfl⟩

theorem trans (h₁ : OnlyMaps s s') (h₂ : OnlyMaps s' s'') : OnlyMaps s s'' := by
  have ⟨_, _, h₁⟩ := h₁
  have ⟨p, q, h₂⟩ := h₂
  exact ⟨p, q, by rw [h₂, h₁]⟩

theorem updateMaps (s : Positioner) (cell row : Int) : OnlyMaps s (s.updateMaps cell row) :=
  ⟨_, _, rfl⟩

theorem clearMaps (s : Positioner) : OnlyMaps s s.clearMaps :=
  ⟨_, _, rfl⟩

theorem foldl {α β : Type} (positioner : β → Positioner) {f : β → α → β}
    (hf : ∀ b a, OnlyMaps (positioner b) (positioner (f b a))) (l : List α) (b : β) :
    OnlyMaps (positioner b) (positioner (l.foldl f b)) := by
  induction l generalizing b
  case nil => exact .refl _
  case cons a l ih => exact (hf b a).trans (ih (f b a))

theorem foldl_updateMaps {α : Type} (l : List α) (cell row : α → Int) (s : Positioner) :
    OnlyMaps s (l.foldl (fun s i => s.updateMaps (cell i) (row i)) s) :=
  foldl id (fun s i => updateMaps s (cell i) (row i)) l s

theorem initMaps (s : Positioner) (size : Int) : OnlyMaps s (s.initMaps size) :=
  (clearMaps s).trans (foldl_updateMaps _ _ _ _)

theorem placeInFreeRow (s : Positioner) (row : Int) : OnlyMaps s (s.placeInFreeRow row) :=
  ⟨_, _, rfl⟩

theorem restorePosition (maps : Positioner × QHash String Int) (entry : Sigma fun _ : String => GridPosition) :
    OnlyMaps maps.1 (Positioner.restorePosition maps entry).1 := by
  simp only [Positioner.restorePosition]
  split
  case isFalse => exact .refl _
  case isTrue =>
    split
    case h_1 => exact .refl _
    case h_2 =>
      split
      case isTrue => exact .refl _
      case isFalse => exact updateMaps _ _ _

theorem replacePosition (maps : Positioner × QHash String Int) (entry : Sigma fun _ : String => GridPosition) :
    OnlyMaps maps.1 (Positioner.replacePosition maps entry).1 := by
  simp only [Positioner.replacePosition]
  split
  case isFalse => exact .refl _
  case isTrue =>
    split
    case h_1 => exact .refl _
    case h_2 => exact updateMaps _ _ _

theorem applyPositions (it : Iteration) (s : Positioner) : OnlyMaps s (s.applyPositions it) := by
  have h₁ := (clearMaps s).trans (foldl Prod.fst restorePosition (it.order s.positions.entries)
    (s.clearMaps, sourceIndices s.folderModel))
  have h₂ := h₁.trans (foldl Prod.fst replacePosition (it.order s.positions.entries) _)
  exact h₂.trans (foldl id (fun s (e : Sigma fun _ : String => Int) => placeInFreeRow s e.2) _ _)

end OnlyMaps

theorem fillFreeRows_eq (l : List Int) (s : Positioner) :
    ∃ p q c, (s.fillFreeRows l).1 = { s with proxyToSource := p, sourceToProxy := q, pendingChanges := c } := by
  induction l generalizing s
  case nil => exact ⟨_, _, _, rfl⟩
  case cons i l ih =>
    simp only [fillFreeRows]
    split
    case isTrue => exact ih _
    case isFalse => exact ⟨_, _, _, rfl⟩

theorem foldl_takeSourceRow_eq (l : List Int) (s : Positioner) :
    ∃ q c, l.foldl takeSourceRow s = { s with sourceToProxy := q, pendingChanges := c } := by
  induction l generalizing s
  case nil => exact ⟨_, _, rfl⟩
  case cons i l ih => exact ih (s.takeSourceRow i)

theorem sourceRowsAboutToBeInserted_settings (it : Iteration) (s : Positioner) (start stop : Int) :
    (s.sourceRowsAboutToBeInserted it start stop).settings = s.settings := by
  unfold sourceRowsAboutToBeInserted
  split
  case isFalse => rfl
  case isTrue =>
    split
    case isTrue => rfl
    case isFalse =>
      split
      case isTrue =>
        have ⟨p, q, hm⟩ := OnlyMaps.initMaps { s.emit (.beginInsertRows start stop) with beginInsertRowsCalled := true } (stop + 1)
        rw [hm]
        rfl
      case isFalse =>
        have ⟨p, q, c, hf⟩ := fillFreeRows_eq (rows start stop) (s.shiftSourceRows it start (stop - start + 1))
        dsimp only
        split
        case h_1 s₂ heq =>
          rw [heq] at hf
          simp only at hf
          rw [hf]
          rfl
        case h_2 s₂ i _ heq =>
          rw [heq] at hf
          simp only at hf
          have ⟨p', q', hm⟩ := OnlyMaps.foldl_updateMaps (rows 0 (stop - i)) (s₂.lastRow + 1 + ·) (i + ·)
            { s₂.emit (.beginInsertRows (s₂.lastRow + 1) (s₂.lastRow + 1 + (stop - i))) with beginInsertRowsCalled := true }
          rw [hm, hf]
          rfl

theorem sourceRowsAboutToBeRemoved_settings (it : Iteration) (s : Positioner) (first last : Int) :
    (s.sourceRowsAboutToBeRemoved it first last).settings = s.settings := by
  unfold sourceRowsAboutToBeRemoved
  have ⟨q, c, ht⟩ := foldl_takeSourceRow_eq (rows first last) s
  split
  case isFalse => rfl
  case isTrue =>
    dsimp only
    split <;> rw [ht] <;> rfl

theorem recordPositions_eq (perStripe : Int) (entries : List (Sigma fun _ : Int => Int)) (s : Positioner) :
    ∃ positions, recordPositions perStripe entries s = { s with positions } := by
  induction entries generalizing s
  case nil => exact ⟨_, rfl⟩
  case cons e entries ih =>
    simp only [recordPositions]
    split
    case isTrue => exact ⟨_, rfl⟩
    case isFalse => exact ih _

theorem updatePositionsList_eq (it : Iteration) (s : Positioner) (perStripe : Int) :
    ∃ positionsHeader positions, s.updatePositionsList it perStripe = { s with positionsHeader, positions } := by
  unfold updatePositionsList
  split
  case isTrue =>
    have ⟨positions, h⟩ := recordPositions_eq (if perStripe ≤ 0 then s.perStripe else perStripe)
      (it.order s.proxyToSource.entries) { s with
        positionsHeader := some { numStripes := 1 + (s.rowCount - 1).tdiv s.perStripe, perStripe := s.perStripe } }
    exact ⟨_, positions, h⟩
  case isFalse => exact ⟨_, _, rfl⟩

theorem readPositions_eq (s : Positioner) (data : List String) :
    ∃ positionsHeader positions, s.readPositions data = { s with positionsHeader, positions } := by
  unfold readPositions
  split
  case h_1 =>
    split
    case h_1 => split <;> exact ⟨_, _, rfl⟩
    case h_2 => exact ⟨_, _, rfl⟩
  case h_2 => exact ⟨_, _, rfl⟩

theorem readPositions_positions (s s' : Positioner) (data : List String) :
    (s'.readPositions data).positions = (s.readPositions data).positions := by
  unfold readPositions
  split
  case h_1 =>
    split
    case h_1 => split <;> rfl
    case h_2 => rfl
  case h_2 => rfl

theorem savePositionsConfig_eq (it : Iteration) (s : Positioner) :
    ∃ config changedPositions, s.savePositionsConfig it = { s with config, changedPositions } := by
  unfold savePositionsConfig
  split
  case h_1 => split <;> exact ⟨_, _, rfl⟩
  case h_2 => exact ⟨_, _, rfl⟩

-- What neither changes the rows nor tells anything about them.
structure SameRows (s s' : Positioner) : Prop where
  enabled               : s'.enabled = s.enabled
  folderModel           : s'.folderModel = s.folderModel
  deferApplyPositions   : s'.deferApplyPositions = s.deferApplyPositions
  ignoreNextTransaction : s'.ignoreNextTransaction = s.ignoreNextTransaction
  beginInsertRowsCalled : s'.beginInsertRowsCalled = s.beginInsertRowsCalled
  proxyToSource         : s'.proxyToSource = s.proxyToSource
  sourceToProxy         : s'.sourceToProxy = s.sourceToProxy
  signals               : s'.signals = s.signals

namespace SameRows

theorem refl (s : Positioner) : SameRows s s :=
  ⟨rfl, rfl, rfl, rfl, rfl, rfl, rfl, rfl⟩

theorem trans (h₁ : SameRows s s') (h₂ : SameRows s' s'') : SameRows s s'' where
  enabled := h₂.enabled.trans h₁.enabled
  folderModel := h₂.folderModel.trans h₁.folderModel
  deferApplyPositions := h₂.deferApplyPositions.trans h₁.deferApplyPositions
  ignoreNextTransaction := h₂.ignoreNextTransaction.trans h₁.ignoreNextTransaction
  beginInsertRowsCalled := h₂.beginInsertRowsCalled.trans h₁.beginInsertRowsCalled
  proxyToSource := h₂.proxyToSource.trans h₁.proxyToSource
  sourceToProxy := h₂.sourceToProxy.trans h₁.sourceToProxy
  signals := h₂.signals.trans h₁.signals

theorem rowCount_eq (h : SameRows s s') : s'.rowCount = s.rowCount := by
  simp only [rowCount, lastRow, h.enabled, h.folderModel, h.proxyToSource]

theorem flushPendingChanges (s : Positioner) (inserted : Bool) : SameRows s (s.flushPendingChanges inserted) :=
  ⟨rfl, rfl, rfl, rfl, rfl, rfl, rfl, rfl⟩

theorem updatePositionsList (it : Iteration) (s : Positioner) (perStripe : Int) :
    SameRows s (s.updatePositionsList it perStripe) := by
  have ⟨header, positions, h⟩ := updatePositionsList_eq it s perStripe
  rw [h]
  exact ⟨rfl, rfl, rfl, rfl, rfl, rfl, rfl, rfl⟩

theorem readPositions (s : Positioner) (data : List String) : SameRows s (s.readPositions data) := by
  have ⟨header, positions, h⟩ := readPositions_eq s data
  rw [h]
  exact ⟨rfl, rfl, rfl, rfl, rfl, rfl, rfl, rfl⟩

theorem savePositionsConfig (it : Iteration) (s : Positioner) : SameRows s (s.savePositionsConfig it) := by
  have ⟨_, _, h⟩ := savePositionsConfig_eq it s
  rw [h]
  exact ⟨rfl, rfl, rfl, rfl, rfl, rfl, rfl, rfl⟩

theorem restoreChangedPosition (optimalStripes : Int) (r : Positioner × Bool × Bool)
    (entry : Sigma fun _ : String => Option ChangedPosition) :
    SameRows r.1 (Positioner.restoreChangedPosition optimalStripes r entry).1 := by
  simp only [Positioner.restoreChangedPosition]
  split
  case h_1 => exact .refl r.1
  case h_2 => split <;> exact ⟨rfl, rfl, rfl, rfl, rfl, rfl, rfl, rfl⟩

theorem restoreChangedPositions (it : Iteration) (s : Positioner) : SameRows s (s.restoreChangedPositions it).1 := by
  unfold Positioner.restoreChangedPositions
  apply List.foldlRecOn (motive := fun r : Positioner × Bool × Bool => SameRows s r.1)
  · exact .refl s
  · intro r h entry _
    exact h.trans (restoreChangedPosition _ r entry)

end SameRows

-- What a handler does once the rows are changed: it applies positions now and then.
def Reapplies (it : Iteration) : Positioner → Positioner → Prop :=
  Relation.ReflTransGen fun s s' => SameRows s s' ∨ s' = s.convertFolderModelData it

namespace Reapplies

theorem refl (it : Iteration) (s : Positioner) : Reapplies it s s :=
  Relation.ReflTransGen.refl

theorem trans (h₁ : Reapplies it s s') (h₂ : Reapplies it s' s'') : Reapplies it s s'' :=
  Relation.ReflTransGen.trans h₁ h₂

theorem same (h : SameRows s s') : Reapplies it s s' :=
  .single (.inl h)

theorem convertFolderModelData (it : Iteration) (s : Positioner) : Reapplies it s (s.convertFolderModelData it) :=
  .single (.inr rfl)

theorem loadAndApplyPositionsConfig (it : Iteration) (s : Positioner) : Reapplies it s (s.loadAndApplyPositionsConfig it) := by
  unfold Positioner.loadAndApplyPositionsConfig
  split
  case h_1 config _ =>
    split
    case isTrue =>
      have h : Reapplies it s (s.readPositions ((config.lookup s.resolution).getD [])) := .same (.readPositions _ _)
      dsimp only
      split
      case isTrue => exact h
      case isFalse => exact h.trans (.convertFolderModelData _ _)
    case isFalse => exact .refl it s
  case h_2 => exact .refl it s

theorem maybeRestoreAndApplyChangedPositions (it : Iteration) (s : Positioner) (force : Bool) :
    Reapplies it s (s.maybeRestoreAndApplyChangedPositions it force) := by
  have h : Reapplies it s (s.restoreChangedPositions it).1 := .same (.restoreChangedPositions it s)
  have hdone : ∀ s', Reapplies it s s' → Reapplies it s { s' with deferRestoreChangedPositions := false } :=
    fun s' h => h.trans (.same ⟨rfl, rfl, rfl, rfl, rfl, rfl, rfl, rfl⟩)
  unfold Positioner.maybeRestoreAndApplyChangedPositions
  apply hdone
  split
  case isTrue => exact (h.trans (.convertFolderModelData _ _)).trans (.same (.savePositionsConfig _ _))
  case isFalse =>
    split
    case isTrue => exact h.trans (.same (.savePositionsConfig _ _))
    case isFalse => exact h

end Reapplies

-- The state in which a handler has told that its transaction is over.
def endInsert (s : Positioner) : Positioner :=
  if !s.ignoreNextTransaction then
    if s.beginInsertRowsCalled then { s.emit .endInsertRows with beginInsertRowsCalled := false } else s
  else
    { s with ignoreNextTransaction := false }

def endRemove (s : Positioner) : Positioner :=
  if !s.ignoreNextTransaction then s.emit .endRemoveRows else { s with ignoreNextTransaction := false }

theorem endInsert_proxyToSource : s.endInsert.proxyToSource = s.proxyToSource := by
  unfold endInsert
  split
  case isTrue => split <;> rfl
  case isFalse => rfl

theorem endRemove_proxyToSource : s.endRemove.proxyToSource = s.proxyToSource := by
  unfold endRemove
  split <;> rfl

theorem sourceRowsInserted_reapplies (it : Iteration) (s : Positioner) : Reapplies it s.endInsert (s.sourceRowsInserted it) := by
  unfold sourceRowsInserted
  rw [← endInsert]
  have h : Reapplies it s.endInsert (s.endInsert.flushPendingChanges true) := .same (.flushPendingChanges _ _)
  dsimp only
  split
  case isTrue =>
    have h' := (h.trans (.loadAndApplyPositionsConfig it _)).trans (.same (.updatePositionsList it _ 0))
    split
    case isTrue => exact h'.trans (.maybeRestoreAndApplyChangedPositions it _ false)
    case isFalse => exact h'
  case isFalse => exact h

theorem sourceRowsRemoved_reapplies (it : Iteration) (s : Positioner) : Reapplies it s.endRemove (s.sourceRowsRemoved it) := by
  unfold sourceRowsRemoved
  rw [← endRemove]
  have h : Reapplies it s.endRemove (s.endRemove.flushPendingChanges false) := .same (.flushPendingChanges _ _)
  dsimp only
  split
  case isTrue => exact (h.trans (.loadAndApplyPositionsConfig it _)).trans (.same (.updatePositionsList it _ 0))
  case isFalse => exact h

-- Whether there are positions that were saved for the resolution.
def hasSavedPositions (s : Positioner) : Bool :=
  match s.config with
  | some config =>
    s.screenInUse && s.resolution ≠ "" &&
      !(s.readPositions ((config.lookup s.resolution).getD [])).positions.entries.isEmpty
  | none => false

theorem hasSavedPositions_congr (hc : s'.config = s.config) (hr : s'.resolution = s.resolution)
    (hs : s'.screenInUse = s.screenInUse) : s'.hasSavedPositions = s.hasSavedPositions := by
  simp only [hasSavedPositions, hc, hr, hs]
  split
  case h_1 => rw [readPositions_positions s s', hr]
  case h_2 => rfl

theorem loadAndApplyPositionsConfig_eq (it : Iteration) (h : s.hasSavedPositions = false) :
    ∃ positionsHeader positions, s.loadAndApplyPositionsConfig it = { s with positionsHeader, positions } := by
  unfold loadAndApplyPositionsConfig
  unfold hasSavedPositions at h
  split
  case h_1 config hconfig =>
    rw [hconfig] at h
    split
    case isTrue hload =>
      have ⟨_, _, hread⟩ := readPositions_eq s ((config.lookup s.resolution).getD [])
      simp only [Bool.and_eq_true] at hload
      rw [if_pos (by simpa [hload.1.2, hload.2] using h)]
      exact ⟨_, _, hread⟩
    case isFalse => exact ⟨_, _, rfl⟩
  case h_2 => exact ⟨_, _, rfl⟩

-- Without saved positions the rows stay where they are.
theorem sourceRowsInserted_same (it : Iteration) (h : s.hasSavedPositions = false)
    (hd : s.deferRestoreChangedPositions = false) : SameRows s.endInsert (s.sourceRowsInserted it) := by
  have hd : s.endInsert.deferRestoreChangedPositions = false := by
    unfold endInsert
    split
    case isTrue => split <;> exact hd
    case isFalse => exact hd
  have h : (s.endInsert.flushPendingChanges true).hasSavedPositions = false := by
    rw [← h]
    unfold endInsert
    split
    case isTrue => split <;> exact hasSavedPositions_congr rfl rfl rfl
    case isFalse => exact hasSavedPositions_congr rfl rfl rfl
  unfold sourceRowsInserted
  rw [← endInsert]
  have ⟨_, _, hload⟩ := loadAndApplyPositionsConfig_eq it h
  have ⟨_, _, hlist⟩ := updatePositionsList_eq it ((s.endInsert.flushPendingChanges true).loadAndApplyPositionsConfig it) 0
  dsimp only
  split
  case isTrue =>
    rw [hlist, hload, if_neg (by simpa [flushPendingChanges] using hd)]
    exact ⟨rfl, rfl, rfl, rfl, rfl, rfl, rfl, rfl⟩
  case isFalse => exact .flushPendingChanges _ _

theorem sourceRowsRemoved_same (it : Iteration) (h : s.hasSavedPositions = false) :
    SameRows s.endRemove (s.sourceRowsRemoved it) := by
  have h : (s.endRemove.flushPendingChanges false).hasSavedPositions = false := by
    rw [← h]
    unfold endRemove
    split <;> exact hasSavedPositions_congr rfl rfl rfl
  unfold sourceRowsRemoved
  rw [← endRemove]
  have ⟨_, _, hload⟩ := loadAndApplyPositionsConfig_eq it h
  have ⟨_, _, hlist⟩ := updatePositionsList_eq it ((s.endRemove.flushPendingChanges false).loadAndApplyPositionsConfig it) 0
  dsimp only
  split
  case isTrue =>
    rw [hlist, hload]
    exact ⟨rfl, rfl, rfl, rfl, rfl, rfl, rfl, rfl⟩
  case isFalse => exact .flushPendingChanges _ _

end Folder.Positioner
