import Mathlib
import Mathlib.Data.List.GetD
import PlasmaModel.Positioner.Theorems.Maps

namespace Folder

variable {it : Iteration} {m : FolderModel} {i j row : Int} {name : String}

theorem FolderModel.url_inj (hi : 0 ≤ i ∧ i < m.rowCount) (hj : 0 ≤ j ∧ j < m.rowCount) (h : m.url i = m.url j) : i = j := by
  have hlen : m.rowCount = m.urls.length := rfl
  have hi' : i.toNat < m.urls.length := by omega
  have hj' : j.toNat < m.urls.length := by omega
  simp only [FolderModel.url, if_neg (show ¬i < 0 by omega), if_neg (show ¬j < 0 by omega),
    List.getD_eq_getElem _ _ hi', List.getD_eq_getElem _ _ hj'] at h
  have := (List.Nodup.getElem_inj_iff m.nodup).mp h
  omega

namespace Positioner

variable {s s' : Positioner} {D : Set Int} {maps : Positioner × QHash String Int}
variable {entries : List (Sigma fun _ : String => GridPosition)}

theorem sourceIndices_lookup :
    (sourceIndices m).lookup name = some row ↔ (0 ≤ row ∧ row < m.rowCount) ∧ m.url row = name := by
  have hn : ((rows 0 (m.rowCount - 1)).map m.url).Nodup := (nodup_rows _ _).map_on fun i hi j hj h => by
    rw [mem_rows] at hi hj
    exact FolderModel.url_inj (by omega) (by omega) h
  refine (Hash.lookup_foldl_insert (g := fun i => i) hn).trans ⟨?_, ?_⟩
  · rintro (⟨i, hi, hname, rfl⟩ | ⟨_, hnone⟩)
    · rw [mem_rows] at hi
      exact ⟨by omega, hname⟩
    · simp at hnone
  · intro ⟨hrow, hname⟩
    exact .inl ⟨row, mem_rows.mpr (by omega), hname, rfl⟩

-- The indices that are left in a pass are those of the rows that have no cell yet.
structure Placing (m : FolderModel) (maps : Positioner × QHash String Int) (D : Set Int) : Prop where
  placed : Placed maps.1 D
  rows   : ∀ row ∈ D, 0 ≤ row ∧ row < m.rowCount
  left   : ∀ name row, maps.2.lookup name = some row ↔ ((0 ≤ row ∧ row < m.rowCount) ∧ m.url row = name) ∧ row ∉ D

namespace Placing

theorem start (m : FolderModel) (s : Positioner) : Placing m (s.clearMaps, sourceIndices m) ∅ where
  placed := .clearMaps s
  rows row h := by contradiction
  left name row := by simp [sourceIndices_lookup]

theorem take (h : Placing m maps D) (hname : maps.2.lookup name = some row) (hs : Placed s' (insert row D)) :
    Placing m (s', maps.2.erase name) (insert row D) where
  placed := hs
  rows row' h' := by
    cases h'
    case inl he => exact he ▸ ((h.left name row).mp hname).1.1
    case inr hm => exact h.rows row' hm
  left name' row' := by
    have ⟨⟨hrow, hurl⟩, _⟩ := (h.left name row).mp hname
    rw [Hash.lookup_erase, Set.mem_insert_iff, not_or]
    split
    case isTrue he =>
      refine iff_of_false (by simp) fun ⟨⟨hrow', hurl'⟩, hne, _⟩ => hne ?_
      exact FolderModel.url_inj hrow' hrow (hurl'.trans (he.trans hurl.symm))
    case isFalse he =>
      rw [h.left, and_congr_right_iff]
      intro ⟨_, hurl'⟩
      exact ⟨fun hm => ⟨fun heq => he (hurl'.symm.trans (heq ▸ hurl)), hm⟩, And.right⟩

theorem restorePosition (h : Placing m maps D) (entry : Sigma fun _ : String => GridPosition) :
    ∃ D', Placing m (Positioner.restorePosition maps entry) D' := by
  simp only [Positioner.restorePosition]
  split
  case isFalse => exact ⟨D, h⟩
  case isTrue =>
    cases hname : maps.2.lookup entry.1
    case none => exact ⟨D, h⟩
    case some row =>
      dsimp only
      split
      case isTrue => exact ⟨D, h⟩
      case isFalse hc => exact ⟨_, h.take hname (h.placed.updateMaps hc ((h.left _ _).mp hname).2).1⟩

theorem replacePosition (h : Placing m maps D) (entry : Sigma fun _ : String => GridPosition) :
    ∃ D', Placing m (Positioner.replacePosition maps entry) D' := by
  simp only [Positioner.replacePosition]
  split
  case isFalse => exact ⟨D, h⟩
  case isTrue =>
    cases hname : maps.2.lookup entry.1
    case none => exact ⟨D, h⟩
    case some row => exact ⟨_, h.take hname (h.placed.placeInFreeRow ((h.left _ _).mp hname).2).1⟩

theorem foldl (entries : List (Sigma fun _ : String => GridPosition)) {f : Positioner × QHash String Int → (Sigma fun _ : String => GridPosition) → Positioner × QHash String Int}
    (hf : ∀ {maps D} (_ : Placing m maps D) entry, ∃ D', Placing m (f maps entry) D') (h : Placing m maps D) :
    ∃ D', Placing m (entries.foldl f maps) D' := by
  induction entries generalizing maps D
  case nil => exact ⟨D, h⟩
  case cons entry entries ih =>
    have ⟨_, h'⟩ := hf h entry
    exact ih h'

-- The rows that are left get free cells.
theorem placeInFreeRows {l : List (Sigma fun _ : String => Int)} (h : Placed s D) (hn : (l.map Sigma.snd).Nodup)
    (hl : ∀ e ∈ l, e.2 ∉ D) :
    Placed (l.foldl (fun s e => s.placeInFreeRow e.2) s) (D ∪ {row | row ∈ l.map Sigma.snd}) := by
  induction l generalizing s D
  case nil => simpa using h
  case cons e l ih =>
    have ⟨he, hn⟩ := List.nodup_cons.mp (List.map_cons ▸ hn)
    rw [List.foldl_cons, List.map_cons, ← insert_union]
    apply ih (h.placeInFreeRow (hl e List.mem_cons_self)).1 hn
    intro e' he'
    rw [Set.mem_insert_iff, not_or]
    exact ⟨fun heq => he (heq ▸ List.mem_map_of_mem he'), hl e' (List.mem_cons_of_mem _ he')⟩

end Placing

theorem applyPositions_placed (it : Iteration) (s : Positioner) :
    Placed (s.applyPositions it) (sourceRows s) := by
  have ⟨D₁, h₁⟩ := (Placing.start s.folderModel s).foldl (it.order s.positions.entries) Placing.restorePosition
  have ⟨D, h⟩ := h₁.foldl (it.order s.positions.entries) Placing.replacePosition
  let maps := (it.order s.positions.entries).foldl replacePosition
    ((it.order s.positions.entries).foldl restorePosition (s.clearMaps, sourceIndices s.folderModel))
  have hleft : ∀ e, e ∈ it.order maps.2.entries ↔ ((0 ≤ e.2 ∧ e.2 < s.folderModel.rowCount) ∧ s.folderModel.url e.2 = e.1) ∧
      e.2 ∉ D := fun e => by
    rw [(it.perm _).mem_iff, ← h.left]
    exact Hash.mem_entries_iff
  have hn : ((it.order maps.2.entries).map Sigma.snd).Nodup := by
    apply (Hash.nodup_keys_of_perm (it.perm maps.2.entries)).of_map.map_on
    intro e he e' he' hrow
    have h₁ := ((hleft e).mp he).1.2
    have h₂ := ((hleft e').mp he').1.2
    rw [hrow, h₂] at h₁
    exact Sigma.ext h₁.symm (heq_of_eq hrow)
  apply (Placing.placeInFreeRows h.placed hn fun e he => ((hleft e).mp he).2).of_mem_iff
  intro row
  rw [Set.mem_union, Set.mem_ofPred_eq, List.mem_map]
  constructor
  case mp =>
    rintro (hm | ⟨e, he, rfl⟩)
    · exact h.rows row hm
    · exact ((hleft e).mp he).1.1
  case mpr =>
    intro hrow
    by_cases hm : row ∈ D
    case pos => exact .inl hm
    case neg => exact .inr ⟨⟨s.folderModel.url row, row⟩, (hleft _).mpr ⟨⟨hrow, rfl⟩, hm⟩, rfl⟩

end Positioner
end Folder

namespace Folder.Positioner

variable {entries : List (Sigma fun _ : String => GridPosition)} {s : Positioner} {header : PositionsHeader}

-- What is saved for the names.
def buckets (entries : List (Sigma fun _ : String => GridPosition)) : List String :=
  entries.flatMap fun ⟨filename, gridPos⟩ => [filename, gridPos.stripe.repr, gridPos.pos.repr]

theorem buckets_length : (buckets entries).length % 3 = 0 := by
  induction entries
  case nil => rfl
  case cons => simp [buckets, Nat.add_mod]

theorem readBuckets_buckets (positions : QHash String GridPosition) :
    readBuckets positions (buckets entries) =
      (entries.filter (·.1 ≠ "")).foldl (fun positions e => positions.insert e.1 e.2) positions := by
  induction entries generalizing positions
  case nil => rfl
  case cons e entries ih =>
    simp only [buckets, List.flatMap_cons, List.cons_append, List.nil_append, readBuckets, Int.toInt?_repr]
    split
    case isTrue hname => rw [← buckets, ih, List.filter_cons_of_neg (by simpa using hname)]
    case isFalse hname => rw [← buckets, ih, List.filter_cons_of_pos (by simpa using hname), List.foldl_cons]

-- The entries that are read back.
def savedPositions (it : Iteration) (s : Positioner) : QHash String GridPosition :=
  ((it.order s.positions.entries).filter (·.1 ≠ "")).foldl (fun positions e => positions.insert e.1 e.2) ∅

theorem readPositions_positionsList (it : Iteration) (s' : Positioner) (h : s.positionsHeader = some header) :
    s'.readPositions (s.positionsList it) =
      { s' with positionsHeader := some header, positions := s.savedPositions it } := by
  have hlist : s.positionsList it = header.numStripes.repr :: header.perStripe.repr :: buckets (it.order s.positions.entries) := by
    simp only [positionsList, h, buckets]
  rw [hlist, readPositions]
  simp only [Int.toInt?_repr, if_pos buckets_length, readBuckets_buckets, savedPositions]

theorem loadAndApplyPositionsConfig_saved {config : QHash String (List String)} (s s' : Positioner) (it it' : Iteration)
    (he : s'.enabled) (hs : s'.screenInUse) (hr : s'.resolution ≠ "") (hc : s'.config = some config)
    (hl : config.lookup s'.resolution = some (s.positionsList it)) (hh : s.positionsHeader = some header) :
    s'.loadAndApplyPositionsConfig it' =
      let read : Positioner := { s' with positionsHeader := some header, positions := s.savedPositions it }
      if read.positions.entries.isEmpty then read else read.convertFolderModelData it' := by
  unfold loadAndApplyPositionsConfig
  rw [hc]
  dsimp only
  rw [if_pos (by simp [he, hs, hr]), hl, Option.getD_some, readPositions_positionsList it s' hh, ← hc]

end Folder.Positioner
