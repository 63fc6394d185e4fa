import PlasmaModel.Positioner.Theorems.Cells

namespace Folder.Positioner

variable {it : Iteration} {s s' s'' : Positioner} {event : Event} {cell row count count' : Int}

-- The rows that a view counts, which follows what it is told. New rows come behind the ones it knows, and
-- the last ones go.
def replay (count : Int) : List Signal → Option Int
  | [] => some count
  | .beginInsertRows first last :: .endInsertRows :: rest =>
    if first = count ∧ first ≤ last then replay (count + (last - first + 1)) rest else none
  | .beginRemoveRows first last :: .endRemoveRows :: rest =>
    if first ≤ last ∧ last = count - 1 then replay (count - (last - first + 1)) rest else none
  | .beginResetModel :: .endResetModel rowCount :: rest => replay rowCount rest
  | _ => none

theorem replay_append {signals rest : List Signal} (h : replay count signals = some count') :
    replay count (signals ++ rest) = replay count' rest := by
  fun_induction replay count signals
  case case1 => simp_all
  case case2 hif ih => rw [List.cons_append, List.cons_append, replay, if_pos hif, ih h]
  case case4 hif ih => rw [List.cons_append, List.cons_append, replay, if_pos hif, ih h]
  case case6 ih => rw [List.cons_append, List.cons_append, replay, ih h]
  all_goals contradiction

-- What is announced accounts for the rows.
def Announces (s s' : Positioner) : Prop :=
  ∃ signals, s'.signals = s.signals ++ signals ∧ replay s.rowCount signals = some s'.rowCount

namespace Announces

theorem trans (h₁ : Announces s s') (h₂ : Announces s' s'') : Announces s s'' := by
  have ⟨signals, hs, hr⟩ := h₁
  have ⟨rest, hs', hr'⟩ := h₂
  exact ⟨signals ++ rest, by rw [hs', hs, List.append_assoc], by rw [replay_append hr, hr']⟩

theorem of_eq (hs : s'.signals = s.signals) (hr : s'.rowCount = s.rowCount) : Announces s s' :=
  ⟨[], by rw [hs, List.append_nil], by rw [hr, replay]⟩

theorem convertFolderModelData (it : Iteration) (s : Positioner) : Announces s (s.convertFolderModelData it) := by
  unfold Positioner.convertFolderModelData
  dsimp only
  split
  case isTrue => exact of_eq rfl rfl
  case isFalse =>
    let s₁ : Positioner := { s with deferApplyPositions := s.folderModel.listing }.emit .beginResetModel
    have ⟨_, _, heq⟩ := OnlyMaps.applyPositions it s₁
    refine ⟨[.beginResetModel, .endResetModel (s₁.applyPositions it).rowCount], ?_, rfl⟩
    show (s₁.applyPositions it).signals ++ _ = _
    rw [heq]
    exact List.append_assoc _ _ _

theorem reapplies (h : Reapplies it s s') : Announces s s' := by
  induction h
  case refl => exact of_eq rfl rfl
  case tail s₁ s₂ _ hstep ih =>
    cases hstep
    case inl hsame => exact ih.trans (of_eq hsame.signals hsame.rowCount_eq)
    case inr heq => exact heq ▸ ih.trans (convertFolderModelData it s₁)

end Announces

theorem lastRow_eq (h : cell ∈ s.proxyToSource) (hle : ∀ cell' ∈ s.proxyToSource, cell' ≤ cell) : s.lastRow = cell := by
  unfold lastRow
  rw [List.max?_eq_some_iff.mpr ⟨h, hle⟩]
  rfl

theorem lastRow_mem (h : cell ∈ s.proxyToSource) : s.lastRow ∈ s.proxyToSource := by
  have hm : cell ∈ s.proxyToSource.keys := h
  unfold lastRow
  cases hmax : s.proxyToSource.keys.max?
  case none =>
    rw [List.max?_eq_none_iff.mp hmax] at hm
    contradiction
  case some last => exact (List.max?_eq_some_iff.mp hmax).1

theorem lastRow_of_forall_notMem (h : ∀ cell, cell ∉ s.proxyToSource) : s.lastRow = 0 := by
  have hkeys : s.proxyToSource.keys = [] := List.eq_nil_iff_forall_not_mem.mpr h
  rw [lastRow, hkeys]
  rfl

-- A positioner between its transactions.
structure Idle (s : Positioner) : Prop where
  enabled               : s.enabled
  listing               : s.folderModel.listing = false
  deferApplyPositions   : s.deferApplyPositions = false
  ignoreNextTransaction : s.ignoreNextTransaction = false
  beginInsertRowsCalled : s.beginInsertRowsCalled = false

theorem rowCount_eq (h : s.enabled) : s.rowCount = s.lastRow + 1 :=
  if_pos h

namespace Idle

theorem sameRows (h : Idle s) (hs : SameRows s s') : Idle s' where
  enabled := hs.enabled.trans h.enabled
  listing := by rw [hs.folderModel]; exact h.listing
  deferApplyPositions := hs.deferApplyPositions.trans h.deferApplyPositions
  ignoreNextTransaction := hs.ignoreNextTransaction.trans h.ignoreNextTransaction
  beginInsertRowsCalled := hs.beginInsertRowsCalled.trans h.beginInsertRowsCalled

theorem convertFolderModelData (it : Iteration) (h : Idle s) : Idle (s.convertFolderModelData it) := by
  unfold Positioner.convertFolderModelData
  rw [h.listing]
  dsimp only
  split
  case isTrue => exact ⟨h.enabled, h.listing, rfl, h.ignoreNextTransaction, h.beginInsertRowsCalled⟩
  case isFalse =>
    let s₁ : Positioner := { s with deferApplyPositions := false }.emit .beginResetModel
    have ⟨_, _, heq⟩ := OnlyMaps.applyPositions it s₁
    show Idle ((s₁.applyPositions it).emit (.endResetModel (s₁.applyPositions it).rowCount))
    rw [heq]
    exact ⟨h.enabled, h.listing, rfl, h.ignoreNextTransaction, h.beginInsertRowsCalled⟩

theorem reapplies (h : Idle s) (hs : Reapplies it s s') : Idle s' := by
  induction hs
  case refl => exact h
  case tail s₁ s₂ _ hstep ih =>
    cases hstep
    case inl hsame => exact ih.sameRows hsame
    case inr heq => exact heq ▸ ih.convertFolderModelData it

end Idle

-- The last row.

theorem firstFreeRow_le (h : s.firstFreeRow ≠ -1) : s.firstFreeRow ≤ s.lastRow := by
  unfold firstFreeRow at h ⊢
  split at h
  case isTrue => contradiction
  case isFalse he =>
    rw [if_neg he]
    cases hf : (rows 0 s.lastRow).find? (· ∉ s.proxyToSource)
    case none => exact absurd (by rw [hf]; rfl) h
    case some i => exact (mem_rows.mp (List.mem_of_find?_eq_some hf)).2

theorem mem_updateMaps {cell' : Int} : cell' ∈ (s.updateMaps cell row).proxyToSource ↔ cell' = cell ∨ cell' ∈ s.proxyToSource :=
  AList.mem_insert _

theorem updateMaps_lastRow {some : Int} (h : some ∈ s.proxyToSource) : (s.updateMaps cell row).lastRow = max s.lastRow cell := by
  apply lastRow_eq
  · rw [mem_updateMaps]
    rcases max_choice s.lastRow cell with hmax | hmax <;> rw [hmax]
    · exact .inr (lastRow_mem h)
    · exact .inl rfl
  · intro cell' hm
    rcases mem_updateMaps.mp hm with rfl | hm
    · exact le_max_right _ _
    · exact (le_lastRow hm).trans (le_max_left _ _)

theorem fillFreeRows_lastRow {l : List Int} (h : cell ∈ s.proxyToSource) :
    (s.fillFreeRows l).1.lastRow = s.lastRow ∧ cell ∈ (s.fillFreeRows l).1.proxyToSource := by
  induction l generalizing s
  case nil => exact ⟨rfl, h⟩
  case cons i l ih =>
    simp only [fillFreeRows]
    split
    case isFalse => exact ⟨rfl, h⟩
    case isTrue hfree =>
      let s₁ : Positioner := { s.updateMaps s.firstFreeRow i with pendingChanges := s.pendingChanges ++ [s.firstFreeRow] }
      obtain ⟨hl, hm⟩ := ih (s := s₁) (mem_updateMaps.mpr (.inr h))
      have hlast : s₁.lastRow = s.lastRow := (updateMaps_lastRow h).trans (max_eq_left (firstFreeRow_le hfree))
      exact ⟨hl.trans hlast, hm⟩

theorem foldl_updateMaps_mem {α : Type} {l : List α} {cells rows : α → Int} :
    cell ∈ (l.foldl (fun s i => s.updateMaps (cells i) (rows i)) s).proxyToSource ↔ cell ∈ s.proxyToSource ∨ cell ∈ l.map cells := by
  induction l generalizing s
  case nil => simp
  case cons a l ih => rw [List.foldl_cons, ih, mem_updateMaps, List.map_cons, List.mem_cons, or_assoc, or_left_comm]

theorem appendRows_lastRow {first last : Int} (hle : first ≤ last) :
    ((rows 0 (last - first)).foldl (fun s' i => s'.updateMaps (s.lastRow + 1 + i) (first + i)) s).lastRow =
      s.lastRow + 1 + (last - first) := by
  apply lastRow_eq
  · exact foldl_updateMaps_mem.mpr (.inr (List.mem_map.mpr ⟨last - first, mem_rows.mpr (by omega), rfl⟩))
  · intro cell hm
    rcases foldl_updateMaps_mem.mp hm with hm | hm
    · have := le_lastRow hm
      omega
    · have ⟨i, hi, heq⟩ := List.mem_map.mp hm
      have := mem_rows.mp hi
      omega

theorem shiftSourceRows_keys (it : Iteration) (s : Positioner) (start count : Int) :
    (s.shiftSourceRows it start count).proxyToSource.keys = s.proxyToSource.keys := by
  simp only [shiftSourceRows, AList.keys, List.keys, List.map_map]
  rfl

-- Insertions and removals.

theorem fillFreeRows_left (l : List Int) (s : Positioner) : ∃ taken, l = taken ++ (s.fillFreeRows l).2 := by
  induction l generalizing s
  case nil => exact ⟨[], rfl⟩
  case cons i l ih =>
    simp only [fillFreeRows]
    split
    case isTrue =>
      obtain ⟨taken, h⟩ :=
        ih { s.updateMaps s.firstFreeRow i with pendingChanges := s.pendingChanges ++ [s.firstFreeRow] }
      exact ⟨i :: taken, congrArg (List.cons i) h⟩
    case isFalse => exact ⟨[], rfl⟩

-- The new rows all are in free cells, or some are behind the last row.
theorem sourceRowsAboutToBeInserted_cases (start stop : Int) (it : Iteration) (hi : Idle s) (hm : cell ∈ s.proxyToSource) :
    let s' := s.sourceRowsAboutToBeInserted it start stop
    (s'.signals = s.signals ∧ s'.ignoreNextTransaction = true ∧ s'.beginInsertRowsCalled = false ∧ s'.lastRow = s.lastRow) ∨
    ∃ last > s.lastRow, s'.signals = s.signals ++ [.beginInsertRows (s.lastRow + 1) last] ∧
      s'.ignoreNextTransaction = false ∧ s'.beginInsertRowsCalled = true ∧ s'.lastRow = last := by
  have hempty : ¬s.proxyToSource.entries.isEmpty := fun hempty => by
    have hm : cell ∈ s.proxyToSource.entries.map Sigma.fst := hm
    rw [List.isEmpty_iff.mp hempty] at hm
    contradiction
  have hm₁ : cell ∈ (s.shiftSourceRows it start (stop - start + 1)).proxyToSource := by
    rw [AList.mem_keys, shiftSourceRows_keys]
    exact hm
  have hlast₁ : (s.shiftSourceRows it start (stop - start + 1)).lastRow = s.lastRow := by
    unfold lastRow
    rw [shiftSourceRows_keys]
  have ⟨hlast₂, _⟩ := fillFreeRows_lastRow (l := rows start stop) hm₁
  have ⟨_, _, _, hfill⟩ := fillFreeRows_eq (rows start stop) (s.shiftSourceRows it start (stop - start + 1))
  have ⟨taken, htaken⟩ := fillFreeRows_left (rows start stop) (s.shiftSourceRows it start (stop - start + 1))
  unfold sourceRowsAboutToBeInserted
  rw [if_pos hi.enabled, if_neg (by simp [hi.deferApplyPositions]), if_neg hempty]
  dsimp only
  split
  case h_1 s₂ heq =>
    rw [heq] at hlast₂ hfill
    dsimp only at hlast₂ hfill
    left
    rw [hfill] at hlast₂ ⊢
    exact ⟨rfl, rfl, hi.beginInsertRowsCalled, hlast₂.trans hlast₁⟩
  case h_2 s₂ rest tail heq =>
    rw [heq] at hlast₂ hfill htaken
    dsimp only at hlast₂ hfill htaken
    have hrest : rest ≤ stop := (mem_rows.mp (by rw [htaken]; simp)).2
    have hlast : s₂.lastRow = s.lastRow := hlast₂.trans hlast₁
    right
    let s₃ := { s₂.emit (.beginInsertRows (s₂.lastRow + 1) (s₂.lastRow + 1 + (stop - rest))) with beginInsertRowsCalled := true }
    have hlast₃ := appendRows_lastRow (s := s₃) hrest
    have ⟨_, _, hrows⟩ := OnlyMaps.foldl_updateMaps (rows 0 (stop - rest)) (s₂.lastRow + 1 + ·) (rest + ·) s₃
    have hsignals : s₂.signals = s.signals := (congrArg Positioner.signals hfill).trans rfl
    have hignore : s₂.ignoreNextTransaction = false := (congrArg Positioner.ignoreNextTransaction hfill).trans hi.ignoreNextTransaction
    refine ⟨s.lastRow + 1 + (stop - rest), by omega, ?_, ?_, ?_, by rw [← hlast]; exact hlast₃⟩
    · rw [← hsignals, ← hlast]
      exact congrArg Positioner.signals hrows
    · exact (congrArg Positioner.ignoreNextTransaction hrows).trans hignore
    · exact congrArg Positioner.beginInsertRowsCalled hrows

theorem midInsert_announces {start : Nat} {urls : List String} (it : Iteration) (hi : Idle s) (hm : cell ∈ s.proxyToSource)
    (hn : (insertUrls s.folderModel.urls start urls).Nodup) :
    Announces s (s.midInsert it start urls hn).endInsert ∧ Idle (s.midInsert it start urls hn).endInsert := by
  have hset := sourceRowsAboutToBeInserted_settings it s start (start + urls.length - 1)
  have he : (s.midInsert it start urls hn).enabled := (congrArg Positioner.enabled hset).trans hi.enabled
  have hd : (s.midInsert it start urls hn).deferApplyPositions = false :=
    (congrArg Positioner.deferApplyPositions hset).trans hi.deferApplyPositions
  cases sourceRowsAboutToBeInserted_cases start (start + urls.length - 1) it hi hm
  case inl h =>
    obtain ⟨hsignals, hignore, hbegin, hlast⟩ := h
    have hend : (s.midInsert it start urls hn).endInsert = { s.midInsert it start urls hn with ignoreNextTransaction := false } :=
      if_neg (by simpa [midInsert] using hignore)
    rw [hend]
    refine ⟨.of_eq hsignals ?_, ⟨he, hi.listing, hd, rfl, hbegin⟩⟩
    rw [rowCount_eq hi.enabled]
    exact (rowCount_eq he).trans (congrArg (· + 1) hlast)
  case inr h =>
    obtain ⟨last, hlt, hsignals, hignore, hbegin, hlast⟩ := h
    have hend : (s.midInsert it start urls hn).endInsert =
        { (s.midInsert it start urls hn).emit .endInsertRows with beginInsertRowsCalled := false } :=
      (if_pos (by simpa [midInsert] using hignore)).trans (if_pos hbegin)
    rw [hend]
    refine ⟨⟨[.beginInsertRows (s.lastRow + 1) last, .endInsertRows], ?_, ?_⟩, ⟨he, hi.listing, hd, hignore, rfl⟩⟩
    · show (s.midInsert it start urls hn).signals ++ _ = _
      rw [show (s.midInsert it start urls hn).signals = _ from hsignals, List.append_assoc]
      rfl
    · have hcount : ((s.midInsert it start urls hn).emit .endInsertRows).rowCount = last + 1 :=
        (rowCount_eq he).trans (congrArg (· + 1) hlast)
      rw [replay, if_pos ⟨(rowCount_eq hi.enabled).symm, hlt⟩, replay, rowCount_eq hi.enabled]
      refine congrArg some (Eq.trans ?_ hcount.symm)
      omega

-- The rows that an event leaves in their recorded cells.
def remains (s : Positioner) (first last cell : Int) : Prop :=
  ∃ row, s.sourceToProxy.lookup row = some cell ∧ row ∉ rows first last

theorem sourceRowsAboutToBeRemoved_mem (it : Iteration) (first last : Int) (he : s.enabled) (cell : Int) :
    cell ∈ (s.sourceRowsAboutToBeRemoved it first last).proxyToSource ↔ s.remains first last cell := by
  simp only [sourceRowsAboutToBeRemoved, if_pos he, Hash.mem_foldl_insert, List.mem_map, remains]
  constructor
  case mp =>
    rintro (hm | ⟨e, he, rfl⟩)
    · contradiction
    · rw [(it.perm _).mem_iff, Hash.mem_entries_iff, foldl_takeSourceRow_lookup] at he
      split at he
      case isTrue => contradiction
      case isFalse hnot => exact ⟨e.1, he, hnot⟩
  case mpr =>
    rintro ⟨row, hrow, hnot⟩
    refine .inr ⟨⟨row, cell⟩, ?_, rfl⟩
    rw [(it.perm _).mem_iff, Hash.mem_entries_iff, foldl_takeSourceRow_lookup, if_neg hnot]
    exact hrow

theorem sourceRowsAboutToBeRemoved_cases {first last : Int} (it : Iteration) (hi : Idle s)
    (hr : ∀ cell, s.remains first last cell → cell ≤ s.lastRow) (hn : (∃ cell, s.remains first last cell) ∨ 0 ≤ s.lastRow) :
    let s' := s.sourceRowsAboutToBeRemoved it first last
    s'.lastRow ≤ s.lastRow ∧ s'.beginInsertRowsCalled = false ∧
      (if s'.lastRow < s.lastRow then
        s'.signals = s.signals ++ [.beginRemoveRows (s'.lastRow + 1) s.lastRow] ∧ s'.ignoreNextTransaction = false
      else
        s'.signals = s.signals ∧ s'.ignoreNextTransaction = true) := by
  intro s'
  have ⟨_, _, htake⟩ := foldl_takeSourceRow_eq (rows first last) s
  have hcells := sourceRowsAboutToBeRemoved_mem it first last hi.enabled
  have hle : s'.lastRow ≤ s.lastRow := by
    cases hn
    case inl hm =>
      have ⟨cell, hm⟩ := hm
      exact hr _ ((hcells _).mp (lastRow_mem ((hcells cell).mpr hm)))
    case inr hpos =>
      by_cases hm : ∃ cell, cell ∈ s'.proxyToSource
      case pos =>
        have ⟨cell, hm⟩ := hm
        exact hr _ ((hcells _).mp (lastRow_mem hm))
      case neg => rwa [lastRow_of_forall_notMem (not_exists.mp hm)]
  let taken := (rows first last).foldl takeSourceRow s
  have hs' : s' = { (if s'.lastRow < s.lastRow then
      taken.emit (.beginRemoveRows (s.lastRow - (s.lastRow - s'.lastRow) + 1) s.lastRow)
    else { taken with ignoreNextTransaction := true }) with
      proxyToSource := s'.proxyToSource, sourceToProxy := s'.sourceToProxy } := by
    simp only [s', sourceRowsAboutToBeRemoved, if_pos hi.enabled]
    rfl
  have hsignals : taken.signals = s.signals := (congrArg Positioner.signals htake).trans rfl
  have hignore : taken.ignoreNextTransaction = false :=
    (congrArg Positioner.ignoreNextTransaction htake).trans hi.ignoreNextTransaction
  have hbegin : taken.beginInsertRowsCalled = false :=
    (congrArg Positioner.beginInsertRowsCalled htake).trans hi.beginInsertRowsCalled
  refine ⟨hle, ?_⟩
  by_cases hlt : s'.lastRow < s.lastRow
  case pos =>
    rw [if_pos hlt] at hs' ⊢
    refine ⟨(congrArg Positioner.beginInsertRowsCalled hs').trans hbegin, ?_,
      (congrArg Positioner.ignoreNextTransaction hs').trans hignore⟩
    rw [← hsignals, show s'.lastRow + 1 = s.lastRow - (s.lastRow - s'.lastRow) + 1 by omega]
    exact congrArg Positioner.signals hs'
  case neg =>
    rw [if_neg hlt] at hs' ⊢
    exact ⟨(congrArg Positioner.beginInsertRowsCalled hs').trans hbegin, (congrArg Positioner.signals hs').trans hsignals,
      congrArg Positioner.ignoreNextTransaction hs'⟩

theorem midRemove_announces {first last : Nat} (it : Iteration) (hi : Idle s) (hf : first ≤ last)
    (hr : ∀ cell, s.remains first last cell → cell ≤ s.lastRow) (hn : (∃ cell, s.remains first last cell) ∨ 0 ≤ s.lastRow) :
    Announces s (s.midRemove it first last hf).endRemove ∧ Idle (s.midRemove it first last hf).endRemove := by
  have hset := sourceRowsAboutToBeRemoved_settings it s first last
  have he : (s.midRemove it first last hf).enabled := (congrArg Positioner.enabled hset).trans hi.enabled
  have hd : (s.midRemove it first last hf).deferApplyPositions = false :=
    (congrArg Positioner.deferApplyPositions hset).trans hi.deferApplyPositions
  obtain ⟨hle, hbegin, hcases⟩ := sourceRowsAboutToBeRemoved_cases it hi hr hn
  have hcount : (s.midRemove it first last hf).rowCount = (s.sourceRowsAboutToBeRemoved it first last).lastRow + 1 :=
    rowCount_eq he
  split at hcases
  case isTrue hlt =>
    obtain ⟨hsignals, hignore⟩ := hcases
    have hend : (s.midRemove it first last hf).endRemove = (s.midRemove it first last hf).emit .endRemoveRows :=
      if_pos (by simpa [midRemove] using hignore)
    rw [hend]
    refine ⟨⟨[.beginRemoveRows ((s.sourceRowsAboutToBeRemoved it first last).lastRow + 1) s.lastRow, .endRemoveRows], ?_, ?_⟩,
      ⟨he, hi.listing, hd, hignore, hbegin⟩⟩
    · show (s.midRemove it first last hf).signals ++ _ = _
      rw [show (s.midRemove it first last hf).signals = _ from hsignals, List.append_assoc]
      rfl
    · rw [rowCount_eq hi.enabled, replay, if_pos ⟨by omega, by omega⟩, replay]
      refine congrArg some (Eq.trans ?_ hcount.symm)
      omega
  case isFalse hlt =>
    obtain ⟨hsignals, hignore⟩ := hcases
    have hend : (s.midRemove it first last hf).endRemove = { s.midRemove it first last hf with ignoreNextTransaction := false } :=
      if_neg (by simpa [midRemove] using hignore)
    rw [hend]
    refine ⟨.of_eq hsignals ?_, ⟨he, hi.listing, hd, rfl, hbegin⟩⟩
    rw [rowCount_eq hi.enabled]
    refine hcount.trans ?_
    omega

end Folder.Positioner
