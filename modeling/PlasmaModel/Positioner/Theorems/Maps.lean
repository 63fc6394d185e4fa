import Mathlib.Data.Set.Insert
import PlasmaModel.Lib.Hash
import PlasmaModel.Positioner.Rows

namespace Folder.Positioner

variable {it : Iteration} {s s' : Positioner} {D D' : Set Int} {cell row i first last start count size : Int}
variable {pairs : List (Int × Int)} {rest l : List Int}

theorem mem_rows : i ∈ rows first last ↔ first ≤ i ∧ i ≤ last := by
  simp only [rows, List.mem_map, List.mem_range]
  constructor
  case mp =>
    rintro ⟨n, hn, rfl⟩
    omega
  case mpr => exact fun h => ⟨(i - first).toNat, by omega, by omega⟩

theorem pairwise_rows (first last : Int) : (rows first last).Pairwise (· < ·) :=
  List.pairwise_map.mpr (List.pairwise_lt_range.imp fun h => by omega)

theorem rows_split (h : rows first last = l ++ i :: rest) : (∀ j, j ∈ l ↔ first ≤ j ∧ j < i) ∧ first ≤ i ∧ i ≤ last := by
  have hmem : ∀ j, (first ≤ j ∧ j ≤ last) ↔ j ∈ l ∨ j = i ∨ j ∈ rest := fun j => by
    rw [← mem_rows, h, List.mem_append, List.mem_cons]
  have hp := pairwise_rows first last
  rw [h, List.pairwise_append, List.pairwise_cons] at hp
  have ⟨_, ⟨hrest, _⟩, hl⟩ := hp
  refine ⟨fun j => ⟨fun hj => ?_, fun hj => ?_⟩, ?_⟩
  · have := (hmem j).mpr (.inl hj)
    have := hl j hj i List.mem_cons_self
    omega
  · have := (hmem i).mpr (.inr (.inl rfl))
    rcases (hmem j).mp ⟨hj.1, by omega⟩ with hm | hm | hm
    · exact hm
    · omega
    · have := hrest j hm
      omega
  · exact (hmem i).mpr (.inr (.inl rfl))

theorem nodup_rows (first last : Int) : (rows first last).Nodup :=
  List.nodup_range.map fun i j (h : first + (i : Int) = first + j) => by omega

theorem insert_union (D : Set Int) (i : Int) (l : List Int) : insert i D ∪ {row | row ∈ l} = D ∪ {row | row ∈ i :: l} := by
  ext row
  simp [or_left_comm, or_assoc]

-- The rows of a set, and only these, are each in one cell.
structure Placed (s : Positioner) (D : Set Int) : Prop where
  inverse : ∀ cell row, s.proxyToSource.lookup cell = some row ↔ s.sourceToProxy.lookup row = some cell
  rows    : ∀ row, (∃ cell, s.sourceToProxy.lookup row = some cell) ↔ row ∈ D

-- Nothing is taken out of its cell.
def Keeps (s s' : Positioner) : Prop :=
  ∀ cell row, s.proxyToSource.lookup cell = some row → s'.proxyToSource.lookup cell = some row

theorem Keeps.trans {s'' : Positioner} (h₁ : Keeps s s') (h₂ : Keeps s' s'') : Keeps s s'' :=
  fun cell row h => h₂ cell row (h₁ cell row h)

-- The source rows of the folder model.
def sourceRows (s : Positioner) : Set Int :=
  {row | 0 ≤ row ∧ row < s.folderModel.rowCount}

theorem le_lastRow (h : cell ∈ s.proxyToSource) : cell ≤ s.lastRow := by
  have hm : cell ∈ s.proxyToSource.keys := h
  unfold lastRow
  cases hmax : s.proxyToSource.keys.max?
  case none => rw [List.max?_eq_none_iff.mp hmax] at hm; contradiction
  case some m => exact (List.max?_eq_some_iff.mp hmax).2 cell hm

theorem lastRow_succ_notMem (h : s.lastRow < cell) : cell ∉ s.proxyToSource :=
  fun hm => absurd (le_lastRow hm) (by omega)

theorem firstFreeRow_notMem (h : s.firstFreeRow ≠ -1) : s.firstFreeRow ∉ s.proxyToSource := by
  unfold firstFreeRow at h ⊢
  split at h
  case isTrue => contradiction
  case isFalse he =>
    rw [if_neg he]
    cases hf : (Folder.rows 0 s.lastRow).find? (· ∉ s.proxyToSource)
    case none => exact absurd h (by simpa using congrArg (Option.getD · (-1)) hf)
    case some i => simpa using List.find?_some hf

theorem freeToIndex_notMem : (if s.firstFreeRow = -1 then s.lastRow + 1 else s.firstFreeRow) ∉ s.proxyToSource := by
  split
  case isTrue => exact lastRow_succ_notMem (by omega)
  case isFalse h => exact firstFreeRow_notMem h

namespace Placed

theorem of_mem_iff (h : Placed s D) (hD : ∀ row, row ∈ D ↔ row ∈ D') : Placed s D' := by
  rwa [← Set.ext hD]

theorem congr (h : Placed s D) (hp : s'.proxyToSource = s.proxyToSource) (hs : s'.sourceToProxy = s.sourceToProxy) :
    Placed s' D where
  inverse cell row := by rw [hp, hs]; exact h.inverse cell row
  rows row := by rw [hs]; exact h.rows row

theorem clearMaps (s : Positioner) : Placed s.clearMaps ∅ where
  inverse cell row := by simp [Positioner.clearMaps]
  rows row := by simp [Positioner.clearMaps]

theorem updateMaps (h : Placed s D) (hc : cell ∉ s.proxyToSource) (hr : row ∉ D) :
    Placed (s.updateMaps cell row) (insert row D) ∧ Keeps s (s.updateMaps cell row) := by
  have hc : s.proxyToSource.lookup cell = none := Hash.notMem_iff.mp hc
  have hr' : ∀ cell', s.sourceToProxy.lookup row ≠ some cell' := fun cell' he => hr ((h.rows row).mp ⟨cell', he⟩)
  have hne : ∀ {cell' row'}, s.proxyToSource.lookup cell' = some row' → cell' ≠ cell ∧ row' ≠ row := by
    intro cell' row' he
    constructor
    · rintro rfl
      simp [hc] at he
    · rintro rfl
      exact hr' _ ((h.inverse _ _).mp he)
  refine ⟨⟨fun cell' row' => ?_, fun row' => ?_⟩, fun cell' row' he => ?_⟩
  · simp only [Positioner.updateMaps, Hash.lookup_insert]
    have hinv := h.inverse cell' row'
    have hinv' := h.inverse cell' row
    split <;> split
    case isTrue.isTrue hcell hrow => simp [hcell, hrow]
    case isTrue.isFalse hcell hrow =>
      refine iff_of_false (by simp [Ne.symm hrow]) fun he => ?_
      rw [← hinv, hcell, hc] at he
      contradiction
    case isFalse.isTrue hcell hrow =>
      exact iff_of_false (fun he => hr' cell' (hinv'.mp (hrow ▸ he))) (by simp [Ne.symm hcell])
    case isFalse.isFalse => exact hinv
  · simp only [Positioner.updateMaps, Hash.lookup_insert, Set.mem_insert_iff]
    split
    case isTrue hrow => simp [hrow]
    case isFalse hrow => simpa [hrow] using h.rows row'
  · simpa only [Positioner.updateMaps, Hash.lookup_insert, if_neg (hne he).1] using he

-- Rows which get cells that are free and different.
theorem foldl_updateMaps (h : Placed s D) (hcells : (pairs.map Prod.fst).Nodup) (hrows : (pairs.map Prod.snd).Nodup)
    (hfree : ∀ p ∈ pairs, p.1 ∉ s.proxyToSource ∧ p.2 ∉ D) :
    Placed (pairs.foldl (fun s p => s.updateMaps p.1 p.2) s) (D ∪ {row | row ∈ pairs.map Prod.snd}) ∧
      Keeps s (pairs.foldl (fun s p => s.updateMaps p.1 p.2) s) := by
  induction pairs generalizing s D
  case nil => exact ⟨by simpa using h, fun _ _ h => h⟩
  case cons p pairs ih =>
    have ⟨hp, hcells⟩ := List.nodup_cons.mp (List.map_cons ▸ hcells)
    have ⟨hp', hrows⟩ := List.nodup_cons.mp (List.map_cons ▸ hrows)
    have ⟨hc, hr⟩ := hfree p List.mem_cons_self
    have ⟨h₁, hk₁⟩ := h.updateMaps hc hr
    have ⟨h₂, hk₂⟩ := ih h₁ hcells hrows fun q hq => by
      have ⟨hqc, hqr⟩ := hfree q (List.mem_cons_of_mem _ hq)
      have hne : q.1 ≠ p.1 := fun he => hp (he ▸ List.mem_map_of_mem hq)
      have hne' : q.2 ≠ p.2 := fun he => hp' (he ▸ List.mem_map_of_mem hq)
      simp only [Positioner.updateMaps, AList.mem_insert, Set.mem_insert_iff]
      exact ⟨not_or.mpr ⟨hne, hqc⟩, not_or.mpr ⟨hne', hqr⟩⟩
    rw [List.foldl_cons, List.map_cons, ← insert_union]
    exact ⟨h₂, hk₁.trans hk₂⟩

theorem initMaps (s : Positioner) (size : Int) : Placed (s.initMaps size) {row | 0 ≤ row ∧ row < size} := by
  have hpairs : ∀ s : Positioner, (Folder.rows 0 (size - 1)).foldl (fun s i => s.updateMaps i i) s =
      ((Folder.rows 0 (size - 1)).map fun i => (i, i)).foldl (fun s p => s.updateMaps p.1 p.2) s := fun s => by
    rw [List.foldl_map]
  have hnodup : ∀ {f : Int × Int → Int}, (∀ i, f (i, i) = i) →
      (((Folder.rows 0 (size - 1)).map fun i => (i, i)).map f).Nodup := fun {f} hf => by
    rw [List.map_map]
    exact (nodup_rows _ _).map fun i j hij => by simpa [hf] using hij
  rw [Positioner.initMaps, hpairs]
  have h := (clearMaps s).foldl_updateMaps (hnodup fun _ => rfl) (hnodup fun _ => rfl)
    fun p _ => by simp [Positioner.clearMaps]
  apply h.1.of_mem_iff
  intro row
  simp only [List.map_map, List.mem_map, mem_rows, Set.mem_ofPred_eq, Set.empty_union, Function.comp]
  exact ⟨by rintro ⟨i, hi, rfl⟩; omega, fun hr => ⟨row, by omega, rfl⟩⟩

theorem placeInFreeRow (h : Placed s D) (hr : row ∉ D) :
    Placed (s.placeInFreeRow row) (insert row D) ∧ Keeps s (s.placeInFreeRow row) :=
  h.updateMaps freeToIndex_notMem hr

end Placed

-- Insertions.

theorem fillFreeRows_placed (h : Placed s D) (hn : l.Nodup) (hl : ∀ i ∈ l, i ∉ D) :
    ∃ taken, l = taken ++ (s.fillFreeRows l).2 ∧ Placed (s.fillFreeRows l).1 (D ∪ {row | row ∈ taken}) ∧
      Keeps s (s.fillFreeRows l).1 := by
  induction l generalizing s D
  case nil => exact ⟨[], rfl, by simpa [fillFreeRows] using h, fun _ _ h => h⟩
  case cons i l ih =>
    have ⟨hi, hn⟩ := List.nodup_cons.mp hn
    simp only [fillFreeRows]
    split
    case isFalse => exact ⟨[], rfl, by simpa using h, fun _ _ h => h⟩
    case isTrue hfree =>
      have ⟨h₁, hk₁⟩ := h.updateMaps (firstFreeRow_notMem hfree) (hl i List.mem_cons_self)
      have h₁' : Placed { s.updateMaps s.firstFreeRow i with
          pendingChanges := s.pendingChanges ++ [s.firstFreeRow] } (insert i D) := h₁.congr rfl rfl
      have ⟨taken, ht, h₂, hk₂⟩ := ih h₁' hn fun j hj => by
        rw [Set.mem_insert_iff, not_or]
        exact ⟨fun he => hi (he ▸ hj), hl j (List.mem_cons_of_mem _ hj)⟩
      exact ⟨i :: taken, congrArg (List.cons i) ht, insert_union D i taken ▸ h₂, hk₁.trans hk₂⟩

-- Where a row is after others have been inserted in front of it.
def insertedRow (start count row : Int) : Int :=
  if start ≤ row then row + count else row

-- The rows that were there before an insertion are all but the inserted ones.
theorem insertedRows_eq {n : Int} (hs : 0 ≤ start) (hn : start ≤ n) (hc : 0 ≤ count) :
    {row | ∃ row₀ ∈ {row | 0 ≤ row ∧ row < n}, insertedRow start count row₀ = row} =
      {row | (0 ≤ row ∧ row < n + count) ∧ ¬(start ≤ row ∧ row < start + count)} := by
  ext row
  simp only [Set.mem_ofPred_eq, insertedRow]
  constructor
  case mp =>
    rintro ⟨row₀, hr, rfl⟩
    split <;> omega
  case mpr =>
    intro ⟨hr, hin⟩
    by_cases hlt : row < start
    case pos => exact ⟨row, by omega, by rw [if_neg (by omega)]⟩
    case neg => exact ⟨row - count, by omega, by rw [if_pos (by omega)]; omega⟩

namespace Placed

theorem nodup_entries (h : Placed s D) : (s.proxyToSource.entries.map Sigma.snd).Nodup := by
  refine List.Nodup.map_on (fun e he e' he' hrow => ?_) s.proxyToSource.nodupKeys.nodup
  have h₁ := (h.inverse _ _).mp (Hash.mem_entries_iff.mp he)
  have h₂ := (h.inverse _ _).mp (Hash.mem_entries_iff.mp he')
  rw [hrow, h₂, Option.some.injEq] at h₁
  exact Sigma.ext h₁.symm (heq_of_eq hrow)

theorem insertedRow_injective (hc : 0 ≤ count) : Function.Injective (insertedRow start count) := by
  intro i j h
  unfold insertedRow at h
  split at h <;> split at h <;> omega

theorem shiftSourceRows (it : Iteration) (start : Int) (h : Placed s D) (hc : 0 ≤ count) :
    Placed (s.shiftSourceRows it start count) {row | ∃ row₀ ∈ D, insertedRow start count row₀ = row} ∧
      ∀ cell row, s.proxyToSource.lookup cell = some row →
        (s.shiftSourceRows it start count).proxyToSource.lookup cell = some (insertedRow start count row) := by
  have hp : ∀ cell, (s.shiftSourceRows it start count).proxyToSource.lookup cell =
      (s.proxyToSource.lookup cell).map (insertedRow start count) := fun cell =>
    Hash.lookup_map (insertedRow start count) _
  have hperm := it.perm s.proxyToSource.entries
  have hs : ∀ cell row, (s.shiftSourceRows it start count).sourceToProxy.lookup row = some cell ↔
      ∃ row₀, s.proxyToSource.lookup cell = some row₀ ∧ insertedRow start count row₀ = row := by
    intro cell row
    have hn : ((it.order s.proxyToSource.entries).map fun e => insertedRow start count e.2).Nodup := by
      rw [← Function.comp_def (insertedRow start count), ← List.map_map]
      exact ((hperm.map _).nodup_iff.mpr h.nodup_entries).map (insertedRow_injective hc)
    refine (Hash.lookup_foldl_insert hn).trans ⟨?_, ?_⟩
    · rintro (⟨⟨cell, row₀⟩, he, hrow, rfl⟩ | ⟨_, he⟩)
      · exact ⟨row₀, Hash.mem_entries_iff.mp (hperm.mem_iff.mp he), hrow⟩
      · simp at he
    · rintro ⟨row₀, he, hrow⟩
      exact .inl ⟨⟨cell, row₀⟩, hperm.mem_iff.mpr (Hash.mem_entries_iff.mpr he), hrow, rfl⟩
  refine ⟨⟨fun cell row => ?_, fun row => ?_⟩, fun cell row he => by rw [hp, he]; rfl⟩
  · rw [hp, hs, Option.map_eq_some_iff]
  · simp only [hs, Set.mem_ofPred_eq]
    constructor
    · rintro ⟨cell, row₀, he, hrow⟩
      exact ⟨row₀, (h.rows row₀).mp ⟨cell, (h.inverse _ _).mp he⟩, hrow⟩
    · rintro ⟨row₀, hm, hrow⟩
      have ⟨cell, he⟩ := (h.rows row₀).mpr hm
      exact ⟨cell, row₀, (h.inverse _ _).mpr he, hrow⟩

-- The rows for which there are no free cells are put behind the last one.
theorem appendRows (first last : Int) (h : Placed s D) (hD : ∀ row, first ≤ row → row ≤ last → row ∉ D) :
    Placed ((Folder.rows 0 (last - first)).foldl (fun s' i => s'.updateMaps (s.lastRow + 1 + i) (first + i)) s)
      (D ∪ {row | first ≤ row ∧ row ≤ last}) ∧
    Keeps s ((Folder.rows 0 (last - first)).foldl (fun s' i => s'.updateMaps (s.lastRow + 1 + i) (first + i)) s) := by
  have hpairs : ∀ s' : Positioner, (Folder.rows 0 (last - first)).foldl (fun s' i => s'.updateMaps (s.lastRow + 1 + i) (first + i)) s' =
      ((Folder.rows 0 (last - first)).map fun i => (s.lastRow + 1 + i, first + i)).foldl (fun s p => s.updateMaps p.1 p.2) s' :=
    fun s' => by rw [List.foldl_map]
  have hset : {row | row ∈ ((Folder.rows 0 (last - first)).map fun i => (s.lastRow + 1 + i, first + i)).map Prod.snd} =
      {row | first ≤ row ∧ row ≤ last} := by
    ext row
    simp only [List.map_map, List.mem_map, mem_rows, Set.mem_ofPred_eq, Function.comp]
    exact ⟨by rintro ⟨i, hi, rfl⟩; omega, fun hr => ⟨row - first, by omega, by omega⟩⟩
  rw [hpairs, ← hset]
  refine h.foldl_updateMaps ?_ ?_ fun p hp => ?_
  · rw [List.map_map]
    exact (nodup_rows _ _).map fun i j hij => by simpa using hij
  · rw [List.map_map]
    exact (nodup_rows _ _).map fun i j hij => by simpa using hij
  · obtain ⟨i, hi, rfl⟩ := List.mem_map.mp hp
    have hi := mem_rows.mp hi
    exact ⟨lastRow_succ_notMem (by show s.lastRow < s.lastRow + 1 + i; omega), hD _ (by show first ≤ first + i; omega)
      (by show first + i ≤ last; omega)⟩

end Placed

theorem sourceRowsAboutToBeInserted_placed {start : Nat} {urls : List String} (it : Iteration) (h : Placed s (sourceRows s))
    (he : s.enabled) (hd : s.deferApplyPositions = false) (hs : start ≤ s.folderModel.urls.length) (hu : urls ≠ []) :
    Placed (s.sourceRowsAboutToBeInserted it start (start + urls.length - 1))
        {row | 0 ≤ row ∧ row < s.folderModel.rowCount + urls.length} ∧
      ∀ cell row, s.proxyToSource.lookup cell = some row →
        (s.sourceRowsAboutToBeInserted it start (start + urls.length - 1)).proxyToSource.lookup cell =
          some (insertedRow start urls.length row) := by
  have hcount : 0 < urls.length := List.length_pos_iff.mpr hu
  have hrowCount : s.folderModel.rowCount = s.folderModel.urls.length := rfl
  unfold sourceRowsAboutToBeInserted
  rw [if_pos he, if_neg (by simp [hd])]
  split
  case isTrue hempty =>
    have hnone : ∀ cell, s.proxyToSource.lookup cell = none := fun cell => by
      rw [← Hash.notMem_iff]
      intro hm
      have ⟨row, hr⟩ := Hash.mem_iff.mp hm
      have := Hash.mem_entries_iff.mpr hr
      rw [List.isEmpty_iff.mp hempty] at this
      contradiction
    have hzero : s.folderModel.urls.length = 0 := by
      by_contra hne
      have ⟨cell, hcell⟩ := (h.rows 0).mpr ⟨le_rfl, by omega⟩
      rw [← h.inverse, hnone] at hcell
      contradiction
    refine ⟨?_, fun cell row hrow => by rw [hnone] at hrow; contradiction⟩
    apply (Placed.initMaps _ _).of_mem_iff
    intro row
    simp only [Set.mem_ofPred_eq]
    omega
  case isFalse =>
    have hlen : (start + urls.length - 1 : Int) - start + 1 = urls.length := by omega
    rw [hlen]
    have ⟨h₁, hk₁⟩ := h.shiftSourceRows it start (show (0 : Int) ≤ urls.length by omega)
    rw [sourceRows, insertedRows_eq (by omega) (by omega) (by omega)] at h₁
    have ⟨taken, ht, h₂, hk₂⟩ := fillFreeRows_placed h₁ (nodup_rows start (start + urls.length - 1)) fun i hi hm =>
      hm.2 (by have := mem_rows.mp hi; omega)
    dsimp only
    generalize (s.shiftSourceRows it start urls.length).fillFreeRows
      (Folder.rows start (start + urls.length - 1)) = filled at ht h₂ hk₂ ⊢
    obtain ⟨s₂, left⟩ := filled
    cases left
    case nil =>
      rw [List.append_nil] at ht
      have hs₃ : Placed { s₂ with ignoreNextTransaction := true } _ := h₂.congr rfl rfl
      refine ⟨hs₃.of_mem_iff fun row => ?_, fun cell row hrow => hk₂ _ _ (hk₁ cell row hrow)⟩
      simp only [Set.mem_union, Set.mem_ofPred_eq, ← ht, mem_rows]
      omega
    case cons i tail =>
      have ⟨htaken, hfirst, hlast⟩ := rows_split ht
      let s₃ := { s₂.emit (.beginInsertRows (s₂.lastRow + 1) (s₂.lastRow + 1 + (start + urls.length - 1 - i))) with
        beginInsertRowsCalled := true }
      have hs₃ : Placed s₃ _ := h₂.congr rfl rfl
      have ⟨h₃, hk₃⟩ := hs₃.appendRows i (start + urls.length - 1) fun row hr hr' hm => by
        simp only [Set.mem_union, Set.mem_ofPred_eq, htaken] at hm
        omega
      refine ⟨h₃.of_mem_iff fun row => ?_, fun cell row hrow => hk₃ _ _ (hk₂ _ _ (hk₁ cell row hrow))⟩
      simp only [Set.mem_union, Set.mem_ofPred_eq, htaken]
      omega

-- Removals.

-- Where a row is after others in front of it have been removed.
def removedRow (first last row : Int) : Int :=
  if last < row then row - (last - first + 1) else row

theorem foldl_takeSourceRow_lookup : (l.foldl takeSourceRow s).sourceToProxy.lookup row =
    if row ∈ l then none else s.sourceToProxy.lookup row := by
  induction l generalizing s
  case nil => simp
  case cons i l ih =>
    rw [List.foldl_cons, ih]
    simp only [takeSourceRow, Hash.lookup_erase, List.mem_cons]
    split
    case isTrue hm => rw [if_pos (.inr hm)]
    case isFalse hm =>
      split
      case isTrue hrow => rw [if_pos (.inl hrow)]
      case isFalse hrow => rw [if_neg (not_or.mpr ⟨hrow, hm⟩)]

-- What is iterated once the removed rows are taken.
theorem Placed.mem_remaining (h : Placed s D) : ⟨row, cell⟩ ∈ it.order (l.foldl takeSourceRow s).sourceToProxy.entries ↔
    s.proxyToSource.lookup cell = some row ∧ row ∉ l := by
  rw [(it.perm _).mem_iff, Hash.mem_entries_iff, foldl_takeSourceRow_lookup, h.inverse]
  split
  case isTrue hr => simp [hr]
  case isFalse hr => simp [hr]

theorem Placed.nodup_remaining (it : Iteration) (l : List Int) (h : Placed s D) :
    ((it.order (l.foldl takeSourceRow s).sourceToProxy.entries).map Sigma.snd).Nodup := by
  have hn := (Hash.nodup_keys_of_perm (it.perm (l.foldl takeSourceRow s).sourceToProxy.entries)).of_map
  apply hn.map_on
  intro e he e' he' hcell
  have h₁ := (h.mem_remaining.mp he).1
  have h₂ := (h.mem_remaining.mp he').1
  rw [hcell, h₂, Option.some.injEq] at h₁
  exact Sigma.ext h₁.symm (heq_of_eq hcell)

theorem removedRow_injective {i j : Int} (hi : i ∉ rows first last) (hj : j ∉ rows first last)
    (h : removedRow first last i = removedRow first last j) : i = j := by
  rw [mem_rows] at hi hj
  unfold removedRow at h
  split at h <;> split at h <;> omega

theorem removedRows_eq {n : Int} (hf : 0 ≤ first) (hfl : first ≤ last) (hl : last < n) :
    {row | ∃ row₀ ∈ {row | 0 ≤ row ∧ row < n}, row₀ ∉ rows first last ∧ removedRow first last row₀ = row} =
      {row | 0 ≤ row ∧ row < n - (last - first + 1)} := by
  ext row
  simp only [Set.mem_ofPred_eq, mem_rows, removedRow]
  constructor
  case mp =>
    rintro ⟨row₀, hr, hout, rfl⟩
    split <;> omega
  case mpr =>
    intro hr
    by_cases hlt : row < first
    case pos => exact ⟨row, by omega, by omega, by rw [if_neg (by omega)]⟩
    case neg => exact ⟨row + (last - first + 1), by omega, by omega, by rw [if_pos (by omega)]; omega⟩

theorem sourceRowsAboutToBeRemoved_lookup (it : Iteration) (h : Placed s D) (he : s.enabled) (hf : first ≤ last) :
    let s' := s.sourceRowsAboutToBeRemoved it first last
    let moved (cell row : Int) := ∃ row₀, (s.proxyToSource.lookup cell = some row₀ ∧ row₀ ∉ rows first last) ∧
      removedRow first last row₀ = row
    ∀ cell row, (s'.proxyToSource.lookup cell = some row ↔ moved cell row) ∧
      (s'.sourceToProxy.lookup row = some cell ↔ moved cell row) := by
  intro s' moved cell row
  have hdelta : ((first - last).natAbs : Int) + 1 = last - first + 1 := by omega
  have hcells := h.nodup_remaining it (rows first last)
  have hrows : ((it.order ((rows first last).foldl takeSourceRow s).sourceToProxy.entries).map
      fun e => removedRow first last e.1).Nodup := by
    apply hcells.of_map.map_on
    intro e hm e' hm' hrow
    have ⟨h₁, hr₁⟩ := h.mem_remaining.mp hm
    have ⟨h₂, hr₂⟩ := h.mem_remaining.mp hm'
    have hrow := removedRow_injective hr₁ hr₂ hrow
    rw [h.inverse, hrow] at h₁
    rw [h.inverse, h₁, Option.some.injEq] at h₂
    exact Sigma.ext hrow (heq_of_eq h₂)
  have hmoved : moved cell row ↔ ∃ e ∈ it.order ((rows first last).foldl takeSourceRow s).sourceToProxy.entries,
      e.2 = cell ∧ removedRow first last e.1 = row := by
    constructor
    case mp =>
      rintro ⟨row₀, hm, hrow⟩
      exact ⟨⟨row₀, cell⟩, h.mem_remaining.mpr hm, rfl, hrow⟩
    case mpr =>
      rintro ⟨⟨row₀, cell⟩, hm, rfl, hrow⟩
      exact ⟨row₀, h.mem_remaining.mp hm, hrow⟩
  rw [hmoved]
  simp only [s', sourceRowsAboutToBeRemoved, if_pos he, hdelta]
  constructor
  · apply (Hash.lookup_foldl_insert hcells).trans
    simp [removedRow]
  · apply (Hash.lookup_foldl_insert hrows).trans
    simp [removedRow, and_comm]

theorem sourceRowsAboutToBeRemoved_placed {first last : Nat} (it : Iteration) (h : Placed s (sourceRows s))
    (he : s.enabled) (hf : first ≤ last) (hl : last < s.folderModel.urls.length) :
    Placed (s.sourceRowsAboutToBeRemoved it first last)
        {row | 0 ≤ row ∧ row < s.folderModel.rowCount - (last - first + 1)} ∧
      ∀ cell row, s.proxyToSource.lookup cell = some row → row ∉ rows first last →
        (s.sourceRowsAboutToBeRemoved it first last).proxyToSource.lookup cell = some (removedRow first last row) := by
  have hrowCount : s.folderModel.rowCount = s.folderModel.urls.length := rfl
  have hlookup := sourceRowsAboutToBeRemoved_lookup it h he (show (first : Int) ≤ last by omega)
  refine ⟨⟨fun cell row => (hlookup cell row).1.trans (hlookup cell row).2.symm, fun row => ?_⟩,
    fun cell row hc hr => (hlookup cell _).1.mpr ⟨row, ⟨hc, hr⟩, rfl⟩⟩
  rw [← removedRows_eq (by omega) (by omega) (by omega)]
  constructor
  case mp =>
    rintro ⟨cell, hc⟩
    have ⟨row₀, ⟨hc, hr⟩, hrow⟩ := (hlookup cell row).2.mp hc
    exact ⟨row₀, (h.rows row₀).mp ⟨cell, (h.inverse _ _).mp hc⟩, hr, hrow⟩
  case mpr =>
    rintro ⟨row₀, hin, hout, hrow⟩
    have ⟨cell, hc⟩ := (h.rows row₀).mpr hin
    exact ⟨cell, (hlookup cell row).2.mpr ⟨row₀, ⟨(h.inverse _ _).mpr hc, hout⟩, hrow⟩⟩

end Folder.Positioner
