import PlasmaModel.Positioner.Theorems.Cells

namespace Folder.Positioner

variable {it : Iteration} {s t : Positioner} {cell row : Int} {name : String} {gridPos : GridPosition}
variable {maps : Positioner × QHash String Int} {positions : QHash String GridPosition}

-- Every row of the folder is in one cell, and can be named.
structure Placement (s : Positioner) : Prop where
  source : ∀ cell row, s.proxyToSource.lookup cell = some row → 0 ≤ row ∧ row < s.folderModel.rowCount
  placed : ∀ row, 0 ≤ row ∧ row < s.folderModel.rowCount → ∃ cell, s.proxyToSource.lookup cell = some row
  once   : ∀ cell cell' row, s.proxyToSource.lookup cell = some row → s.proxyToSource.lookup cell' = some row → cell = cell'
  cells  : ∀ cell ∈ s.proxyToSource, 0 ≤ cell
  urls   : ∀ row, 0 ≤ row ∧ row < s.folderModel.rowCount → s.folderModel.url row ≠ ""

theorem Placed.placement (h : Placed s (sourceRows s)) (hc : ∀ cell ∈ s.proxyToSource, 0 ≤ cell)
    (hu : ∀ row, 0 ≤ row ∧ row < s.folderModel.rowCount → s.folderModel.url row ≠ "") : Placement s where
  source cell row hrow := (h.rows row).mp ⟨cell, (h.inverse cell row).mp hrow⟩
  placed row hrow := by
    have ⟨cell, hcell⟩ := (h.rows row).mpr hrow
    exact ⟨cell, (h.inverse cell row).mpr hcell⟩
  once cell cell' row hrow hrow' := by
    rw [h.inverse] at hrow hrow'
    rw [hrow, Option.some.injEq] at hrow'
    exact hrow'
  cells := hc
  urls := hu

-- The position of a cell, as it is saved.
def gridPosition (perStripe cell : Int) : GridPosition where
  stripe := max 0 (cell.tdiv perStripe)
  pos    := max 0 (cell.tmod perStripe)

theorem gridPosition_fits {perStripe : Int} (hp : 0 < perStripe) (hc : 0 ≤ cell) :
    (gridPosition perStripe cell).pos ≤ perStripe ∧
      (gridPosition perStripe cell).stripe * perStripe + (gridPosition perStripe cell).pos = cell := by
  have hdiv : 0 ≤ cell.tdiv perStripe := Int.tdiv_nonneg hc hp.le
  have hmod : 0 ≤ cell.tmod perStripe := Int.tmod_nonneg _ hc
  have hlt : cell.tmod perStripe < perStripe := Int.tmod_lt_of_pos _ hp
  rw [gridPosition, max_eq_right hdiv, max_eq_right hmod, Int.tdiv_mul_add_tmod]
  exact ⟨hlt.le, rfl⟩

-- What is saved of a placement, whatever else is.
def Records (s : Positioner) (positions : QHash String GridPosition) : Prop :=
  ∀ cell row, s.proxyToSource.lookup cell = some row →
    positions.lookup (s.folderModel.url row) = some (gridPosition s.perStripe cell)

theorem recordPositions_foldl {perStripe : Int} {entries : List (Sigma fun _ : Int => Int)}
    (h : ∀ e ∈ entries, s.folderModel.url e.2 ≠ "") :
    recordPositions perStripe entries s = { s with
      positions := entries.foldl (fun positions e => positions.insert (s.folderModel.url e.2) (gridPosition perStripe e.1))
        s.positions } := by
  induction entries generalizing s
  case nil => rfl
  case cons e entries ih =>
    rw [recordPositions, if_neg (h e List.mem_cons_self)]
    exact ih fun e' he' => h e' (List.mem_cons_of_mem _ he')

theorem Placement.updatePositionsList (it : Iteration) (h : Placement s) (hp : 0 < s.perStripe) (he : s.enabled)
    (hu : s.screenInUse) : ∃ header positions, Records s positions ∧
      s.updatePositionsList it 0 = { s with positionsHeader := some header, positions } := by
  have hentries : ∀ e, e ∈ it.order s.proxyToSource.entries ↔ s.proxyToSource.lookup e.1 = some e.2 := fun e => by
    rw [(it.perm _).mem_iff]
    exact Hash.mem_entries_iff
  have hn : ((it.order s.proxyToSource.entries).map fun e => s.folderModel.url e.2).Nodup := by
    apply (Hash.nodup_keys_of_perm (it.perm s.proxyToSource.entries)).of_map.map_on
    intro e he e' he' hname
    have h₁ := (hentries e).mp he
    have h₂ := (hentries e').mp he'
    have hrow := FolderModel.url_inj (h.source _ _ h₁) (h.source _ _ h₂) hname
    exact Sigma.ext (h.once _ _ _ h₁ (hrow ▸ h₂)) (heq_of_eq hrow)
  unfold Positioner.updatePositionsList
  rw [if_pos (by simp [he, hu, hp])]
  dsimp only
  rw [if_pos le_rfl]
  refine ⟨_, _, fun cell row hrow => ?_, recordPositions_foldl fun e he => h.urls _ (h.source _ _ ((hentries e).mp he))⟩
  exact (Hash.lookup_foldl_insert hn).mpr (.inl ⟨⟨cell, row⟩, (hentries ⟨cell, row⟩).mpr hrow, rfl, rfl⟩)

theorem savedPositions_lookup (it : Iteration) (s : Positioner) (h : name ≠ "") :
    (s.savedPositions it).lookup name = s.positions.lookup name := by
  have hn : (((it.order s.positions.entries).filter (·.1 ≠ "")).map Sigma.fst).Nodup :=
    (List.filter_sublist.map _).nodup (Hash.nodup_keys_of_perm (it.perm _))
  ext gridPos
  refine (Hash.lookup_foldl_insert hn).trans ⟨?_, ?_⟩
  · rintro (⟨e, he, rfl, rfl⟩ | ⟨_, hnone⟩)
    · rw [← Hash.mem_entries_iff]
      exact (it.perm _).mem_iff.mp (List.mem_of_mem_filter he)
    · simp at hnone
  · intro hl
    refine .inl ⟨⟨name, gridPos⟩, List.mem_filter.mpr ⟨?_, by simpa using h⟩, rfl, rfl⟩
    exact (it.perm _).mem_iff.mpr (Hash.mem_entries_iff.mpr hl)

-- What the first pass keeps: the rows it has placed are in their cells of `s`, and all others are left.
structure Restoring (s : Positioner) (maps : Positioner × QHash String Int) : Prop where
  perStripe : maps.1.perStripe = s.perStripe
  placed    : ∀ cell row, maps.1.proxyToSource.lookup cell = some row → s.proxyToSource.lookup cell = some row
  left      : ∀ name row, maps.2.lookup name = some row ↔
    ∃ cell, s.proxyToSource.lookup cell = some row ∧ s.folderModel.url row = name ∧ cell ∉ maps.1.proxyToSource

namespace Restoring

theorem start (h : Placement s) (hp : t.perStripe = s.perStripe) :
    Restoring s (t.clearMaps, sourceIndices s.folderModel) where
  perStripe := hp
  placed cell row hrow := by simp [clearMaps] at hrow
  left name row := by
    rw [sourceIndices_lookup]
    constructor
    case mp =>
      rintro ⟨hrow, hname⟩
      obtain ⟨cell, hcell⟩ := h.placed row hrow
      exact ⟨cell, hcell, hname, by simp [clearMaps]⟩
    case mpr =>
      rintro ⟨cell, hcell, hname, _⟩
      exact ⟨h.source cell row hcell, hname⟩

-- An entry puts the row that it names into its cell, and no other.
theorem restorePosition (h : Placement s) (hp : 0 < s.perStripe) (hr : Restoring s maps)
    (hg : ∀ cell row, s.proxyToSource.lookup cell = some row → s.folderModel.url row = name →
      gridPos = gridPosition s.perStripe cell) :
    Restoring s (Positioner.restorePosition maps ⟨name, gridPos⟩) ∧
      ∀ cell row, s.proxyToSource.lookup cell = some row →
        s.folderModel.url row = name ∨ cell ∈ maps.1.proxyToSource →
          cell ∈ (Positioner.restorePosition maps ⟨name, gridPos⟩).1.proxyToSource := by
  cases hname : maps.2.lookup name
  case none =>
    have hrestore : Positioner.restorePosition maps ⟨name, gridPos⟩ = maps := by
      simp only [Positioner.restorePosition, hname, ite_self]
    rw [hrestore]
    refine ⟨hr, fun cell row hrow hc => hc.elim (fun hurl => ?_) id⟩
    by_contra hnot
    have := (hr.left name row).mpr ⟨cell, hrow, hurl, hnot⟩
    rw [hname] at this
    contradiction
  case some row =>
    obtain ⟨cell, hcell, hurl, hnot⟩ := (hr.left name row).mp hname
    obtain ⟨hpos, hindex⟩ := gridPosition_fits hp (h.cells cell (Hash.mem_iff.mpr ⟨row, hcell⟩))
    have hrestore : Positioner.restorePosition maps ⟨name, gridPos⟩ = (maps.1.updateMaps cell row, maps.2.erase name) := by
      simp only [Positioner.restorePosition, hname, hg cell row hcell hurl, hr.perStripe, if_pos hpos, hindex, if_neg hnot]
    have hsame : ∀ cell' row', s.proxyToSource.lookup cell' = some row' → s.folderModel.url row' = name → cell' = cell := by
      intro cell' row' hcell' hurl'
      have hrow := FolderModel.url_inj (h.source _ _ hcell') (h.source _ _ hcell) (hurl'.trans hurl.symm)
      exact h.once _ _ row (hrow ▸ hcell') hcell
    rw [hrestore]
    refine ⟨⟨hr.perStripe, fun cell' row' hrow' => ?_, fun name' row' => ?_⟩, fun cell' row' hrow' hc => ?_⟩
    · rw [updateMaps, Hash.lookup_insert] at hrow'
      split at hrow'
      case isTrue heq => rw [heq, hcell, ← hrow']
      case isFalse => exact hr.placed _ _ hrow'
    · simp only [Hash.lookup_erase, updateMaps, AList.mem_insert, not_or]
      split
      case isTrue heq =>
        refine iff_of_false (by simp) ?_
        rintro ⟨cell', hcell', hurl', hne, _⟩
        exact hne (hsame _ _ hcell' (hurl'.trans heq))
      case isFalse hne =>
        rw [hr.left]
        refine exists_congr fun cell' => and_congr_right fun hcell' => and_congr_right fun hurl' => ?_
        refine (and_iff_right fun heq => hne ?_).symm
        rw [heq, hcell, Option.some.injEq] at hcell'
        rw [← hurl', ← hcell', hurl]
    · rw [updateMaps, AList.mem_insert]
      exact hc.imp (hsame _ _ hrow') id

theorem foldl (entries : List (Sigma fun _ : String => GridPosition)) (h : Placement s) (hp : 0 < s.perStripe)
    (hr : Restoring s maps) (hg : ∀ e ∈ entries, ∀ cell row, s.proxyToSource.lookup cell = some row →
      s.folderModel.url row = e.1 → e.2 = gridPosition s.perStripe cell) :
    Restoring s (entries.foldl Positioner.restorePosition maps) ∧
      ∀ cell row, s.proxyToSource.lookup cell = some row →
        s.folderModel.url row ∈ entries.map Sigma.fst ∨ cell ∈ maps.1.proxyToSource →
          cell ∈ (entries.foldl Positioner.restorePosition maps).1.proxyToSource := by
  induction entries generalizing maps
  case nil => exact ⟨hr, fun cell row _ hc => hc.resolve_left List.not_mem_nil⟩
  case cons e entries ih =>
    have ⟨hr₁, hc₁⟩ := hr.restorePosition h hp (hg e List.mem_cons_self)
    have ⟨hr₂, hc₂⟩ := ih hr₁ fun e' he' => hg e' (List.mem_cons_of_mem _ he')
    refine ⟨hr₂, fun cell row hrow hc => hc₂ cell row hrow ?_⟩
    rw [List.map_cons, List.mem_cons, or_assoc] at hc
    rcases hc with hurl | hurl | hc
    · exact .inr (hc₁ cell row hrow (.inl hurl))
    · exact .inl hurl
    · exact .inr (hc₁ cell row hrow (.inr hc))

end Restoring

-- The later passes find nothing that is left.
theorem foldl_replacePosition {entries : List (Sigma fun _ : String => GridPosition)} (h : ∀ name, maps.2.lookup name = none) :
    entries.foldl replacePosition maps = maps := by
  induction entries
  case nil => rfl
  case cons e entries ih =>
    have hreplace : replacePosition maps e = maps := by simp only [replacePosition, h, ite_self]
    rw [List.foldl_cons, hreplace, ih]

theorem applyPositions_restores (it : Iteration) (h : Placement s) (hp : 0 < s.perStripe) (ht : t.perStripe = s.perStripe)
    (hm : t.folderModel = s.folderModel) (hr : Records s t.positions) (cell : Int) :
    (t.applyPositions it).proxyToSource.lookup cell = s.proxyToSource.lookup cell := by
  have hentries : ∀ e, e ∈ it.order t.positions.entries ↔ t.positions.lookup e.1 = some e.2 := fun e => by
    rw [(it.perm _).mem_iff]
    exact Hash.mem_entries_iff
  have ⟨hrestore, hall⟩ := (Restoring.start h ht).foldl (it.order t.positions.entries) h hp
    fun e he cell row hrow hurl => by
      have hl := (hentries e).mp he
      rw [← hurl, hr cell row hrow, Option.some.injEq] at hl
      exact hl.symm
  have hall : ∀ cell row, s.proxyToSource.lookup cell = some row → _ := fun cell row hrow =>
    hall cell row hrow (.inl (List.mem_map.mpr ⟨⟨_, _⟩, (hentries ⟨_, _⟩).mpr (hr cell row hrow), rfl⟩))
  rw [applyPositions, hm]
  generalize (it.order t.positions.entries).foldl restorePosition (t.clearMaps, sourceIndices s.folderModel) = maps at hrestore hall
  have hleft : ∀ name, maps.2.lookup name = none := fun name => by
    cases hname : maps.2.lookup name
    case none => rfl
    case some row =>
      have ⟨cell, hcell, _, hnot⟩ := (hrestore.left name row).mp hname
      exact absurd (hall cell row hcell) hnot
  have hempty : it.order maps.2.entries = [] := by
    rw [List.eq_nil_iff_forall_not_mem]
    intro e he
    have := Hash.mem_entries_iff.mp ((it.perm _).mem_iff.mp he)
    rw [hleft] at this
    contradiction
  simp only [foldl_replacePosition hleft, hempty, List.foldl_nil]
  ext row
  constructor
  case mp => exact hrestore.placed cell row
  case mpr =>
    intro hrow
    have ⟨row', hrow'⟩ := Hash.mem_iff.mp (hall cell row hrow)
    have := hrestore.placed cell row' hrow'
    rw [hrow, Option.some.injEq] at this
    rwa [this]

theorem convertFolderModelData_maps (it : Iteration) (hu : s.screenInUse) (hl : s.folderModel.listing = false)
    (hn : s.positions.entries.isEmpty = false) :
    ∃ t : Positioner, t.perStripe = s.perStripe ∧ t.folderModel = s.folderModel ∧ t.positions = s.positions ∧
      (s.convertFolderModelData it).proxyToSource = (t.applyPositions it).proxyToSource ∧
      (s.convertFolderModelData it).sourceToProxy = (t.applyPositions it).sourceToProxy := by
  refine ⟨{ s with deferApplyPositions := s.folderModel.listing }.emit .beginResetModel, rfl, rfl, rfl, ?_⟩
  unfold convertFolderModelData
  dsimp only
  rw [if_neg]
  · exact ⟨rfl, rfl⟩
  · simp only [hl, hn, Bool.or_false, Bool.not_eq_true']
    exact ne_false_of_eq_true hu

theorem loadAndApplyPositionsConfig_restores (it it' : Iteration) {config : QHash String (List String)} (h : Placement s)
    (hp : 0 < s.perStripe) (he : s.enabled) (hu : s.screenInUse) (hr : s.resolution ≠ "") (hc : s.config = some config)
    (hl : s.folderModel.listing = false) (ht : t.enabled) (hm : t.folderModel = s.folderModel)
    (htp : t.perStripe = s.perStripe) (htr : t.resolution = s.resolution)
    (htc : t.config = ((s.updatePositionsList it 0).savePositionsConfig it).config)
    (hn : s.folderModel.urls = [] → ∀ cell, cell ∉ t.proxyToSource) (cell : Int) :
    (t.loadAndApplyPositionsConfig it').proxyToSource.lookup cell = s.proxyToSource.lookup cell := by
  have ⟨header, positions, hrecords, hlist⟩ := h.updatePositionsList it hp he hu
  let s₁ : Positioner := { s with positionsHeader := some header, positions }
  have hsaved : (s₁.savePositionsConfig it).config = some (config.insert s.resolution (s₁.positionsList it)) := by
    have hin : (s₁.enabled && s₁.screenInUse && decide (s₁.resolution ≠ "")) = true := by
      simp only [Bool.and_eq_true, decide_eq_true_eq]
      exact ⟨⟨he, hu⟩, hr⟩
    unfold savePositionsConfig
    rw [show s₁.config = some config from hc]
    dsimp only
    rw [if_pos hin]
  have hsaves : Records s (s₁.savedPositions it) := fun cell row hrow => by
    rw [savedPositions_lookup it s₁ (h.urls row (h.source cell row hrow))]
    exact hrecords cell row hrow
  have hscreen : t.screenInUse := by
    rw [screenInUse, hm]
    exact hu
  rw [hlist, hsaved] at htc
  rw [loadAndApplyPositionsConfig_saved s₁ t it it' ht hscreen (htr ▸ hr) htc (htr ▸ AList.lookup_insert _) rfl]
  dsimp only
  split
  case isTrue hempty =>
    have hnone : ∀ row, s.proxyToSource.lookup cell ≠ some row := fun row hrow => by
      have := Hash.mem_entries_iff.mpr (hsaves cell row hrow)
      rw [List.isEmpty_iff.mp hempty] at this
      contradiction
    have hurls : s.folderModel.urls = [] := by
      by_contra hne
      have hlen : s.folderModel.rowCount = s.folderModel.urls.length := rfl
      have := List.length_pos_iff.mpr hne
      have ⟨cell', hrow⟩ := h.placed 0 ⟨le_rfl, by omega⟩
      have := Hash.mem_entries_iff.mpr (hsaves cell' 0 hrow)
      rw [List.isEmpty_iff.mp hempty] at this
      contradiction
    rw [Hash.notMem_iff.mp (hn hurls cell), Option.eq_none_iff_forall_ne_some.mpr hnone]
  case isFalse hempty =>
    let read : Positioner := { t with positionsHeader := some header, positions := s₁.savedPositions it }
    have ⟨t', htp', hm', hr', heq, _⟩ :=
      convertFolderModelData_maps (s := read) it' hscreen (hm ▸ hl) (by simpa using hempty)
    rw [heq]
    exact applyPositions_restores it' h hp (htp'.trans htp) (hm'.trans hm) (hr' ▸ hsaves) cell

theorem saved_positions_loaded (it it' : Iteration) (s : Positioner) (config : QHash String (List String)) (h : Placement s)
    (hp : 0 < s.perStripe) (he : s.enabled) (hu : s.screenInUse) (hl : s.folderModel.listing = false)
    (hr : s.resolution ≠ "") (hc : s.config = some config) :
    let saved := (s.updatePositionsList it 0).savePositionsConfig it
    (∀ cell, (saved.loadAndApplyPositionsConfig it').proxyToSource.lookup cell = s.proxyToSource.lookup cell) ∧
    ∀ t : Positioner, t.enabled → t.folderModel = s.folderModel → t.perStripe = s.perStripe →
      t.resolution = s.resolution → t.config = saved.config → (s.folderModel.urls = [] → ∀ cell, cell ∉ t.proxyToSource) →
      ∀ cell, (t.loadAndApplyPositionsConfig it').proxyToSource.lookup cell = s.proxyToSource.lookup cell := by
  intro saved
  have hrestores := fun t => loadAndApplyPositionsConfig_restores (t := t) it it' h hp he hu hr hc hl
  refine ⟨?_, fun t ht hm htp htr htc hn => hrestores t ht hm htp htr htc hn⟩
  have ⟨_, _, hlist⟩ := updatePositionsList_eq it s 0
  have ⟨_, _, hsave⟩ := savePositionsConfig_eq it (s.updatePositionsList it 0)
  have hsaved : saved = _ := hsave.trans (by rw [hlist])
  refine hrestores saved ?_ ?_ ?_ ?_ rfl fun hempty cell hm => ?_
  any_goals rw [hsaved]
  · exact he
  · rw [hsaved] at hm
    have ⟨row, hrow⟩ := Hash.mem_iff.mp hm
    have := h.source cell row hrow
    simp only [FolderModel.rowCount, hempty, List.length_nil] at this
    omega

-- A freshly filled positioner.
theorem threeFiles_placement : Placement (threeFiles.initMaps 3) := by
  have h : Placed (threeFiles.initMaps 3) (sourceRows (threeFiles.initMaps 3)) := .initMaps threeFiles 3
  refine h.placement ?_ ?_
  · have : ∀ cell ∈ (threeFiles.initMaps 3).proxyToSource.keys, 0 ≤ cell := by decide
    exact this
  · intro row hrow
    have : ∀ row ∈ rows 0 2, threeFiles.folderModel.url row ≠ "" := by decide
    exact this row (mem_rows.mpr ⟨hrow.1, Int.le_sub_one_of_lt hrow.2⟩)

theorem saved_positions_loaded_three_files :
    let saved := ((threeFiles.initMaps 3).updatePositionsList inOrder 0).savePositionsConfig inOrder
    ∀ cell, (saved.loadAndApplyPositionsConfig inOrder).proxyToSource.lookup cell = (threeFiles.initMaps 3).proxyToSource.lookup cell :=
  (saved_positions_loaded inOrder inOrder (threeFiles.initMaps 3) _ threeFiles_placement (by decide) rfl rfl rfl (by decide)
    rfl).1

end Folder.Positioner
