import PlasmaModel.Positioner.Theorems.Saved

-- Which saved positions are kept, whatever the order of the hash.
namespace Folder

structure GridPosition.OnGrid (perStripe : Int) (g : GridPosition) : Prop where
  stripe : 0 ≤ g.stripe
  pos    : 0 ≤ g.pos
  fits   : g.pos < perStripe

def GridPosition.cell (perStripe : Int) (g : GridPosition) : Int :=
  g.stripe * perStripe + g.pos

-- The hash is iterated backwards.
def Iteration.reversed (it : Iteration) : Iteration where
  order entries := (it.order entries).reverse
  perm entries  := (List.reverse_perm _).trans (it.perm entries)

namespace Positioner

-- A row of the folder with a saved position.
structure Present (s : Positioner) (row : Int) (g : GridPosition) : Prop where
  source : 0 ≤ row ∧ row < s.folderModel.rowCount
  saved  : s.positions.lookup (s.folderModel.url row) = some g

-- No other row has its saved position on the grid in the same cell.
structure Fits (s : Positioner) (row : Int) (g : GridPosition) : Prop extends s.Present row g where
  onGrid : g.OnGrid s.perStripe
  alone  : ∀ row' g', s.Present row' g' → g'.OnGrid s.perStripe → g'.cell s.perStripe = g.cell s.perStripe → row' = row

-- A position that is not on the grid and passes for one that is.
structure Aliases (s : Positioner) (row : Int) (g g' : GridPosition) : Prop extends s.Present row g where
  offGrid : ¬g.OnGrid s.perStripe
  pos     : g.pos ≤ s.perStripe
  same    : g.cell s.perStripe = g'.cell s.perStripe

variable {it : Iteration} {s s' t : Positioner} {D : Set Int} {maps : Positioner × QHash String Int}
variable {entries : List (Sigma fun _ : String => GridPosition)} {entry : Sigma fun _ : String => GridPosition}
variable {row row' cell : Int} {g g' : GridPosition} {name : String}

namespace Keeps

theorem refl (s : Positioner) : Keeps s s :=
  fun _ _ h => h

theorem foldl {α β : Type} (positioner : β → Positioner) {f : β → α → β}
    (hf : ∀ b a, Keeps (positioner b) (positioner (f b a))) (l : List α) (b : β) :
    Keeps (positioner b) (positioner (l.foldl f b)) := by
  induction l generalizing b
  case nil => exact .refl _
  case cons a l ih => exact (hf b a).trans (ih (f b a))

theorem updateMaps (h : cell ∉ s.proxyToSource) : Keeps s (s.updateMaps cell row) := by
  intro cell' row' hrow
  have hne : cell' ≠ cell := by
    intro he
    subst he
    exact h (Hash.mem_iff.mpr ⟨row', hrow⟩)
  rw [Positioner.updateMaps, Hash.lookup_insert, if_neg hne, hrow]

theorem placeInFreeRow (s : Positioner) (row : Int) : Keeps s (s.placeInFreeRow row) :=
  .updateMaps freeToIndex_notMem

theorem restorePosition (maps : Positioner × QHash String Int) (entry : Sigma fun _ : String => GridPosition) :
    Keeps maps.1 (Positioner.restorePosition maps entry).1 := by
  simp only [Positioner.restorePosition]
  split
  case isFalse => exact .refl _
  case isTrue =>
    split
    case h_1 => exact .refl _
    case h_2 =>
      split
      case isTrue => exact .refl _
      case isFalse hc => exact .updateMaps hc

theorem replacePosition (maps : Positioner × QHash String Int) (entry : Sigma fun _ : String => GridPosition) :
    Keeps maps.1 (Positioner.replacePosition maps entry).1 := by
  simp only [Positioner.replacePosition]
  split
  case isFalse => exact .refl _
  case isTrue =>
    split
    case h_1 => exact .refl _
    case h_2 row _ => exact .placeInFreeRow maps.1 row

end Keeps

-- The first pass.
def restored (it : Iteration) (s : Positioner) : Positioner × QHash String Int :=
  (it.order s.positions.entries).foldl restorePosition (s.clearMaps, sourceIndices s.folderModel)

-- An entry only takes its own row, and puts it into its own cell if that is free.
theorem restorePosition_cases (maps : Positioner × QHash String Int) (name : String) (g : GridPosition) :
    restorePosition maps ⟨name, g⟩ = maps ∧ (g.pos ≤ maps.1.perStripe → ∀ row, maps.2.lookup name = some row →
      g.cell maps.1.perStripe ∈ maps.1.proxyToSource) ∨
    ∃ row, maps.2.lookup name = some row ∧ g.pos ≤ maps.1.perStripe ∧ g.cell maps.1.perStripe ∉ maps.1.proxyToSource ∧
      restorePosition maps ⟨name, g⟩ = (maps.1.updateMaps (g.cell maps.1.perStripe) row, maps.2.erase name) := by
  simp only [restorePosition]
  split
  case isFalse hlt => exact .inl ⟨rfl, fun hle => absurd hle hlt⟩
  case isTrue hle =>
    cases hname : maps.2.lookup name
    case none => exact .inl ⟨rfl, by simp⟩
    case some row =>
      dsimp only
      split
      case isTrue hc => exact .inl ⟨rfl, fun _ _ _ => hc⟩
      case isFalse hc => exact .inr ⟨row, rfl, hle, hc, rfl⟩

theorem perStripe_restorePosition (maps : Positioner × QHash String Int)
    (entry : Sigma fun _ : String => GridPosition) : (restorePosition maps entry).1.perStripe = maps.1.perStripe := by
  rcases restorePosition_cases maps entry.1 entry.2 with ⟨he, _⟩ | ⟨_, _, _, _, he⟩
  · rw [he]
  · rw [he]
    rfl

-- A row that fits is in its cell or is still to be put there.
structure Keeping (s : Positioner) (row : Int) (g : GridPosition) (maps : Positioner × QHash String Int) : Prop where
  perStripe : maps.1.perStripe = s.perStripe
  placing   : ∃ D, Placing s.folderModel maps D
  kept      : maps.2.lookup (s.folderModel.url row) = some row ∧ g.cell s.perStripe ∉ maps.1.proxyToSource ∨
    maps.1.proxyToSource.lookup (g.cell s.perStripe) = some row

theorem Placing.source (h : Placing s.folderModel maps D) (hname : maps.2.lookup name = some row) :
    (0 ≤ row ∧ row < s.folderModel.rowCount) ∧ s.folderModel.url row = name :=
  ((h.left name row).mp hname).1

namespace Keeping

theorem start (hp : t.perStripe = s.perStripe) (h : s.Present row g) :
    Keeping s row g (t.clearMaps, sourceIndices s.folderModel) where
  perStripe := hp
  placing   := ⟨∅, .start _ t⟩
  kept      := .inl ⟨sourceIndices_lookup.mpr ⟨h.source, rfl⟩, by simp [clearMaps]⟩

theorem restorePosition (h : Keeping s row g maps) (hf : s.Fits row g) (ha : ∀ row' g', ¬s.Aliases row' g' g)
    (he : s.positions.lookup name = some g') : Keeping s row g (Positioner.restorePosition maps ⟨name, g'⟩) := by
  have ⟨D, hplacing⟩ := h.placing
  refine ⟨(perStripe_restorePosition ..).trans h.perStripe, hplacing.restorePosition _, ?_⟩
  rcases restorePosition_cases maps name g' with ⟨hr, _⟩ | ⟨row', hname, hpos, hfree, hr⟩
  · rw [hr]
    exact h.kept
  · rw [h.perStripe] at hpos hfree hr
    rw [hr]
    have ⟨hsource, hurl⟩ := hplacing.source hname
    have hpresent : s.Present row' g' := ⟨hsource, hurl ▸ he⟩
    by_cases hcell : g'.cell s.perStripe = g.cell s.perStripe
    case pos =>
      have hon : g'.OnGrid s.perStripe := by
        by_contra hoff
        exact ha row' g' { hpresent with offGrid := hoff, pos := hpos, same := hcell }
      refine .inr ?_
      rw [updateMaps, hcell, AList.lookup_insert, hf.alone row' g' hpresent hon hcell]
    case neg =>
      have hne : s.folderModel.url row ≠ name := by
        intro heq
        have := hf.saved
        rw [heq, he] at this
        exact hcell (Option.some.inj this ▸ rfl)
      cases h.kept with
      | inl hkept =>
        refine .inl ⟨(AList.lookup_erase_ne hne).trans hkept.1, ?_⟩
        rw [updateMaps, AList.mem_insert, not_or]
        exact ⟨Ne.symm hcell, hkept.2⟩
      | inr hkept => exact .inr ((AList.lookup_insert_ne (Ne.symm hcell)).trans hkept)

theorem foldl (h : Keeping s row g maps) (hf : s.Fits row g) (ha : ∀ row' g', ¬s.Aliases row' g' g)
    (he : ∀ e ∈ entries, s.positions.lookup e.1 = some e.2) :
    Keeping s row g (entries.foldl Positioner.restorePosition maps) := by
  induction entries generalizing maps
  case nil => exact h
  case cons e entries ih =>
    have ⟨he₁, he₂⟩ := List.forall_mem_cons.mp he
    exact ih (h.restorePosition hf ha he₁) he₂

end Keeping

theorem Present.congr (hm : t.folderModel = s.folderModel) (hr : t.positions = s.positions) (h : s.Present row g) :
    t.Present row g where
  source := by rw [hm]; exact h.source
  saved  := by rw [hm, hr]; exact h.saved

theorem Fits.congr (hp : t.perStripe = s.perStripe) (hm : t.folderModel = s.folderModel)
    (hr : t.positions = s.positions) (h : s.Fits row g) : t.Fits row g where
  toPresent := h.toPresent.congr hm hr
  onGrid    := hp ▸ h.onGrid
  alone     := fun row' g' hpresent hon hcell =>
    h.alone row' g' (hpresent.congr hm.symm hr.symm) (hp ▸ hon) (hp ▸ hcell)

theorem Aliases.congr (hp : t.perStripe = s.perStripe) (hm : t.folderModel = s.folderModel)
    (hr : t.positions = s.positions) (h : s.Aliases row' g' g) : t.Aliases row' g' g where
  toPresent := h.toPresent.congr hm hr
  offGrid   := hp ▸ h.offGrid
  pos       := hp ▸ h.pos
  same      := hp ▸ h.same

end Positioner
end Folder
