import Mathlib.Tactic.NormNum
import PlasmaModel.Tiles.QuickTile

-- The quick tiles are cut at one place in each direction.
namespace KWin

def QuickTile.halfOrQuarter (h v : ℚ) : QuickTile → RectF
  | leftVertical     => { left := 0, top := 0, right := h, bottom := 1 }
  | rightVertical    => { left := h, top := 0, right := 1, bottom := 1 }
  | topHorizontal    => { left := 0, top := 0, right := 1, bottom := v }
  | bottomHorizontal => { left := 0, top := v, right := 1, bottom := 1 }
  | topLeft          => { left := 0, top := 0, right := h, bottom := v }
  | topRight         => { left := h, top := 0, right := 1, bottom := v }
  | bottomLeft       => { left := 0, top := v, right := h, bottom := 1 }
  | bottomRight      => { left := h, top := v, right := 1, bottom := 1 }

namespace QuickTile

-- The edges that are not at the border of the screen.
def horizontalEdge : QuickTile → Option Edge
  | leftVertical | topLeft | bottomLeft => some .right
  | rightVertical | topRight | bottomRight => some .left
  | topHorizontal | bottomHorizontal => none

def verticalEdge : QuickTile → Option Edge
  | topHorizontal | topLeft | topRight => some .bottom
  | bottomHorizontal | bottomLeft | bottomRight => some .top
  | leftVertical | rightVertical => none

end QuickTile

variable {geom : RectF} {edge : Edge} {tile : QuickTile} {split h v x y : ℚ}

namespace Tiles

theorem constrained_eq (hw : minimumSize ≤ geom.width) (hh : minimumSize ≤ geom.height) : constrained geom = geom := by
  have hwidth : geom.setWidth (max geom.width minimumSize) = geom := by
    rw [max_eq_left hw, RectF.setWidth, RectF.width, add_sub_cancel]
  rw [constrained, hwidth, max_eq_left hh, RectF.setHeight, RectF.height, add_sub_cancel]

theorem constrained_left : (constrained geom).left = geom.left :=
  rfl

theorem constrained_top : (constrained geom).top = geom.top :=
  rfl

theorem constrained_right : (constrained geom).right = max geom.right (geom.left + minimumSize) := by
  rw [max_comm]
  show geom.left + max (geom.right - geom.left) minimumSize = _
  rw [max_comm, ← max_add_add_left, add_sub_cancel]

theorem constrained_bottom : (constrained geom).bottom = max geom.bottom (geom.top + minimumSize) := by
  rw [max_comm]
  show geom.top + max (geom.bottom - geom.top) minimumSize = _
  rw [max_comm, ← max_add_add_left, add_sub_cancel]

end Tiles

-- A split leaves room for the tiles on both sides.
def IsSplit (split : ℚ) : Prop :=
  minimumSize ≤ split ∧ split ≤ 1 - minimumSize

theorem minimumSize_le : minimumSize ≤ 1 - minimumSize := by
  norm_num [minimumSize]

theorem isSplit_effectiveSplit (split : ℚ) : IsSplit (QuickRootTile.effectiveSplit split) :=
  ⟨le_max_left .., max_le minimumSize_le (min_le_left ..)⟩

theorem IsSplit.effectiveSplit_eq (h : IsSplit split) : QuickRootTile.effectiveSplit split = split := by
  rw [QuickRootTile.effectiveSplit, min_eq_right h.2, max_eq_right h.1]

namespace QuickTile

-- The borders of the screen are those of the tile, and it is not too small.
structure Framed (tile : QuickTile) (geom : RectF) : Prop where
  border : ∀ edge, tile.horizontalEdge ≠ some edge → tile.verticalEdge ≠ some edge → geom.edge edge = edge.border
  width  : minimumSize ≤ geom.width
  height : minimumSize ≤ geom.height

theorem Framed.setHorizontalEdge (hf : tile.Framed geom) (he : tile.horizontalEdge = some edge) (hs : IsSplit split) :
    tile.Framed (geom.setEdge edge split) ∧ (geom.setEdge edge split).top = geom.top ∧
      (geom.setEdge edge split).bottom = geom.bottom ∧ (geom.setEdge edge split).edge edge = split := by
  have ⟨hborder, hwidth, hheight⟩ := hf
  have hle := hs.1
  have hge := hs.2
  cases tile <;> cases he <;>
  · have hl := hborder .left
    have hr := hborder .right
    simp [horizontalEdge, verticalEdge, RectF.edge, Edge.border] at hl hr
    refine ⟨⟨fun e hn hv => ?_, ?_, hheight⟩, rfl, rfl, rfl⟩
    · have := hborder e hn hv
      cases e <;> simp_all [horizontalEdge, verticalEdge, RectF.setEdge, RectF.edge]
    · simp only [RectF.width, RectF.setEdge, hl, hr]
      linarith

theorem Framed.setVerticalEdge (hf : tile.Framed geom) (he : tile.verticalEdge = some edge) (hs : IsSplit split) :
    tile.Framed (geom.setEdge edge split) ∧ (geom.setEdge edge split).left = geom.left ∧
      (geom.setEdge edge split).right = geom.right ∧ (geom.setEdge edge split).edge edge = split := by
  have ⟨hborder, hwidth, hheight⟩ := hf
  have hle := hs.1
  have hge := hs.2
  cases tile <;> cases he <;>
  · have ht := hborder .top
    have hb := hborder .bottom
    simp [horizontalEdge, verticalEdge, RectF.edge, Edge.border] at ht hb
    refine ⟨⟨fun e hn hv => ?_, hwidth, ?_⟩, rfl, rfl, rfl⟩
    · have := hborder e hn hv
      cases e <;> simp_all [horizontalEdge, verticalEdge, RectF.setEdge, RectF.edge]
    · simp only [RectF.height, RectF.setEdge, ht, hb]
      linarith

end QuickTile

namespace QuickRootTile

variable {Window : Type} {s : QuickRootTile Window} {edges : List (QuickTile × Edge)}

def Columns (s : QuickRootTile Window) (h : ℚ) : Prop :=
  ∀ tile edge, tile.horizontalEdge = some edge → (s.relativeGeometry tile).edge edge = h

def Rows (s : QuickRootTile Window) (v : ℚ) : Prop :=
  ∀ tile edge, tile.verticalEdge = some edge → (s.relativeGeometry tile).edge edge = v

structure Cut (s : QuickRootTile Window) (h v : ℚ) : Prop where
  framed     : ∀ tile : QuickTile, tile.Framed (s.relativeGeometry tile)
  columns    : s.Columns h
  rows       : s.Rows v
  horizontal : IsSplit h
  vertical   : IsSplit v

-- There are splits at which the eight tiles are cut.
def Consistent (s : QuickRootTile Window) : Prop :=
  ∃ h v, IsSplit h ∧ IsSplit v ∧ s.relativeGeometry = QuickTile.halfOrQuarter h v

theorem Cut.consistent (hc : Cut s h v) : s.Consistent := by
  refine ⟨h, v, hc.horizontal, hc.vertical, funext fun tile => ?_⟩
  have hborder := (hc.framed tile).border
  have hcolumn := hc.columns tile
  have hrow := hc.rows tile
  generalize s.relativeGeometry tile = geom at hborder hcolumn hrow
  have ⟨left, top, right, bottom⟩ := geom
  have hl := hborder .left
  have ht := hborder .top
  have hr := hborder .right
  have hb := hborder .bottom
  cases tile <;>
  · simp [QuickTile.horizontalEdge, QuickTile.verticalEdge, RectF.edge, Edge.border] at hl ht hr hb hcolumn hrow
    simp [QuickTile.halfOrQuarter, *]

theorem framed_halfOrQuarter (hh : IsSplit h) (hv : IsSplit v) (tile : QuickTile) :
    tile.Framed (tile.halfOrQuarter h v) := by
  have hle := minimumSize_le
  have ⟨hh₁, hh₂⟩ := hh
  have ⟨hv₁, hv₂⟩ := hv
  constructor
  case border =>
    intro edge hn hm
    cases tile <;> cases edge <;> first | rfl | exact absurd rfl hn | exact absurd rfl hm
  case width => cases tile <;> simp only [QuickTile.halfOrQuarter, RectF.width] <;> linarith
  case height => cases tile <;> simp only [QuickTile.halfOrQuarter, RectF.height] <;> linarith

theorem Consistent.exists_cut (hc : s.Consistent) :
    ∃ h v, Cut s h v ∧ s.relativeGeometry = QuickTile.halfOrQuarter h v := by
  have ⟨h, v, hh, hv, he⟩ := hc
  refine ⟨h, v, ⟨fun tile => he ▸ framed_halfOrQuarter hh hv tile, fun tile edge ho => ?_, fun tile edge ho => ?_, hh,
    hv⟩, he⟩
  · rw [he]
    cases tile <;> cases ho <;> rfl
  · rw [he]
    cases tile <;> cases ho <;> rfl

theorem setSplit_of_notMem (hn : tile ∉ edges.map Prod.fst) :
    (s.setSplit assign edges split).relativeGeometry tile = s.relativeGeometry tile := by
  rw [setSplit]
  induction edges generalizing s
  case nil => rfl
  case cons e edges ih =>
    have ⟨hne, hn⟩ := List.ne_and_not_mem_of_not_mem_cons (List.map_cons ▸ hn)
    rw [List.foldl_cons, ih hn]
    exact Function.update_of_ne hne _ _

theorem setSplit_of_mem (hn : (edges.map Prod.fst).Nodup) (hm : (tile, edge) ∈ edges) :
    (s.setSplit assign edges split).relativeGeometry tile =
      Tiles.constrained ((s.relativeGeometry tile).setEdge edge (effectiveSplit split)) := by
  induction edges generalizing s
  case nil => cases hm
  case cons e edges ih =>
    have ⟨hnot, hn⟩ := List.nodup_cons.mp (List.map_cons ▸ hn)
    cases List.mem_cons.mp hm with
    | inl he =>
      subst he
      exact (setSplit_of_notMem hnot).trans (Function.update_self ..)
    | inr hm =>
      have hne : tile ≠ e.1 := fun he => hnot (he ▸ List.mem_map_of_mem hm)
      rw [setSplit, List.foldl_cons]
      refine (ih hn hm).trans ?_
      exact congrArg (fun geom : RectF => Tiles.constrained (geom.setEdge edge (effectiveSplit split)))
        (Function.update_of_ne hne ..)

theorem mem_horizontalEdges : (tile, edge) ∈ horizontalEdges ↔ tile.horizontalEdge = some edge := by
  cases tile <;> cases edge <;> decide

theorem mem_verticalEdges : (tile, edge) ∈ verticalEdges ↔ tile.verticalEdge = some edge := by
  cases tile <;> cases edge <;> decide

theorem setHorizontalSplit_geometry (s : QuickRootTile Window) (split : ℚ) (tile : QuickTile) :
    (s.setHorizontalSplit assign split).relativeGeometry tile = tile.horizontalEdge.elim (s.relativeGeometry tile)
      fun edge => Tiles.constrained ((s.relativeGeometry tile).setEdge edge (effectiveSplit split)) := by
  cases he : tile.horizontalEdge with
  | some edge => exact setSplit_of_mem (by decide) (mem_horizontalEdges.mpr he)
  | none =>
    refine setSplit_of_notMem fun hm => ?_
    have ⟨⟨_, edge⟩, hedge, heq⟩ := List.mem_map.mp hm
    subst heq
    cases he.symm.trans (mem_horizontalEdges.mp hedge)

theorem setVerticalSplit_geometry (s : QuickRootTile Window) (split : ℚ) (tile : QuickTile) :
    (s.setVerticalSplit assign split).relativeGeometry tile = tile.verticalEdge.elim (s.relativeGeometry tile)
      fun edge => Tiles.constrained ((s.relativeGeometry tile).setEdge edge (effectiveSplit split)) := by
  cases he : tile.verticalEdge with
  | some edge => exact setSplit_of_mem (by decide) (mem_verticalEdges.mpr he)
  | none =>
    refine setSplit_of_notMem fun hm => ?_
    have ⟨⟨_, edge⟩, hedge, heq⟩ := List.mem_map.mp hm
    subst heq
    cases he.symm.trans (mem_verticalEdges.mp hedge)

-- The other edges stay where they are.
theorem setHorizontalSplit_framed (hf : ∀ tile : QuickTile, tile.Framed (s.relativeGeometry tile)) (split : ℚ) :
    let s' := s.setHorizontalSplit assign split
    (∀ tile : QuickTile, tile.Framed (s'.relativeGeometry tile)) ∧ s'.Columns (effectiveSplit split) ∧
      ∀ tile edge, tile.verticalEdge = some edge →
        (s'.relativeGeometry tile).edge edge = (s.relativeGeometry tile).edge edge := by
  have hgeometry (tile : QuickTile) (edge : Edge) (he : tile.horizontalEdge = some edge) :
      (s.setHorizontalSplit assign split).relativeGeometry tile =
        (s.relativeGeometry tile).setEdge edge (effectiveSplit split) := by
    have hset := ((hf tile).setHorizontalEdge he (isSplit_effectiveSplit split)).1
    rw [setHorizontalSplit_geometry, he, Option.elim_some, Tiles.constrained_eq hset.width hset.height]
  refine ⟨fun tile => ?_, fun tile edge he => ?_, fun tile edge he => ?_⟩
  · cases hh : tile.horizontalEdge with
    | none =>
      rw [setHorizontalSplit_geometry, hh, Option.elim_none]
      exact hf tile
    | some edge =>
      rw [hgeometry tile edge hh]
      exact ((hf tile).setHorizontalEdge hh (isSplit_effectiveSplit split)).1
  · rw [hgeometry tile edge he]
    exact ((hf tile).setHorizontalEdge he (isSplit_effectiveSplit split)).2.2.2
  · cases hh : tile.horizontalEdge with
    | none => rw [setHorizontalSplit_geometry, hh, Option.elim_none]
    | some horizontal =>
      have ⟨_, htop, hbottom, _⟩ := (hf tile).setHorizontalEdge hh (isSplit_effectiveSplit split)
      rw [hgeometry tile horizontal hh]
      cases tile <;> cases he <;> first | exact htop | exact hbottom

theorem setVerticalSplit_framed (hf : ∀ tile : QuickTile, tile.Framed (s.relativeGeometry tile)) (split : ℚ) :
    let s' := s.setVerticalSplit assign split
    (∀ tile : QuickTile, tile.Framed (s'.relativeGeometry tile)) ∧ s'.Rows (effectiveSplit split) ∧
      ∀ tile edge, tile.horizontalEdge = some edge →
        (s'.relativeGeometry tile).edge edge = (s.relativeGeometry tile).edge edge := by
  have hgeometry (tile : QuickTile) (edge : Edge) (he : tile.verticalEdge = some edge) :
      (s.setVerticalSplit assign split).relativeGeometry tile =
        (s.relativeGeometry tile).setEdge edge (effectiveSplit split) := by
    have hset := ((hf tile).setVerticalEdge he (isSplit_effectiveSplit split)).1
    rw [setVerticalSplit_geometry, he, Option.elim_some, Tiles.constrained_eq hset.width hset.height]
  refine ⟨fun tile => ?_, fun tile edge he => ?_, fun tile edge he => ?_⟩
  · cases hv : tile.verticalEdge with
    | none =>
      rw [setVerticalSplit_geometry, hv, Option.elim_none]
      exact hf tile
    | some edge =>
      rw [hgeometry tile edge hv]
      exact ((hf tile).setVerticalEdge hv (isSplit_effectiveSplit split)).1
  · rw [hgeometry tile edge he]
    exact ((hf tile).setVerticalEdge he (isSplit_effectiveSplit split)).2.2.2
  · cases hv : tile.verticalEdge with
    | none => rw [setVerticalSplit_geometry, hv, Option.elim_none]
    | some vertical =>
      have ⟨_, hleft, hright, _⟩ := (hf tile).setVerticalEdge hv (isSplit_effectiveSplit split)
      rw [hgeometry tile vertical hv]
      cases tile <;> cases he <;> first | exact hleft | exact hright

-- The two directions are laid out one after the other.
def relayoutColumns (s : QuickRootTile Window) (tile : QuickTile) : QuickRootTile Window :=
  tile.horizontalEdge.elim s fun edge => s.setHorizontalSplit assign ((s.relativeGeometry tile).edge edge)

def relayoutRows (s : QuickRootTile Window) (tile : QuickTile) (geom : RectF) : QuickRootTile Window :=
  tile.verticalEdge.elim s fun edge => s.setVerticalSplit assign (geom.edge edge)

theorem relayoutToFit_eq (s : QuickRootTile Window) (tile : QuickTile) :
    s.relayoutToFit tile = (s.relayoutColumns tile).relayoutRows tile (s.relativeGeometry tile) := by
  cases tile <;> rfl

-- Where the tiles are cut when one of them has been given a geometry.
def cutColumn (tile : QuickTile) (geom : RectF) (h : ℚ) : ℚ :=
  tile.horizontalEdge.elim h fun edge => effectiveSplit (geom.edge edge)

def cutRow (tile : QuickTile) (geom : RectF) (v : ℚ) : ℚ :=
  tile.verticalEdge.elim v fun edge => effectiveSplit (geom.edge edge)

theorem relayoutToFit_cut (hf : ∀ tile : QuickTile, tile.Framed (s.relativeGeometry tile)) (hh : IsSplit h)
    (hv : IsSplit v) (hc : tile.horizontalEdge = none → s.Columns h) (hr : tile.verticalEdge = none → s.Rows v) :
    Cut (s.relayoutToFit tile) (cutColumn tile (s.relativeGeometry tile) h)
      (cutRow tile (s.relativeGeometry tile) v) := by
  have ⟨hframed, hcolumns, hrows⟩ :
      (∀ other : QuickTile, other.Framed ((s.relayoutColumns tile).relativeGeometry other)) ∧
      (s.relayoutColumns tile).Columns (cutColumn tile (s.relativeGeometry tile) h) ∧
      ∀ other edge, other.verticalEdge = some edge →
        ((s.relayoutColumns tile).relativeGeometry other).edge edge = (s.relativeGeometry other).edge edge := by
    rw [relayoutColumns, cutColumn]
    cases he : tile.horizontalEdge with
    | none => exact ⟨hf, hc he, fun _ _ _ => rfl⟩
    | some edge => exact setHorizontalSplit_framed hf _
  have hcolumn : IsSplit (cutColumn tile (s.relativeGeometry tile) h) := by
    rw [cutColumn]
    cases tile.horizontalEdge with
    | none => exact hh
    | some edge => exact isSplit_effectiveSplit _
  rw [relayoutToFit_eq, relayoutRows, cutRow]
  cases he : tile.verticalEdge with
  | none =>
    exact {
      framed     := hframed
      columns    := hcolumns
      rows       := fun other edge ho => (hrows other edge ho).trans (hr he other edge ho)
      horizontal := hcolumn
      vertical   := hv }
  | some edge =>
    have ⟨hframed', hrows', hcolumns'⟩ := setVerticalSplit_framed hframed ((s.relativeGeometry tile).edge edge)
    exact {
      framed     := hframed'
      columns    := fun other edge ho => (hcolumns' other edge ho).trans (hcolumns other edge ho)
      rows       := hrows'
      horizontal := hcolumn
      vertical   := isSplit_effectiveSplit _ }

theorem Cut.setRelativeGeometry {geom : RectF} (hc : Cut s h v) (hg : tile.Framed (Tiles.constrained geom)) :
    Cut (s.setRelativeGeometry tile geom) (cutColumn tile (Tiles.constrained geom) h)
      (cutRow tile (Tiles.constrained geom) v) := by
  rw [QuickRootTile.setRelativeGeometry]
  split
  case isTrue he =>
    have hcolumn : cutColumn tile (Tiles.constrained geom) h = h := by
      rw [cutColumn, ← he]
      cases hh : tile.horizontalEdge with
      | none => rfl
      | some edge => exact (congrArg effectiveSplit (hc.columns tile edge hh)).trans hc.horizontal.effectiveSplit_eq
    have hrow : cutRow tile (Tiles.constrained geom) v = v := by
      rw [cutRow, ← he]
      cases hv : tile.verticalEdge with
      | none => rfl
      | some edge => exact (congrArg effectiveSplit (hc.rows tile edge hv)).trans hc.vertical.effectiveSplit_eq
    rw [hcolumn, hrow]
    exact hc
  case isFalse =>
    have hself : (s.assign tile geom).relativeGeometry tile = Tiles.constrained geom := Function.update_self ..
    have hother (other : QuickTile) (hne : other ≠ tile) :
        (s.assign tile geom).relativeGeometry other = s.relativeGeometry other := Function.update_of_ne hne ..
    rw [← hself]
    refine relayoutToFit_cut (fun other => ?_) hc.horizontal hc.vertical (fun hn other edge ho => ?_)
      fun hn other edge ho => ?_
    · by_cases heq : other = tile
      case pos =>
        subst heq
        rw [hself]
        exact hg
      case neg =>
        rw [hother other heq]
        exact hc.framed other
    · have hne : other ≠ tile := fun heq => by cases hn.symm.trans (heq ▸ ho)
      rw [hother other hne, hc.columns other edge ho]
    · have hne : other ≠ tile := fun heq => by cases hn.symm.trans (heq ▸ ho)
      rw [hother other hne, hc.rows other edge ho]

-- All tiles are set to the same split, whichever comes first.
theorem Cut.setHorizontalEdges (hc : Cut s h v) (hs : IsSplit split)
    (he : ∀ entry ∈ edges, entry.1.horizontalEdge = some entry.2) :
    Cut (s.setSplit QuickRootTile.setRelativeGeometry edges split) (if edges = [] then h else split) v := by
  induction edges generalizing s h
  case nil => exact hc
  case cons entry edges ih =>
    have ⟨hentry, hedges⟩ := List.forall_mem_cons.mp he
    have ⟨hframed, htop, hbottom, hedge⟩ := (hc.framed entry.1).setHorizontalEdge hentry hs
    have hconstrained := Tiles.constrained_eq hframed.width hframed.height
    have hstep := hc.setRelativeGeometry (hconstrained.symm ▸ hframed)
    have hcolumn : cutColumn entry.1 ((s.relativeGeometry entry.1).setEdge entry.2 split) h = split := by
      rw [cutColumn, hentry, Option.elim_some, hedge, hs.effectiveSplit_eq]
    have hrow : cutRow entry.1 ((s.relativeGeometry entry.1).setEdge entry.2 split) v = v := by
      rw [cutRow]
      cases hv : entry.1.verticalEdge with
      | none => rfl
      | some vertical =>
        have hsame : ((s.relativeGeometry entry.1).setEdge entry.2 split).edge vertical = v := by
          rw [← hc.rows entry.1 vertical hv]
          generalize entry.1 = tile at hv htop hbottom
          cases tile <;> cases hv <;> first | exact htop | exact hbottom
        rw [Option.elim_some, hsame, hc.vertical.effectiveSplit_eq]
    rw [hconstrained, hcolumn, hrow] at hstep
    have hrest := ih hstep hedges
    rw [if_neg (List.cons_ne_nil _ _), setSplit, List.foldl_cons, hs.effectiveSplit_eq]
    rw [setSplit, hs.effectiveSplit_eq] at hrest
    split at hrest <;> exact hrest

theorem Cut.setVerticalEdges (hc : Cut s h v) (hs : IsSplit split)
    (he : ∀ entry ∈ edges, entry.1.verticalEdge = some entry.2) :
    Cut (s.setSplit QuickRootTile.setRelativeGeometry edges split) h (if edges = [] then v else split) := by
  induction edges generalizing s v
  case nil => exact hc
  case cons entry edges ih =>
    have ⟨hentry, hedges⟩ := List.forall_mem_cons.mp he
    have ⟨hframed, hleft, hright, hedge⟩ := (hc.framed entry.1).setVerticalEdge hentry hs
    have hconstrained := Tiles.constrained_eq hframed.width hframed.height
    have hstep := hc.setRelativeGeometry (hconstrained.symm ▸ hframed)
    have hrow : cutRow entry.1 ((s.relativeGeometry entry.1).setEdge entry.2 split) v = split := by
      rw [cutRow, hentry, Option.elim_some, hedge, hs.effectiveSplit_eq]
    have hcolumn : cutColumn entry.1 ((s.relativeGeometry entry.1).setEdge entry.2 split) h = h := by
      rw [cutColumn]
      cases hh : entry.1.horizontalEdge with
      | none => rfl
      | some horizontal =>
        have hsame : ((s.relativeGeometry entry.1).setEdge entry.2 split).edge horizontal = h := by
          rw [← hc.columns entry.1 horizontal hh]
          generalize entry.1 = tile at hh hleft hright
          cases tile <;> cases hh <;> first | exact hleft | exact hright
        rw [Option.elim_some, hsame, hc.horizontal.effectiveSplit_eq]
    rw [hconstrained, hcolumn, hrow] at hstep
    have hrest := ih hstep hedges
    rw [if_neg (List.cons_ne_nil _ _), setSplit, List.foldl_cons, hs.effectiveSplit_eq]
    rw [setSplit, hs.effectiveSplit_eq] at hrest
    split at hrest <;> exact hrest

theorem isSplit_half : IsSplit (1 / 2) := by
  norm_num [IsSplit, minimumSize]

theorem Cut.tryReset (hc : Cut s h v) : ∃ h v, Cut s.tryReset h v := by
  have hhorizontal {s : QuickRootTile Window} {h v : ℚ} (hc : Cut s h v) :
      Cut (s.setHorizontalSplit QuickRootTile.setRelativeGeometry (1 / 2)) (1 / 2) v :=
    hc.setHorizontalEdges isSplit_half fun _ he => mem_horizontalEdges.mp he
  have hvertical {s : QuickRootTile Window} {h v : ℚ} (hc : Cut s h v) :
      Cut (s.setVerticalSplit QuickRootTile.setRelativeGeometry (1 / 2)) h (1 / 2) :=
    hc.setVerticalEdges isSplit_half fun _ he => mem_verticalEdges.mp he
  rw [QuickRootTile.tryReset]
  dsimp only
  split
  case isFalse => exact ⟨h, v, hc⟩
  case isTrue =>
    split
    case isTrue =>
      split
      case isTrue => exact ⟨_, _, hvertical (hhorizontal hc)⟩
      case isFalse => exact ⟨_, _, hvertical hc⟩
    case isFalse =>
      split
      case isTrue => exact ⟨_, _, hhorizontal hc⟩
      case isFalse => exact ⟨_, _, hc⟩

-- Where the left or the top edge follows the pointer, it is to leave room for the tile itself.
def Event.leavesRoom : Event Window → Prop
  | .resizeFromGravity output _ gravity xRoot yRoot =>
    (.left ∈ gravity.edges → relativeX output xRoot ≤ 1 - minimumSize) ∧
      (.top ∈ gravity.edges → relativeY output yRoot ≤ 1 - minimumSize)
  | .add .. | .remove .. => True

theorem edgePosition_left (output : Output) (xRoot yRoot : ℤ) :
    edgePosition output QuickTile.padding xRoot yRoot .left = relativeX output xRoot := by
  simp [edgePosition, QuickTile.padding]

theorem edgePosition_top (output : Output) (xRoot yRoot : ℤ) :
    edgePosition output QuickTile.padding xRoot yRoot .top = relativeY output yRoot := by
  simp [edgePosition, QuickTile.padding]

-- A supported edge is one of those in the middle.
theorem Cut.supports (hc : Cut s h v) (hs : supportsEdge (s.relativeGeometry tile) edge) :
    tile.horizontalEdge = some edge ∨ tile.verticalEdge = some edge := by
  by_contra hn
  rw [not_or] at hn
  have hborder := (hc.framed tile).border edge hn.1 hn.2
  cases edge <;> simp_all [supportsEdge, RectF.edge, Edge.border]

-- What the edges are that follow the pointer, before the tile is kept from getting too small.
theorem edge_foldl_setEdge (position : Edge → ℚ) (gravity : Gravity) (geom : RectF) (edge : Edge) :
    (gravity.edges.foldl (fun geom edge => geom.setEdge edge (position edge)) geom).edge edge =
      if edge ∈ gravity.edges then position edge else geom.edge edge := by
  cases gravity <;> cases edge <;> rfl

theorem right_le_relayoutToFit (s : QuickRootTile Window) (hn : tile.horizontalEdge ≠ some .right) :
    (s.relativeGeometry tile).right ≤ ((s.relayoutToFit tile).relativeGeometry tile).right := by
  have hle (geom : RectF) : geom.right ≤ (Tiles.constrained geom).right := by
    rw [Tiles.constrained_right]
    exact le_max_left ..
  have hcolumns : (s.relativeGeometry tile).right ≤ ((s.relayoutColumns tile).relativeGeometry tile).right := by
    rw [relayoutColumns]
    cases hh : tile.horizontalEdge with
    | none => exact le_rfl
    | some edge =>
      rw [Option.elim_some, setHorizontalSplit_geometry, hh, Option.elim_some]
      refine le_trans ?_ (hle _)
      cases edge <;> first | exact le_rfl | exact absurd hh hn
  rw [relayoutToFit_eq, relayoutRows]
  cases hv : tile.verticalEdge with
  | none => exact hcolumns
  | some edge =>
    rw [Option.elim_some, setVerticalSplit_geometry, hv, Option.elim_some]
    refine hcolumns.trans (le_trans ?_ (hle _))
    cases tile <;> cases hv <;> exact le_rfl

theorem bottom_le_relayoutToFit (s : QuickRootTile Window) (hn : tile.verticalEdge ≠ some .bottom) :
    (s.relativeGeometry tile).bottom ≤ ((s.relayoutToFit tile).relativeGeometry tile).bottom := by
  have hle (geom : RectF) : geom.bottom ≤ (Tiles.constrained geom).bottom := by
    rw [Tiles.constrained_bottom]
    exact le_max_left ..
  have hcolumns : (s.relativeGeometry tile).bottom ≤ ((s.relayoutColumns tile).relativeGeometry tile).bottom := by
    rw [relayoutColumns]
    cases hh : tile.horizontalEdge with
    | none => exact le_rfl
    | some edge =>
      rw [Option.elim_some, setHorizontalSplit_geometry, hh, Option.elim_some]
      refine le_trans ?_ (hle _)
      cases tile <;> cases hh <;> exact le_rfl
  rw [relayoutToFit_eq, relayoutRows]
  cases hv : tile.verticalEdge with
  | none => exact hcolumns
  | some edge =>
    rw [Option.elim_some, setVerticalSplit_geometry, hv, Option.elim_some]
    refine hcolumns.trans (le_trans ?_ (hle _))
    cases edge <;> first | exact le_rfl | exact absurd hv hn

theorem horizontalEdge_of_supports (hc : Cut s h v) (hs : supportsEdge (s.relativeGeometry tile) edge)
    (he : edge = .left ∨ edge = .right) : tile.horizontalEdge = some edge := by
  refine (hc.supports hs).resolve_right fun hv => ?_
  cases he with
  | inl heq => cases tile <;> cases heq <;> cases hv
  | inr heq => cases tile <;> cases heq <;> cases hv

theorem verticalEdge_of_supports (hc : Cut s h v) (hs : supportsEdge (s.relativeGeometry tile) edge)
    (he : edge = .top ∨ edge = .bottom) : tile.verticalEdge = some edge := by
  refine (hc.supports hs).resolve_left fun hh => ?_
  cases he with
  | inl heq => cases tile <;> cases heq <;> cases hh
  | inr heq => cases tile <;> cases heq <;> cases hh

-- A tile that has room keeps its borders.
theorem Cut.framed_resized (hc : Cut s h v) {gravity : Gravity} (position : Edge → ℚ)
    (hs : gravity.edges.all (supportsEdge (s.relativeGeometry tile)))
    (hl : .left ∈ gravity.edges → position .left ≤ 1 - minimumSize)
    (ht : .top ∈ gravity.edges → position .top ≤ 1 - minimumSize) :
    tile.Framed (Tiles.constrained (gravity.edges.foldl (fun geom edge => geom.setEdge edge (position edge))
      (s.relativeGeometry tile))) := by
  have hedges := edge_foldl_setEdge position gravity (s.relativeGeometry tile)
  generalize gravity.edges.foldl (fun geom edge => geom.setEdge edge (position edge)) (s.relativeGeometry tile) = geom
    at hedges
  have hframed := hc.framed tile
  rw [List.all_eq_true] at hs
  have hsplit (edge : Edge) (hm : edge ∈ gravity.edges) := hc.supports (hs edge hm)
  have hborder (edge : Edge) (hn : tile.horizontalEdge ≠ some edge) (hm : tile.verticalEdge ≠ some edge) :
      geom.edge edge = edge.border := by
    rw [hedges, if_neg fun he => (hsplit edge he).elim hn hm]
    exact hframed.border edge hn hm
  have hleft (hn : tile.horizontalEdge ≠ some .right) : geom.left + minimumSize ≤ 1 := by
    have hle := hframed.width
    have hright : (s.relativeGeometry tile).right = 1 := hframed.border .right hn fun he => by cases tile <;> cases he
    have hedge : geom.left = if .left ∈ gravity.edges then position .left else (s.relativeGeometry tile).left :=
      hedges .left
    rw [RectF.width] at hle
    split at hedge
    case isTrue hm => linarith [hl hm]
    case isFalse => linarith
  have htop (hn : tile.verticalEdge ≠ some .bottom) : geom.top + minimumSize ≤ 1 := by
    have hle := hframed.height
    have hbottom : (s.relativeGeometry tile).bottom = 1 :=
      hframed.border .bottom (fun he => by cases tile <;> cases he) hn
    have hedge : geom.top = if .top ∈ gravity.edges then position .top else (s.relativeGeometry tile).top :=
      hedges .top
    rw [RectF.height] at hle
    split at hedge
    case isTrue hm => linarith [ht hm]
    case isFalse => linarith
  constructor
  case border =>
    intro edge hn hm
    have hedge := hborder edge hn hm
    cases edge with
    | left | top => exact hedge
    | right =>
      have hone : geom.right = 1 := hedge
      show (Tiles.constrained geom).right = 1
      rw [Tiles.constrained_right, hone, max_eq_left (hleft hn)]
    | bottom =>
      have hone : geom.bottom = 1 := hedge
      show (Tiles.constrained geom).bottom = 1
      rw [Tiles.constrained_bottom, hone, max_eq_left (htop hm)]
  case width =>
    rw [RectF.width, Tiles.constrained_right, Tiles.constrained_left]
    linarith [le_max_right geom.right (geom.left + minimumSize)]
  case height =>
    rw [RectF.height, Tiles.constrained_bottom, Tiles.constrained_top]
    linarith [le_max_right geom.bottom (geom.top + minimumSize)]

-- A tile that has none sticks out of the screen.
theorem Cut.not_consistent_resized (hc : Cut s h v) {gravity : Gravity} (position : Edge → ℚ)
    (hs : gravity.edges.all (supportsEdge (s.relativeGeometry tile)))
    (hp : .left ∈ gravity.edges ∧ 1 - minimumSize < position .left ∨
      .top ∈ gravity.edges ∧ 1 - minimumSize < position .top) :
    ¬(s.setRelativeGeometry tile (gravity.edges.foldl (fun geom edge => geom.setEdge edge (position edge))
      (s.relativeGeometry tile))).Consistent := by
  have hedges := edge_foldl_setEdge position gravity (s.relativeGeometry tile)
  generalize gravity.edges.foldl (fun geom edge => geom.setEdge edge (position edge)) (s.relativeGeometry tile) = geom
    at hedges
  rw [List.all_eq_true] at hs
  intro hconsistent
  have ⟨_, _, hcut, _⟩ := hconsistent.exists_cut
  have hself : (s.assign tile geom).relativeGeometry tile = Tiles.constrained geom := Function.update_self ..
  cases hp with
  | inl hleft =>
    have hh := horizontalEdge_of_supports hc (hs _ hleft.1) (.inl rfl)
    have hn : tile.horizontalEdge ≠ some .right := by rw [hh]; decide
    have hm : tile.verticalEdge ≠ some .right := fun he => by cases tile <;> cases he
    have hposition : geom.left = position .left := (hedges .left).trans (if_pos hleft.1)
    have hout : 1 < (Tiles.constrained geom).right := by
      rw [Tiles.constrained_right, hposition]
      exact lt_max_of_lt_right (by linarith [hleft.2])
    have hbefore : (s.relativeGeometry tile).right = 1 := (hc.framed tile).border .right hn hm
    have hafter : ((s.setRelativeGeometry tile geom).relativeGeometry tile).right = 1 :=
      (hcut.framed tile).border .right hn hm
    rw [QuickRootTile.setRelativeGeometry] at hafter
    split at hafter
    case isTrue he => linarith [congrArg RectF.right he]
    case isFalse =>
      have hle := right_le_relayoutToFit (s.assign tile geom) hn
      rw [hself] at hle
      linarith
  | inr htop =>
    have hv := verticalEdge_of_supports hc (hs _ htop.1) (.inl rfl)
    have hm : tile.verticalEdge ≠ some .bottom := by rw [hv]; decide
    have hn : tile.horizontalEdge ≠ some .bottom := fun he => by cases tile <;> cases he
    have hposition : geom.top = position .top := (hedges .top).trans (if_pos htop.1)
    have hout : 1 < (Tiles.constrained geom).bottom := by
      rw [Tiles.constrained_bottom, hposition]
      exact lt_max_of_lt_right (by linarith [htop.2])
    have hbefore : (s.relativeGeometry tile).bottom = 1 := (hc.framed tile).border .bottom hn hm
    have hafter : ((s.setRelativeGeometry tile geom).relativeGeometry tile).bottom = 1 :=
      (hcut.framed tile).border .bottom hn hm
    rw [QuickRootTile.setRelativeGeometry] at hafter
    split at hafter
    case isTrue he => linarith [congrArg RectF.bottom he]
    case isFalse =>
      have hle := bottom_le_relayoutToFit (s.assign tile geom) hm
      rw [hself] at hle
      linarith

variable {s' : QuickRootTile Window} {event : Event Window}

theorem Cut.congr (hc : Cut s h v) (he : s'.relativeGeometry = s.relativeGeometry) : Cut s' h v where
  framed     := he ▸ hc.framed
  columns    := fun tile edge ho => he ▸ hc.columns tile edge ho
  rows       := fun tile edge ho => he ▸ hc.rows tile edge ho
  horizontal := hc.horizontal
  vertical   := hc.vertical

theorem consistent_created : Consistent ({} : QuickRootTile Window) := by
  refine ⟨1 / 2, 1 / 2, isSplit_half, isSplit_half, funext fun tile => ?_⟩
  cases tile <;> norm_num [QuickTile.created, QuickTile.halfOrQuarter, RectF.ofSize]

variable [DecidableEq Window]

theorem step_consistent (hc : s.Consistent) (hs : step s event = some s') : s'.Consistent ↔ event.leavesRoom := by
  obtain ⟨h, v, hcut, _⟩ := hc.exists_cut
  cases event with
  | add tile window =>
    rw [step] at hs
    split at hs <;> cases hs
    exact iff_of_true (hcut.congr rfl).consistent trivial
  | remove tile window =>
    cases hs
    refine iff_of_true ?_ trivial
    rw [remove]
    split
    case isTrue =>
      have hwindows : Cut { s with windows := Function.update s.windows tile ((s.windows tile).erase window) } h v :=
        hcut.congr rfl
      obtain ⟨_, _, hreset⟩ := hwindows.tryReset
      exact hreset.consistent
    case isFalse => exact hc
  | resizeFromGravity output tile gravity xRoot yRoot =>
    rw [step] at hs
    split at hs
    case isFalse => cases hs
    case isTrue hsupports =>
      cases hs
      rw [supportsResizeGravity, Bool.and_eq_true] at hsupports
      have hleft := edgePosition_left output xRoot yRoot
      have htop := edgePosition_top output xRoot yRoot
      rw [resizeFromGravity]
      constructor
      case mp =>
        intro hconsistent
        by_contra hroom
        rw [Event.leavesRoom, not_and_or, Classical.not_imp, Classical.not_imp, not_le, not_le, ← hleft,
          ← htop] at hroom
        exact hcut.not_consistent_resized _ hsupports.2 hroom hconsistent
      case mpr =>
        rintro ⟨hl, ht⟩
        rw [← hleft] at hl
        rw [← htop] at ht
        exact (hcut.setRelativeGeometry (hcut.framed_resized _ hsupports.2 hl ht)).consistent

theorem quickTiles_consistent_iff (events : List (Event Window)) :
    Machine.Always step Consistent ({} : QuickRootTile Window) events ↔
      Machine.EachStep step (fun _ event => event.leavesRoom) ({} : QuickRootTile Window) events :=
  Machine.Always.iff_eachStep consistent_created id fun hc hs =>
    ⟨step_consistent hc hs, (step_consistent hc hs).mpr⟩

def fullHd : Output where
  geometryF := .ofSize 0 0 1920 1080
  nonempty  := by decide +kernel

-- The right half is resized so that less than the minimum is left of it.
theorem not_quickTiles_consistent : ¬Machine.Always step Consistent ({} : QuickRootTile ℕ)
    [.resizeFromGravity fullHd .rightVertical .left 1728 540] := by
  intro h
  have hstep : step ({} : QuickRootTile ℕ) (.resizeFromGravity fullHd .rightVertical .left 1728 540) = some _ :=
    if_pos (by decide +kernel)
  have hroom := ((step_consistent consistent_created hstep).mp (h.2 _ hstep)).1 (by decide)
  norm_num [relativeX, fullHd, RectF.ofSize, RectF.width, minimumSize] at hroom

end QuickRootTile
end KWin
