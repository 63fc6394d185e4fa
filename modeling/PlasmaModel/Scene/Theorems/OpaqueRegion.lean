import Mathlib.Algebra.BigOperators.Group.List.Basic
import Mathlib.Order.UpperLower.Basic
import PlasmaModel.Region.Theorems.Rounded
import PlasmaModel.Scene.SurfaceItem

namespace KWin

namespace RectF

-- The place of a rectangle is given by the edges that come before it on each axis.
def At (X Y : Set ℚ) (r : RectF) : Prop :=
  (r.left ∈ X ∧ r.right ∉ X) ∧ (r.top ∈ Y ∧ r.bottom ∉ Y)

variable {X Y : Set ℚ} {r other : RectF} {rects : List RectF} {a b : ℚ}

theorem lt_of_isLowerSet (hX : IsLowerSet X) (ha : a ∈ X) (hb : b ∉ X) : a < b :=
  lt_of_not_ge fun h => hb (hX h ha)

theorem isEmpty_of_at (hX : IsLowerSet X) (hY : IsLowerSet Y) (h : r.At X Y) : r.isEmpty = false :=
  isEmpty_eq_false_iff.mpr ⟨lt_of_isLowerSet hX h.1.1 h.1.2, lt_of_isLowerSet hY h.2.1 h.2.2⟩

theorem max_mem_iff (hX : IsLowerSet X) : max a b ∈ X ↔ a ∈ X ∧ b ∈ X := by
  constructor
  case mp => exact fun h => ⟨hX (le_max_left ..) h, hX (le_max_right ..) h⟩
  case mpr =>
    intro ⟨ha, hb⟩
    cases max_choice a b with
    | inl h => exact Set.mem_of_eq_of_mem h ha
    | inr h => exact Set.mem_of_eq_of_mem h hb

theorem min_mem_iff (hX : IsLowerSet X) : min a b ∈ X ↔ a ∈ X ∨ b ∈ X := by
  constructor
  case mp =>
    intro h
    cases min_choice a b with
    | inl hm => exact .inl (hm ▸ h)
    | inr hm => exact .inr (hm ▸ h)
  case mpr => exact fun h => h.elim (hX (min_le_left ..)) (hX (min_le_right ..))

theorem exists_subtracted (hX : IsLowerSet X) (hY : IsLowerSet Y) (hx : other.left ≤ other.right)
    (hy : other.top ≤ other.bottom) : (∃ part ∈ r.subtracted other, part.At X Y) ↔ r.At X Y ∧ ¬other.At X Y := by
  have hx : other.right ∈ X → other.left ∈ X := hX hx
  have hy : other.bottom ∈ Y → other.top ∈ Y := hY hy
  have hmem (part : RectF) (parts : List RectF) :
      (part ∈ parts.filter (!·.isEmpty) ∧ part.At X Y) ↔ part ∈ parts ∧ part.At X Y := by
    rw [List.mem_filter]
    exact ⟨fun h => ⟨h.1.1, h.2⟩, fun h => ⟨⟨h.1, by simp [isEmpty_of_at hX hY h.2]⟩, h.2⟩⟩
  simp only [subtracted, hmem, List.mem_cons, List.not_mem_nil, or_false, exists_eq_or_imp, exists_eq_left]
  simp only [At, max_mem_iff hX, max_mem_iff hY, min_mem_iff hX, min_mem_iff hY]
  tauto

theorem exists_clipped {c : Prop} [Decidable c] (hX : IsLowerSet X) (hY : IsLowerSet Y)
    (hx : c → other.left ≤ other.right) (hy : c → other.top ≤ other.bottom) :
    (∃ part ∈ if c then rects.flatMap (·.subtracted other) else rects, part.At X Y) ↔
      (∃ rect ∈ rects, rect.At X Y) ∧ (c → ¬other.At X Y) := by
  split
  case isTrue hc =>
    simp only [List.mem_flatMap, forall_prop_of_true hc]
    constructor
    case mp =>
      intro ⟨part, ⟨rect, hrect, hpart⟩, hat⟩
      have ⟨hat, hnot⟩ := (exists_subtracted hX hY (hx hc) (hy hc)).mp ⟨part, hpart, hat⟩
      exact ⟨⟨rect, hrect, hat⟩, hnot⟩
    case mpr =>
      intro ⟨⟨rect, hrect, hat⟩, hnot⟩
      have ⟨part, hpart, hat⟩ := (exists_subtracted hX hY (hx hc) (hy hc)).mpr ⟨hat, hnot⟩
      exact ⟨part, ⟨rect, hrect, hpart⟩, hat⟩
  case isFalse hc => exact (and_iff_left fun h => absurd h hc).symm

-- The edges belong to the rectangle.
def Holds (r : RectF) (point : PointF) : Prop :=
  (r.left ≤ point.x ∧ point.x ≤ r.right) ∧ (r.top ≤ point.y ∧ point.y ≤ r.bottom)

-- The edges do not belong to the rectangle.
def Encloses (r : RectF) (point : PointF) : Prop :=
  (r.left < point.x ∧ point.x < r.right) ∧ (r.top < point.y ∧ point.y < r.bottom)

end RectF

namespace Scene

-- A rounded corner is an arc in a square.
structure Arc where
  square : RectF
  center : PointF
  radius : ℚ

-- What is in the square and outside of the circle is cut away.
def Arc.CutsAway (arc : Arc) (point : PointF) : Prop :=
  arc.square.Encloses point ∧
    arc.radius ^ 2 < (point.x - arc.center.x) ^ 2 + (point.y - arc.center.y) ^ 2

def ClipCorner.arcs (corner : ClipCorner) : List Arc :=
  let ⟨left, top, right, bottom⟩ := corner.box
  let ⟨topLeft, topRight, bottomRight, bottomLeft⟩ := corner.radius
  [⟨⟨left, top, left + topLeft, top + topLeft⟩, ⟨left + topLeft, top + topLeft⟩, topLeft⟩,
    ⟨⟨right - topRight, top, right, top + topRight⟩, ⟨right - topRight, top + topRight⟩, topRight⟩,
    ⟨⟨right - bottomRight, bottom - bottomRight, right, bottom⟩, ⟨right - bottomRight, bottom - bottomRight⟩,
      bottomRight⟩,
    ⟨⟨left, bottom - bottomLeft, left + bottomLeft, bottom⟩, ⟨left + bottomLeft, bottom - bottomLeft⟩, bottomLeft⟩]

theorem exists_clip {X Y : Set ℚ} (hX : IsLowerSet X) (hY : IsLowerSet Y) (corner : ClipCorner) {rects : List RectF} :
    (∃ part ∈ corner.radius.clip rects corner.box, part.At X Y) ↔
      (∃ rect ∈ rects, rect.At X Y) ∧ ∀ arc ∈ corner.arcs, 0 < arc.radius → ¬arc.square.At X Y := by
  unfold BorderRadius.clip ClipCorner.arcs
  rw [RectF.exists_clipped hX hY (by simpa using le_of_lt) (by simpa using le_of_lt),
    RectF.exists_clipped hX hY (by simpa using le_of_lt) (by simpa using le_of_lt),
    RectF.exists_clipped hX hY (by simpa using le_of_lt) (by simpa using le_of_lt),
    RectF.exists_clipped hX hY (by simpa using le_of_lt) (by simpa using le_of_lt)]
  simp only [List.forall_mem_cons, List.not_mem_nil, false_imp_iff, implies_true, and_true, and_assoc]

-- What is handed down to an item, the items being listed on the way up.
def clipCorner : List SceneItem → Option ClipCorner
  | []              => none
  | item :: parents => calculateClipCorner item (clipCorner parents)

variable {view : Scene.RenderView} {item : SceneItem} {parents items : List SceneItem} {rect : RectF} {p : Point}
variable {ret : Region} {b : SceneItem × List SceneItem} {tree : RoseTree SceneItem} {x y : ℚ}

-- Where an item is in the view, every position on the way up being snapped.
def viewPosition (view : Scene.RenderView) (items : List SceneItem) : PointF where
  x := (items.map fun item => (snapToPixels item.position view.scale).x).sum
  y := (items.map fun item => (snapToPixels item.position view.scale).y).sum

theorem mapToView_eq : mapToView view rect items = rect.translated (viewPosition view items) := by
  unfold mapToView viewPosition
  induction items generalizing rect
  case nil => simp [RectF.translated]
  case cons item parents ih =>
    rw [List.foldl_cons, ih]
    simp [RectF.translated, add_assoc]

-- The edges that are rounded to the left of a pixel or above it.
def edgesBefore (scale origin offset position : ℚ) (pixel : Int) : Set ℚ :=
  { edge | roundAway ((edge + position + -origin) * scale + offset) ≤ pixel }

theorem isLowerSet_edgesBefore {scale origin offset position : ℚ} (hs : 0 < scale) (pixel : Int) :
    IsLowerSet (edgesBefore scale origin offset position pixel) := fun a b hle ha =>
  (roundAway_mono (by gcongr)).trans ha

def columnsBefore (view : Scene.RenderView) (items : List SceneItem) (p : Point) : Set ℚ :=
  edgesBefore view.scale view.viewport.left view.renderOffset.x (viewPosition view items).x p.x

def rowsBefore (view : Scene.RenderView) (items : List SceneItem) (p : Point) : Set ℚ :=
  edgesBefore view.scale view.viewport.top view.renderOffset.y (viewPosition view items).y p.y

theorem mem_mapToDevice : p ∈ mapToDevice view item parents rect ↔
    rect.At (columnsBefore view (item :: parents) p) (rowsBefore view (item :: parents) p) := by
  simp only [mapToDevice, mapToView_eq, Rect.mem_iff, RectF.At, columnsBefore, rowsBefore, edgesBefore,
    Set.mem_ofPred_eq, not_le]
  rfl

-- The item takes the pixel to be covered.
structure Claims (view : Scene.RenderView) (b : SceneItem × List SceneItem) (p : Point) : Prop where
  inside   : p ∈ mapToDevice view b.1 b.2 b.1.rect
  declared : ∃ rect ∈ b.1.opaqueRegion.rects, p ∈ mapToDevice view b.1 b.2 rect
  uncut    : ∀ corner ∈ clipCorner (b.1 :: b.2), ∀ arc ∈ corner.arcs, 0 < arc.radius →
    p ∉ mapToDevice view b.1 b.2 arc.square

-- What the rounded corners leave of the opaque region.
def clippedRects (item : SceneItem) (parents : List SceneItem) : List RectF :=
  match clipCorner (item :: parents) with
  | some corner => corner.radius.clip item.opaqueRegion.rects corner.box
  | none        => item.opaqueRegion.rects

theorem exists_clippedRects (item : SceneItem) (parents : List SceneItem) {X Y : Set ℚ} (hX : IsLowerSet X)
    (hY : IsLowerSet Y) :
    (∃ rect ∈ clippedRects item parents, rect.At X Y) ↔
      (∃ rect ∈ item.opaqueRegion.rects, rect.At X Y) ∧
        ∀ corner ∈ clipCorner (item :: parents), ∀ arc ∈ corner.arcs, 0 < arc.radius → ¬arc.square.At X Y := by
  unfold clippedRects
  cases clipCorner (item :: parents)
  case none => simp
  case some corner => simpa using exists_clip hX hY corner

theorem claims_iff (hs : 0 < view.scale) : Claims view (item, parents) p ↔
    ∃ rect ∈ clippedRects item parents,
      p ∈ (mapToDevice view item parents rect).intersected (mapToDevice view item parents item.rect) := by
  have hX : IsLowerSet (columnsBefore view (item :: parents) p) := isLowerSet_edgesBefore hs _
  have hY : IsLowerSet (rowsBefore view (item :: parents) p) := isLowerSet_edgesBefore hs _
  have hclipped := exists_clippedRects item parents hX hY
  simp only [← mem_mapToDevice] at hclipped
  simp only [Rect.mem_intersected, ← and_assoc, exists_and_right, hclipped]
  exact ⟨fun h => ⟨⟨h.declared, h.uncut⟩, h.inside⟩, fun h => ⟨h.2, h.1.1, h.1.2⟩⟩

-- What is collected is what the items of the tree claim.
theorem addOpaqueRegionRecursive_draws (hs : 0 < view.scale) (parents : List SceneItem) (hr : ret.WellFormed) :
    (addOpaqueRegionRecursive view parents (clipCorner parents) ret tree).Draws fun p =>
      p ∈ ret ∨ ∃ b ∈ tree.withAncestors parents, Claims view b p := by
  induction tree using RoseTree.induction generalizing parents ret
  case node item children ih =>
    -- The children are visited one after the other, each one adding to what is there.
    have hchildren {ret : Region} (hr : ret.WellFormed) :
        (addOpaqueRegionChildren view (item :: parents) (clipCorner (item :: parents)) ret children).Draws fun p =>
          p ∈ ret ∨ ∃ b ∈ RoseTree.withAncestorsAll (item :: parents) children, Claims view b p := by
      induction children generalizing ret
      case nil => exact ⟨hr, by simp [addOpaqueRegionChildren, RoseTree.withAncestorsAll]⟩
      case cons child children ihc =>
        have ⟨hw, hp⟩ := ih child (by simp) (item :: parents) hr
        have ⟨hw', hp'⟩ := ihc (fun c hc => ih c (by simp [hc])) hw
        refine ⟨hw', fun p => (hp' p).trans ((or_congr_left (hp p)).trans ?_)⟩
        simp only [RoseTree.withAncestorsAll, List.mem_append, or_and_right, exists_or, or_assoc]
    have hown := Region.foldl_ofRect_draws
      (fun rect => (mapToDevice view item parents rect).intersected (mapToDevice view item parents item.rect))
      (clippedRects item parents) hr
    have ⟨hw, hp⟩ := hchildren hown.1
    refine ⟨hw, fun p => (hp p).trans ((or_congr_left (hown.2 p)).trans ?_)⟩
    simp only [← claims_iff hs, RoseTree.withAncestors, List.mem_cons, exists_eq_or_imp, or_assoc]

-- Where the center of a pixel is in an item.
def pixelCenter (view : Scene.RenderView) (items : List SceneItem) (p : Point) : PointF where
  x := (p.x + 1 / 2 - view.renderOffset.x) / view.scale + view.viewport.left - (viewPosition view items).x
  y := (p.y + 1 / 2 - view.renderOffset.y) / view.scale + view.viewport.top - (viewPosition view items).y

section

variable {scale origin offset position edge : ℚ} {pixel : Int}

-- The center is on the side of an edge that the pixel is rounded to.
theorem le_of_mem_edgesBefore (hs : 0 < scale) (h : edge ∈ edgesBefore scale origin offset position pixel) :
    edge ≤ (pixel + 1 / 2 - offset) / scale + origin - position := by
  have hround := le_roundAway ((edge + position + -origin) * scale + offset)
  have hle : (roundAway ((edge + position + -origin) * scale + offset) : ℚ) ≤ pixel := by exact_mod_cast h
  have : edge + position + -origin ≤ (pixel + 1 / 2 - offset) / scale := by
    rw [le_div_iff₀ hs]
    linarith
  linarith

theorem ge_of_not_mem_edgesBefore (hs : 0 < scale) (h : edge ∉ edgesBefore scale origin offset position pixel) :
    (pixel + 1 / 2 - offset) / scale + origin - position ≤ edge := by
  have hround := roundAway_le ((edge + position + -origin) * scale + offset)
  have hlt : pixel + 1 ≤ roundAway ((edge + position + -origin) * scale + offset) :=
    Int.add_one_le_of_lt (not_le.mp h)
  have hlt : (pixel + 1 : ℚ) ≤ roundAway ((edge + position + -origin) * scale + offset) := by exact_mod_cast hlt
  have : (pixel + 1 / 2 - offset) / scale ≤ edge + position + -origin := by
    rw [div_le_iff₀ hs]
    linarith
  linarith

end

theorem holds_of_mem (hs : 0 < view.scale) (h : p ∈ mapToDevice view item parents rect) :
    rect.Holds (pixelCenter view (item :: parents) p) :=
  have ⟨⟨hl, hr⟩, ht, hb⟩ := mem_mapToDevice.mp h
  ⟨⟨le_of_mem_edgesBefore hs hl, ge_of_not_mem_edgesBefore hs hr⟩,
    le_of_mem_edgesBefore hs ht, ge_of_not_mem_edgesBefore hs hb⟩

theorem not_encloses_of_not_mem (hs : 0 < view.scale) (h : p ∉ mapToDevice view item parents rect) :
    ¬rect.Encloses (pixelCenter view (item :: parents) p) := by
  intro ⟨⟨hl, hr⟩, ht, hb⟩
  refine h (mem_mapToDevice.mpr ⟨⟨?_, fun hr' => ?_⟩, ?_, fun hb' => ?_⟩)
  · by_contra hl'
    exact hl.not_ge (ge_of_not_mem_edgesBefore hs hl')
  · exact hr.not_ge (le_of_mem_edgesBefore hs hr')
  · by_contra ht'
    exact ht.not_ge (ge_of_not_mem_edgesBefore hs ht')
  · exact hb.not_ge (le_of_mem_edgesBefore hs hb')

-- The item and those above it are visible and hide what is below them.
structure Solid (items : List SceneItem) : Prop where
  visible : ∀ item ∈ items, item.explicitVisible
  opacity : (items.map SceneItem.opacity).prod = 1

-- The center of the pixel is where the item hides what is below it.
structure Covers (view : Scene.RenderView) (b : SceneItem × List SceneItem) (p : Point) : Prop where
  solid    : Solid (b.1 :: b.2)
  inside   : b.1.rect.Holds (pixelCenter view (b.1 :: b.2) p)
  declared : ∃ rect ∈ b.1.opaqueRegion.rects, rect.Holds (pixelCenter view (b.1 :: b.2) p)
  uncut    : ∀ corner ∈ clipCorner (b.1 :: b.2), ∀ arc ∈ corner.arcs, ¬arc.CutsAway (pixelCenter view (b.1 :: b.2) p)

theorem Arc.radius_pos {corner : ClipCorner} {arc : Arc} {point : PointF} (h : arc ∈ corner.arcs)
    (he : arc.square.Encloses point) : 0 < arc.radius := by
  have ⟨⟨hl, hr⟩, _⟩ := he
  have hlt := hl.trans hr
  simp only [ClipCorner.arcs, List.mem_cons, List.not_mem_nil, or_false] at h
  rcases h with rfl | rfl | rfl | rfl <;> simpa using hlt

-- No pixel is lost or gained by the rounding: only the visibility and the opacity are missing.
theorem Claims.covers (hs : 0 < view.scale) (h : Claims view b p) (hsolid : Solid (b.1 :: b.2)) : Covers view b p where
  solid    := hsolid
  inside   := holds_of_mem hs h.inside
  declared := have ⟨rect, hrect, hp⟩ := h.declared; ⟨rect, hrect, holds_of_mem hs hp⟩
  uncut    := fun corner hcorner arc harc ⟨he, _⟩ =>
    not_encloses_of_not_mem hs (h.uncut corner hcorner arc harc (Arc.radius_pos harc he)) he

-- What the other items claim has to be covered.
theorem addOpaqueRegionRecursive_covered_iff (view : Scene.RenderView) (hs : 0 < view.scale)
    (window : RoseTree SceneItem) :
    (∀ p ∈ addOpaqueRegionRecursive view [] none {} window, ∃ b ∈ window.withAncestors [], Covers view b p) ↔
      ∀ b ∈ window.withAncestors [], ¬Solid (b.1 :: b.2) → ∀ p, Claims view b p →
        ∃ other ∈ window.withAncestors [], Covers view other p := by
  have hdraws (p : Point) : p ∈ addOpaqueRegionRecursive view [] none {} window ↔
      ∃ b ∈ window.withAncestors [], Claims view b p :=
    ((addOpaqueRegionRecursive_draws hs [] Region.wellFormed_empty).2 p).trans
      (or_iff_right Region.not_mem_empty)
  constructor
  case mp => exact fun h b hb _ p hp => h p ((hdraws p).mpr ⟨b, hb, hp⟩)
  case mpr =>
    intro h p hp
    have ⟨b, hb, hclaims⟩ := (hdraws p).mp hp
    by_cases hsolid : Solid (b.1 :: b.2)
    case pos => exact ⟨b, hb, hclaims.covers hs hsolid⟩
    case neg => exact h b hb hsolid p hclaims

def plainView : Scene.RenderView where
  viewport := ⟨0, 0, 10, 10⟩
  scale    := 1

-- A client makes its surface translucent, and leaves the opaque region as it was.
def translucentWindow : RoseTree SceneItem :=
  .node { size := ⟨10, 10⟩ } [.node { size := ⟨10, 10⟩, opacity := 1 / 2, opaqueRegion := ⟨⟨0, 0, 10, 10⟩, []⟩ } []]

theorem addOpaqueRegionRecursive_covered_plain :
    (∀ p ∈ addOpaqueRegionRecursive plainView [] none {} translucentWindow,
        ∃ b ∈ translucentWindow.withAncestors [], Covers plainView b p) ↔
      ∀ b ∈ translucentWindow.withAncestors [], ¬Solid (b.1 :: b.2) → ∀ p, Claims plainView b p →
        ∃ other ∈ translucentWindow.withAncestors [], Covers plainView other p :=
  addOpaqueRegionRecursive_covered_iff plainView (by decide +kernel) translucentWindow

theorem addOpaqueRegionRecursive_not_covered :
    ¬∀ (view : Scene.RenderView) (window : RoseTree SceneItem), 0 < view.scale →
      ∀ p ∈ addOpaqueRegionRecursive view [] none {} window, ∃ b ∈ window.withAncestors [], Covers view b p := by
  intro h
  have hcollected : addOpaqueRegionRecursive plainView [] none {} translucentWindow = .ofRect ⟨0, 0, 10, 10⟩ := by
    decide +kernel
  have ⟨b, hb, hcovers⟩ := h plainView translucentWindow (by decide +kernel) ⟨0, 0⟩
    (hcollected ▸ Region.mem_ofRect.mpr (Rect.mem_iff.mpr (by decide)))
  simp only [translucentWindow, RoseTree.withAncestors, RoseTree.withAncestorsAll, List.append_nil, List.mem_cons,
    List.not_mem_nil, or_false] at hb
  cases hb with
  | inl hb =>
    -- The window itself declares nothing.
    have hnothing : RegionF.rects {} = [] := by decide +kernel
    have ⟨rect, hrect, _⟩ := hcovers.declared
    subst hb
    simp [hnothing] at hrect
  | inr hb =>
    have hopacity := hcovers.solid.opacity
    subst hb
    norm_num at hopacity

end Scene
end KWin
