import PlasmaModel.Scene.ItemTree

namespace KWin

namespace RenderView

-- Where a pixel of the device is in the scene.
def scenePoint (view : RenderView) (pixel : Point) : Point :=
  pixel - view.renderOffset - (0 - view.viewport.topLeft)

theorem mem_mapToDeviceCoordinates {view : RenderView} {rect : Rect} {pixel : Point} :
    pixel ∈ view.mapToDeviceCoordinates rect ↔ view.scenePoint pixel ∈ rect := by
  rw [mapToDeviceCoordinates, Rect.mem_translated, Rect.mem_translated]
  rfl

end RenderView

namespace ItemState

variable {item : ItemState} {view : RenderView} {origin pixel : Point} {rect : Rect}

-- No repaint contains the pixel.
def Unrecorded (pixel : Point) (repaints : List Repaint) : Prop :=
  ∀ r ∈ repaints, pixel ∉ r.area

theorem unrecorded_append {l l' : List Repaint} :
    Unrecorded pixel (l ++ l') ↔ Unrecorded pixel l ∧ Unrecorded pixel l' :=
  List.forall_mem_append

theorem unrecorded_flatMap {α : Type} {f : α → List Repaint} {l : List α} :
    Unrecorded pixel (l.flatMap f) ↔ ∀ a ∈ l, Unrecorded pixel (f a) := by
  simp only [Unrecorded, List.mem_flatMap]
  grind

theorem unrecorded_record {item? : Option Nat} : Unrecorded pixel (record item? rect) ↔ pixel ∉ rect := by
  rw [record]
  split
  case isTrue h => exact iff_of_true nofun (Rect.isEmpty_iff_forall_not_mem.mp h pixel)
  case isFalse => exact List.forall_mem_singleton

theorem mem_paintedDeviceArea (hp : pixel ∈ view.deviceRect) :
    pixel ∈ item.paintedDeviceArea view origin rect ↔ view.scenePoint pixel - origin - item.position ∈ rect := by
  rw [paintedDeviceArea, Rect.mem_intersected, RenderView.mem_mapToDeviceCoordinates, Rect.mem_translated,
    Rect.mem_translated]
  exact and_iff_left hp

theorem unrecorded_scheduleRepaintInternal (hs : item.scene) (hp : pixel ∈ view.deviceRect) :
    Unrecorded pixel (item.scheduleRepaintInternal view origin rect) ↔
      view.scenePoint pixel - origin - item.position ∉ rect := by
  rw [scheduleRepaintInternal, if_pos hs, unrecorded_record, mem_paintedDeviceArea hp]

theorem unrecorded_scheduleSceneRepaintInternal (hs : item.scene) (hp : pixel ∈ view.deviceRect) :
    Unrecorded pixel (item.scheduleSceneRepaintInternal view origin rect) ↔
      view.scenePoint pixel - origin - item.position ∉ rect := by
  rw [scheduleSceneRepaintInternal, if_pos hs, unrecorded_record, mem_paintedDeviceArea hp]

theorem unrecorded_scheduleRepaint (hs : item.scene) (hv : item.isVisible) (hp : pixel ∈ view.deviceRect) :
    Unrecorded pixel (item.scheduleRepaint view origin rect) ↔
      view.scenePoint pixel - origin - item.position ∉ rect := by
  rw [scheduleRepaint, if_pos hv, unrecorded_scheduleRepaintInternal hs hp]

theorem unrecorded_scheduleSceneRepaint (hs : item.scene) (hv : item.isVisible) (hp : pixel ∈ view.deviceRect) :
    Unrecorded pixel (item.scheduleSceneRepaint view origin rect) ↔
      view.scenePoint pixel - origin - item.position ∉ rect := by
  rw [scheduleSceneRepaint, if_pos hv, unrecorded_scheduleSceneRepaintInternal hs hp]

end ItemState

namespace ItemTree

open ItemState RoseTree

variable {item item' : ItemState} {children children' : List ItemTree} {t : ItemTree} {pixel : Point} {scene : Bool}

def z (t : ItemTree) : Int :=
  t.value.z

theorem paint_node : paint (.node item children) =
    if item.isVisible then (Layers.layered z paint [⟨item.id, item.rect, []⟩] children).map item.within else [] := by
  rw [paint]
  congr 2
  refine (Layers.layered_map (z := z) (f := paint) Subtype.val children.attach).symm.trans ?_
  rw [List.attach_map_subtype_val]

theorem paintAt_node : paintAt pixel (.node item children) =
    if item.isVisible then
      (Layers.layered z (paintAt (pixel - item.position))
        ([(⟨item.id, item.rect, []⟩ : PaintedItem)].filter (·.rect.containsPoint (pixel - item.position))) children).map
          item.within
    else
      [] := by
  rw [paintAt, paint_node]
  cases item.isVisible
  case false => rfl
  case true =>
    rw [if_pos rfl, if_pos rfl, List.filter_map, Layers.filter_layered]
    have hmem (painted : PaintedItem) : (item.within painted).rect.containsPoint pixel =
        painted.rect.containsPoint (pixel - item.position) := Bool.eq_iff_iff.mpr Rect.mem_translated
    simp only [Function.comp_def, hmem]
    rfl

theorem paintAt_of_hidden (h : item.isVisible = false) : paintAt pixel (.node item children) = [] := by
  rw [paintAt_node, h]
  rfl

-- What is painted of an item at a pixel depends only on what is painted of its children there.
theorem paintAt_congr {l l' : List ItemTree} (h : Layers.heights z (paintAt (pixel - item.position)) l =
      Layers.heights z (paintAt (pixel - item.position)) l') :
    paintAt pixel (.node item l) = paintAt pixel (.node item l') := by
  rw [paintAt_node, paintAt_node, Layers.layered_congr h]

theorem paintAt_eq_nil (hr : item.isVisible → pixel - item.position ∉ item.rect)
    (hc : item.isVisible → ∀ child ∈ children, child.paintAt (pixel - item.position) = []) :
    paintAt pixel (.node item children) = [] := by
  rw [paintAt_node]
  split
  case isFalse => rfl
  case isTrue hv =>
    refine List.map_eq_nil_iff.mpr (List.eq_nil_iff_forall_not_mem.mpr fun painted hm => ?_)
    cases Layers.mem_layered.mp hm
    case inl h =>
      have ⟨h, hm⟩ := List.mem_filter.mp h
      cases List.mem_singleton.mp h
      exact hr hv hm
    case inr h =>
      have ⟨child, hm, h⟩ := h
      rw [hc hv child hm] at h
      cases h

-- The bounding rectangle covers all that is painted of an item.
theorem paintAt_of_notMem_boundingRect (h : Forall Bounding t) (hp : pixel ∉ boundsInParent t.value) :
    t.paintAt pixel = [] := by
  induction t using RoseTree.induction generalizing pixel
  case node item children ih =>
    have ⟨hb, hc⟩ := forall_node.mp h
    have hp : pixel - item.position ∉ item.boundingRect := fun hm => hp (Rect.mem_translated.mpr hm)
    refine paintAt_eq_nil (fun _ hm => hp (hb.rect _ hm)) fun _ child hm => ih child hm (hc child hm) fun hm' => ?_
    exact hp (hb.children _ (List.mem_map_of_mem hm) _ hm')

-- Nothing is painted of an item where its move repaints are missing.
theorem paintAt_of_unrecorded_move {view : RenderView} {origin : Point} (h : ∀ item ∈ t.preorder, item.scene)
    (hp : pixel ∈ view.deviceRect) (hu : Unrecorded pixel (scheduleMoveRepaint view origin t)) :
    t.paintAt (view.scenePoint pixel - origin) = [] := by
  induction t using RoseTree.induction generalizing origin
  case node item children ih =>
    rw [preorder_node, List.forall_mem_cons] at h
    have ⟨hs, hc⟩ := h
    cases hv : item.isVisible
    case false => exact paintAt_of_hidden hv
    case true =>
      rw [scheduleMoveRepaint, hs, hv, Bool.and_true, if_pos rfl, unrecorded_append, unrecorded_record,
        mem_paintedDeviceArea hp, unrecorded_flatMap] at hu
      refine paintAt_eq_nil (fun _ => hu.1) fun _ child hm => ?_
      rw [← Point.sub_add]
      refine ih child hm (fun item hi => hc item (List.mem_flatMap.mpr ⟨child, hm, hi⟩)) ?_
      exact hu.2 ⟨child, hm⟩ (List.mem_attach _ _)

-- Where a change of an item is not seen at a pixel, it is not seen of the tree either.
theorem paintAt_modify {f : ItemTree → ItemTree} {p : List Nat} (h : ∀ n, t.subtree? p = some n →
      paintAt (pixel - t.origin p) (f n) = paintAt (pixel - t.origin p) n ∧
        (z (f n) = z n ∨ paintAt (pixel - t.origin p) n = [])) :
    paintAt pixel (t.modify f p) = paintAt pixel t := by
  induction p generalizing f
  case nil =>
    have h := (h t rfl).1
    rwa [origin, Point.sub_zero] at h
  case cons i p ih =>
    refine ih fun n hn => ⟨?_, .inl rfl⟩
    cases n with | node item children =>
    refine paintAt_congr (Layers.heights_modify fun child hc => ?_)
    have h := h child (by rw [subtree?, hn]; exact hc)
    rwa [origin, value?, hn, Option.map_some, Option.elim_some, value_node, Point.sub_add] at h

end ItemTree
end KWin

namespace KWin.ItemTree

open RoseTree

variable {item : ItemState} {children : List ItemTree} {t u : ItemTree} {p : List Nat} {pixel : Point} {scene : Bool}

-- What is painted does not depend on the bounding rectangles.
def forget (item : ItemState) : ItemState :=
  { item with boundingRect := default }

theorem paint_map_forget (t : ItemTree) : paint (t.map forget) = paint t := by
  induction t using RoseTree.induction
  case node item children ih =>
    rw [RoseTree.map, mapAll_eq, paint_node, paint_node, Layers.layered_map]
    have hz (c : ItemTree) : z (c.map forget) = z c := by cases c; rfl
    have hpaint : Layers.layered (z ∘ RoseTree.map forget) (paint ∘ RoseTree.map forget) [⟨item.id, item.rect, []⟩] children =
        Layers.layered z paint [⟨item.id, item.rect, []⟩] children := by
      refine Layers.layered_congr ?_
      rw [Layers.heights_eq_filter, Layers.heights_eq_filter]
      congr 1
      exact List.map_congr_left fun c hc => Prod.ext (hz c) (ih c hc)
    exact congrArg (fun l : List PaintedItem => if item.isVisible then l.map item.within else []) hpaint

theorem scheduleMoveRepaint_node {view : RenderView} {origin : Point} :
    scheduleMoveRepaint view origin (.node item children) =
      if item.scene && item.isVisible then
        ItemState.record (some item.id) (item.paintedDeviceArea view origin item.rect) ++
          children.flatMap (scheduleMoveRepaint view (origin + item.position))
      else
        [] := by
  have hmove (f : ItemTree → List Repaint) : (children.attach.flatMap fun ⟨child, _⟩ => f child) = children.flatMap f := by
    simp
  rw [scheduleMoveRepaint, hmove]

theorem scheduleMoveRepaint_map_forget (view : RenderView) (origin : Point) (t : ItemTree) :
    scheduleMoveRepaint view origin (t.map forget) = scheduleMoveRepaint view origin t := by
  induction t using RoseTree.induction generalizing origin
  case node item children ih =>
    rw [RoseTree.map, mapAll_eq, scheduleMoveRepaint_node, scheduleMoveRepaint_node, List.flatMap_map]
    have hmove : children.flatMap (fun c => scheduleMoveRepaint view (origin + item.position) (c.map forget)) =
        children.flatMap (scheduleMoveRepaint view (origin + item.position)) :=
      List.flatMap_congr fun c hc => ih c hc _
    exact congrArg (fun l => if item.scene && item.isVisible then
      ItemState.record (some item.id) (item.paintedDeviceArea view origin item.rect) ++ l else []) hmove

theorem paintAt_congr_forget (h : t.map forget = u.map forget) : paintAt pixel t = paintAt pixel u := by
  rw [paintAt, ← paint_map_forget, h, paint_map_forget, ← paintAt]

theorem origin_map_forget (t : ItemTree) (p : List Nat) : origin (t.map forget) p = origin t p := by
  induction p
  case nil => rfl
  case cons i p ih =>
    rw [origin, origin, ih, value?_map]
    cases t.value? p <;> rfl

theorem moveRepaintAt_congr_forget {view : RenderView} (h : t.map forget = u.map forget) (p : List Nat) :
    moveRepaintAt view p t = moveRepaintAt view p u := by
  have hmove (t : ItemTree) : moveRepaintAt view p t =
      ((t.map forget).subtree? p).elim [] (scheduleMoveRepaint view (origin (t.map forget) p)) := by
    rw [moveRepaintAt, subtree?_map, origin_map_forget]
    cases t.subtree? p
    case none => rfl
    case some n => exact (scheduleMoveRepaint_map_forget view _ n).symm
  rw [hmove, h, ← hmove]

theorem map_forget_updateBoundingRect (p : List Nat) (t : ItemTree) :
    (updateBoundingRect p t).map forget = t.map forget := by
  induction p generalizing t
  case nil => exact map_modifyValue fun _ _ => rfl
  case cons i p ih =>
    rw [updateBoundingRect]
    split
    case h_1 => rfl
    case h_2 =>
      split
      case isTrue => exact (ih _).trans (map_modifyValue fun _ _ => rfl)
      case isFalse => rfl

theorem value_updateBoundingRect (p : List Nat) (t : ItemTree) :
    forget (updateBoundingRect p t).value = forget t.value := by
  rw [← value_map forget, ← value_map forget, map_forget_updateBoundingRect]

theorem map_forget_updateParentBoundingRect (t : ItemTree) (p : List Nat) :
    (updateParentBoundingRect t p).map forget = t.map forget := by
  cases p
  case nil => rfl
  case cons i p => exact map_forget_updateBoundingRect p t

-- The bounding rectangle is the one of the item and its children when it has been updated.

theorem mem_foldl_united {l : List ItemTree} {r : Rect} (h : pixel ∈ r ∨ ∃ child ∈ l, pixel ∈ boundsInParent child.value) :
    pixel ∈ l.foldl (fun r child => r.united (boundsInParent child.value)) r := by
  induction l generalizing r
  case nil => simpa using h
  case cons child l ih =>
    refine ih ?_
    rcases h with h | ⟨c, hc, h⟩
    · exact .inl (Rect.mem_united (.inl h))
    · cases List.mem_cons.mp hc
      case inl heq => exact .inl (Rect.mem_united (.inr (heq ▸ h)))
      case inr hc => exact .inr ⟨c, hc, h⟩

theorem bounding_boundingRectOf (item : ItemState) (children : List ItemTree) :
    Bounding { item with boundingRect := boundingRectOf (.node item children) } (children.map value) where
  rect _ hp := mem_foldl_united (.inl hp)
  children := List.forall_mem_map.mpr fun child hc _ hp => mem_foldl_united (.inr ⟨child, hc, hp⟩)

-- What the parent of an item looks at.
def seen (item : ItemState) : Rect × Bool × Bool :=
  (boundsInParent item, item.effectiveVisible, item.explicitVisible)

theorem kept_congr {item' : ItemState} {l l' : List ItemState} (h : Kept scene item l)
    (hi : item'.scene = item.scene ∧ item'.isVisible = item.isVisible ∧ item'.rect = item.rect ∧
      item'.boundingRect = item.boundingRect)
    (hl : l.map seen = l'.map seen) : Kept scene item' l' := by
  have ⟨hs, hv, hr, hb⟩ := hi
  have hmem (c) (hc : c ∈ l') : ∃ d ∈ l, boundsInParent d = boundsInParent c ∧
      d.effectiveVisible = c.effectiveVisible ∧ d.explicitVisible = c.explicitVisible := by
    have ⟨d, hd, heq⟩ := List.mem_map.mp (hl ▸ List.mem_map_of_mem hc)
    exact ⟨d, hd, (Prod.mk.inj heq).1, Prod.mk.inj (Prod.mk.inj heq).2⟩
  refine ⟨⟨hs.trans h.1.scene, fun c hc => ?_⟩, ⟨fun pixel hp => ?_, fun c hc pixel hp => ?_⟩⟩
  · have ⟨d, hd, _, heff, hexp⟩ := hmem c hc
    rw [← heff, h.1.visible d hd, computeEffectiveVisibility, computeEffectiveVisibility, hexp, hv]
  · exact hb ▸ h.2.rect pixel (hr ▸ hp)
  · have ⟨d, hd, hbounds, _⟩ := hmem c hc
    exact hb ▸ h.2.children d hd pixel (hbounds ▸ hp)

theorem kept_congr_seen {l l' : List ItemState} (h : Kept scene item l) (hl : l.map seen = l'.map seen) :
    Kept scene item l' :=
  kept_congr h ⟨rfl, rfl, rfl, rfl⟩ hl

-- A changed item whose bounding rectangle has still to be updated.
structure Outdated (scene : Bool) (n n' : ItemTree) : Prop where
  seen     : seen n'.value = seen n.value
  flagged  : Flagged scene n'.value (n'.children.map value)
  children : ∀ child ∈ n'.children, Forall (Kept scene) child

namespace Outdated

variable {n n' : ItemTree} {f : ItemTree → ItemTree} {i : Nat}

theorem updated (h : Outdated scene n n') :
    Forall (Kept scene) (.node { n'.value with boundingRect := boundingRectOf n' } n'.children) := by
  cases n' with | node item children =>
  exact .node ⟨⟨h.flagged.scene, h.flagged.visible⟩, bounding_boundingRectOf item children⟩ h.children

theorem of_forall (h : Forall (Kept scene) n') (hs : KWin.ItemTree.seen n'.value = KWin.ItemTree.seen n.value) :
    Outdated scene n n' :=
  have h := forall_node.mp ((node_eta n').symm ▸ h)
  ⟨hs, h.1.1, h.2⟩

-- The parent of an item that has been updated.
theorem parent (h : Forall (Kept scene) t) (hf : ∀ n, t.children[i]? = some n → Forall (Kept scene) (f n) ∧
    (f n).value.effectiveVisible = n.value.effectiveVisible ∧ (f n).value.explicitVisible = n.value.explicitVisible) :
    Outdated scene t (.node t.value (t.children.modify i f)) := by
  have ⟨hk, hc⟩ := forall_node.mp ((node_eta t).symm ▸ h)
  have hmem (c) (hm : c ∈ t.children.modify i f) : Forall (Kept scene) c ∧ ∃ d ∈ t.children,
      c.value.effectiveVisible = d.value.effectiveVisible ∧ c.value.explicitVisible = d.value.explicitVisible := by
    have ⟨j, hj⟩ := List.mem_iff_getElem?.mp hm
    rw [List.getElem?_modify] at hj
    have ⟨d, hd, hj⟩ := Option.map_eq_some_iff.mp hj
    have hmd := List.mem_of_getElem? hd
    subst hj
    split
    case isTrue hij =>
      subst hij
      exact ⟨(hf d hd).1, d, hmd, (hf d hd).2⟩
    case isFalse => exact ⟨hc d hmd, d, hmd, rfl, rfl⟩
  refine ⟨rfl, ⟨hk.1.scene, List.forall_mem_map.mpr fun c hm => ?_⟩, fun c hm => (hmem c hm).1⟩
  have ⟨_, d, hd, heff, hexp⟩ := hmem c hm
  rw [heff, hk.1.visible _ (List.mem_map_of_mem hd), computeEffectiveVisibility, computeEffectiveVisibility, hexp]
  rfl

end Outdated

theorem kept_updateBoundingRect {f : ItemTree → ItemTree} (ht : Forall (Kept scene) t)
    (hf : ∀ n, t.subtree? p = some n → Outdated scene n (f n)) :
    Forall (Kept scene) (updateBoundingRect p (t.modify f p)) := by
  induction p generalizing f
  case nil => exact (hf t rfl).updated
  case cons i p ih =>
    rw [updateBoundingRect, subtree?_modify_self]
    cases hn : t.subtree? (i :: p)
    case none => rwa [Option.map_none, modify_of_subtree?_eq_none hn]
    case some n =>
      have hn' := hf n hn
      rw [Option.map_some]
      dsimp only
      split
      case isTrue =>
        rw [modifyValue, modify_modify, RoseTree.modify]
        refine ih fun m hm => .parent (ht.subtree hm) fun c hc => ?_
        have heq : n = c := Option.some.inj (hn.symm.trans (by rw [subtree?, hm]; exact hc))
        subst heq
        exact ⟨hn'.updated, (Prod.mk.inj hn'.seen).2 |> Prod.mk.inj⟩
      case isFalse heq =>
        rw [ne_eq, Decidable.not_not] at heq
        refine ht.modify_of_map (k := seen) (fun _ _ _ hl h => kept_congr_seen h hl) (fun n hn => (hf n hn).seen)
          fun m hm _ => ?_
        cases hn.symm.trans hm
        have h := hn'.updated
        rwa [← heq, node_eta] at h

theorem consistent_updateBoundingRect {f : ItemTree → ItemTree} (ht : Consistent scene t)
    (hf : ∀ n, t.subtree? p = some n → Outdated scene n (f n)) :
    Consistent scene (updateBoundingRect p (t.modify f p)) where
  kept := kept_updateBoundingRect ht.kept hf
  root := by
    have hv := value_updateBoundingRect p (t.modify f p)
    have hm : (t.modify f p).value.effectiveVisible = (t.modify f p).value.explicitVisible := by
      cases p
      case nil =>
        have ⟨heff, hexp⟩ := Prod.mk.inj (Prod.mk.inj (hf t rfl).seen).2
        exact heff.trans (ht.root.trans hexp.symm)
      case cons i p =>
        rw [value_modify_cons]
        exact ht.root
    exact (congrArg ItemState.effectiveVisible hv).trans (hm.trans (congrArg ItemState.explicitVisible hv).symm)

theorem origin_modify (f : ItemTree → ItemTree) (p : List Nat) (t : ItemTree) : origin (t.modify f p) p = origin t p := by
  induction p generalizing f
  case nil => rfl
  case cons i p ih =>
    rw [RoseTree.modify, origin, ih, origin, value?, subtree?_modify_self, value?]
    cases t.subtree? p <;> rfl

end KWin.ItemTree
