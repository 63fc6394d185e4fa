import PlasmaModel.Lib.Partition
import PlasmaModel.Scene.Theorems.Painted

namespace KWin.ItemTree

open RoseTree ItemState

variable {item : ItemState} {children : List ItemTree} {t n : ItemTree} {p : List Nat} {pixel : Point} {scene : Bool}
  {view : RenderView} {visible : Bool} {origin : Point}

theorem updateEffectiveVisibility_of_eq (h : item.effectiveVisible = computeEffectiveVisibility item visible) :
    updateEffectiveVisibility view visible origin (.node item children) = (.node item children, []) := by
  rw [updateEffectiveVisibility, if_pos h]

def effective (item : ItemState) (visible : Bool) : ItemState :=
  { item with effectiveVisible := computeEffectiveVisibility item visible }

def effectiveRepaints (view : RenderView) (origin : Point) (item : ItemState) : List Repaint :=
  if !item.effectiveVisible then
    item.scheduleSceneRepaintInternal view origin item.boundingRect
  else
    item.scheduleRepaintInternal view origin item.boundingRect

theorem updateEffectiveVisibility_of_ne (h : item.effectiveVisible ≠ computeEffectiveVisibility item visible) :
    updateEffectiveVisibility view visible origin (.node item children) =
      (.node (effective item visible) (children.map fun child => (updateEffectiveVisibility view
          (effective item visible).isVisible (origin + item.position) child).1),
        effectiveRepaints view origin (effective item visible) ++ children.flatMap fun child =>
          (updateEffectiveVisibility view (effective item visible).isVisible (origin + item.position) child).2) := by
  rw [updateEffectiveVisibility, if_neg h]
  have hmap (f : ItemTree → ItemTree × List Repaint) :
      (children.attach.map fun child => f child.1) = children.map f := List.attach_map_val
  simp only [hmap, List.map_map, List.flatMap_map]
  rfl

theorem value_updateEffectiveVisibility (view : RenderView) (visible : Bool) (origin : Point) (n : ItemTree) :
    (updateEffectiveVisibility view visible origin n).1.value = effective n.value visible := by
  cases n with | node item children =>
  by_cases h : item.effectiveVisible = computeEffectiveVisibility item visible
  case pos =>
    rw [updateEffectiveVisibility_of_eq h, value_node, effective, ← h]
  case neg => rw [updateEffectiveVisibility_of_ne h, value_node, value_node]

theorem kept_updateEffectiveVisibility (view : RenderView) (visible : Bool) (origin : Point) (h : Forall (Kept scene) n) :
    Forall (Kept scene) (updateEffectiveVisibility view visible origin n).1 := by
  induction n using RoseTree.induction generalizing visible origin
  case node item children ih =>
    by_cases he : item.effectiveVisible = computeEffectiveVisibility item visible
    case pos => rwa [updateEffectiveVisibility_of_eq he]
    case neg =>
      have ⟨hk, hc⟩ := forall_node.mp h
      rw [updateEffectiveVisibility_of_ne he]
      refine forall_node.mpr ⟨⟨⟨hk.1.scene, ?_⟩, ⟨hk.2.rect, ?_⟩⟩, List.forall_mem_map.mpr fun c hm => ih c hm _ _ (hc c hm)⟩
      · refine List.forall_mem_map.mpr (List.forall_mem_map.mpr fun c hm => ?_)
        rw [value_updateEffectiveVisibility]
        rfl
      · refine List.forall_mem_map.mpr (List.forall_mem_map.mpr fun c hm => ?_)
        rw [value_updateEffectiveVisibility]
        exact hk.2.children c.value (List.mem_map_of_mem hm)

theorem bounding_of_kept (h : Forall (Kept scene) n) : Forall Bounding n :=
  h.imp fun _ _ _ => And.right

theorem scene_of_mem_preorder (h : Forall (Kept scene) n) : ∀ item ∈ n.preorder, item.scene = scene := by
  induction n using RoseTree.induction
  case node item children ih =>
    have ⟨hk, hc⟩ := forall_node.mp h
    rw [preorder_node, List.forall_mem_cons]
    refine ⟨hk.1.scene, fun item hm => ?_⟩
    have ⟨c, hm, hi⟩ := List.mem_flatMap.mp hm
    exact ih c hm (hc c hm) item hi

theorem scene_of_kept (h : Forall (Kept scene) n) : n.value.scene = scene :=
  scene_of_mem_preorder h n.value n.value_mem_preorder

-- Nothing is painted of an item where its bounding rectangle has not been recorded.

theorem paintAt_of_notMem (h : Forall (Kept scene) n) (hp : pixel - n.value.position ∉ n.value.boundingRect) :
    paintAt pixel n = [] :=
  paintAt_of_notMem_boundingRect (bounding_of_kept h) fun hm => hp (Rect.mem_translated.mp hm)

theorem paintAt_of_unrecorded (h : Forall (Kept true) n) (hp : pixel ∈ view.deviceRect)
    (hu : Unrecorded pixel (n.value.scheduleRepaint view origin n.value.boundingRect)) :
    paintAt (view.scenePoint pixel - origin) n = [] := by
  cases hv : n.value.isVisible
  case false =>
    cases n
    exact paintAt_of_hidden hv
  case true => exact paintAt_of_notMem h ((unrecorded_scheduleRepaint (scene_of_kept h) hv hp).mp hu)

theorem paintAt_of_unrecorded_scene (h : Forall (Kept true) n) (hp : pixel ∈ view.deviceRect)
    (hu : Unrecorded pixel (n.value.scheduleSceneRepaint view origin n.value.boundingRect)) :
    paintAt (view.scenePoint pixel - origin) n = [] := by
  cases hv : n.value.isVisible
  case false =>
    cases n
    exact paintAt_of_hidden hv
  case true => exact paintAt_of_notMem h ((unrecorded_scheduleSceneRepaint (scene_of_kept h) hv hp).mp hu)

theorem paintAt_updateEffectiveVisibility (h : Forall (Kept true) n) (hp : pixel ∈ view.deviceRect)
    (hu : Unrecorded pixel (updateEffectiveVisibility view visible origin n).2) :
    paintAt (view.scenePoint pixel - origin) (updateEffectiveVisibility view visible origin n).1 =
      paintAt (view.scenePoint pixel - origin) n := by
  have hk := kept_updateEffectiveVisibility view visible origin h
  have hv := value_updateEffectiveVisibility view visible origin n
  cases n with | node item children =>
  by_cases he : item.effectiveVisible = computeEffectiveVisibility item visible
  case pos => rw [updateEffectiveVisibility_of_eq he]
  case neg =>
    have hs : (effective item visible).scene := scene_of_kept h
    rw [updateEffectiveVisibility_of_ne he, unrecorded_append, effectiveRepaints] at hu
    have hp : view.scenePoint pixel - origin - item.position ∉ item.boundingRect := by
      have hu := hu.1
      split at hu
      · exact (unrecorded_scheduleSceneRepaintInternal hs hp).mp hu
      · exact (unrecorded_scheduleRepaintInternal hs hp).mp hu
    rw [paintAt_of_notMem h hp]
    refine paintAt_of_notMem hk ?_
    rw [hv]
    exact hp

-- Items that enter or leave the scene.

theorem setScene_of_eq : setScene item.scene (.node item children) = (.node item children, []) := by
  rw [setScene, if_pos rfl]

theorem setScene_of_ne (h : item.scene ≠ scene) : (setScene scene (.node item children)).1 =
    .node { item with scene } (children.map fun child => (setScene scene child).1) := by
  rw [setScene, if_neg h]
  have hmap (f : ItemTree → ItemTree × List Nat) :
      (children.attach.map fun child => f child.1) = children.map f := List.attach_map_val
  simp only [hmap, List.map_map]
  rfl

theorem value_setScene (n : ItemTree) : (setScene scene n).1.value = { n.value with scene } := by
  cases n with | node item children =>
  by_cases h : item.scene = scene
  case pos =>
    subst h
    rw [setScene_of_eq]
    rfl
  case neg => rw [setScene_of_ne h, value_node, value_node]

theorem kept_setScene {scene' : Bool} (h : Forall (Kept scene) n) : Forall (Kept scene') (setScene scene' n).1 := by
  induction n using RoseTree.induction
  case node item children ih =>
    have ⟨hk, hc⟩ := forall_node.mp h
    by_cases hs : item.scene = scene'
    case pos =>
      have heq : scene = scene' := hk.1.scene.symm.trans hs
      subst hs
      rw [setScene_of_eq]
      exact heq ▸ h
    case neg =>
      rw [setScene_of_ne hs]
      refine forall_node.mpr ⟨⟨⟨rfl, ?_⟩, ⟨hk.2.rect, ?_⟩⟩, List.forall_mem_map.mpr fun c hm => ih c hm (hc c hm)⟩
      · refine List.forall_mem_map.mpr (List.forall_mem_map.mpr fun c hm => ?_)
        rw [value_setScene]
        exact hk.1.visible c.value (List.mem_map_of_mem hm)
      · refine List.forall_mem_map.mpr (List.forall_mem_map.mpr fun c hm => ?_)
        rw [value_setScene]
        exact hk.2.children c.value (List.mem_map_of_mem hm)

end KWin.ItemTree

namespace KWin.ItemTree

open RoseTree ItemState

variable {t : ItemTree} {p : List Nat} {pixel : Point} {scene : Bool} {view : RenderView} {repaints : List Repaint}

-- What the repaints leave out looks as before.
def Covered (view : RenderView) (t : ItemTree) (changed : ItemTree × List Repaint) : Prop :=
  ∀ pixel ∈ view.deviceRect, Unrecorded pixel changed.2 →
    paintAt (view.scenePoint pixel) changed.1 = paintAt (view.scenePoint pixel) t

theorem covered_refl (view : RenderView) (t : ItemTree) : Covered view t (t, repaints) :=
  fun _ _ _ => rfl

-- A change that is right for the view and for the items of the tree.
structure Keeps (view : RenderView) (scene : Bool) (t : ItemTree) (changed : ItemTree × List Repaint) : Prop where
  covered    : scene → Covered view t changed
  consistent : Consistent scene changed.1

theorem keeps_refl (h : Consistent scene t) : Keeps view scene t (t, []) :=
  ⟨fun _ => covered_refl view t, h⟩

variable {item : ItemState}

-- Changes of what the other items do not look at.
theorem consistent_modifyValue {f : ItemState → ItemState} (h : Consistent scene t)
    (hf : ∀ item, seen (f item) = seen item ∧ (f item).scene = item.scene ∧ (f item).rect = item.rect ∧
      (f item).boundingRect = item.boundingRect) : Consistent scene (t.modifyValue f p) where
  kept := by
    refine h.kept.modify_of_map (k := seen) (fun _ _ _ hl hk => kept_congr_seen hk hl) (fun n _ => (hf n.value).1)
      fun n _ hk => ?_
    have ⟨hseen, hs, hr, hb⟩ := hf n.value
    have ⟨hk, hc⟩ := forall_node.mp ((node_eta n).symm ▸ hk)
    exact .node (kept_congr hk ⟨hs, (Prod.mk.inj (Prod.mk.inj hseen).2).1, hr, hb⟩ rfl) hc
  root := by
    cases p
    case nil =>
      have ⟨heff, hexp⟩ := Prod.mk.inj (Prod.mk.inj (hf t.value).1).2
      exact heff.trans (h.root.trans hexp.symm)
    case cons i p =>
      rw [modifyValue, value_modify_cons]
      exact h.root

theorem paintAt_modify_of_nil {f : ItemTree → ItemTree} (h : ∀ n, t.subtree? p = some n →
    paintAt (pixel - t.origin p) n = [] ∧ paintAt (pixel - t.origin p) (f n) = []) :
    paintAt pixel (t.modify f p) = paintAt pixel t :=
  paintAt_modify fun n hn => ⟨(h n hn).2.trans (h n hn).1.symm, .inr (h n hn).1⟩

-- An item whose repaints cover all that is painted of it before and after.
theorem keeps_modifyValue {f : ItemState → ItemState} (h : Consistent scene t) (hi : t.value? p = some item)
    (hf : ∀ item, seen (f item) = seen item ∧ (f item).scene = item.scene ∧ (f item).rect = item.rect ∧
      (f item).boundingRect = item.boundingRect)
    (hu : ∀ n : ItemTree, Forall (Kept true) n → n.value = item ∨ n.value = f item → ∀ pixel ∈ view.deviceRect,
      Unrecorded pixel repaints → paintAt (view.scenePoint pixel - t.origin p) n = []) :
    Keeps view scene t (t.modifyValue f p, repaints) := by
  have hc := consistent_modifyValue (p := p) h hf
  refine ⟨fun hs pixel hp hr => paintAt_modify_of_nil fun n hn => ?_, hc⟩
  subst hs
  have hv : n.value = item := Option.some.inj ((congrArg (Option.map value) hn).symm.trans hi)
  have hnew := hc.kept.subtree (subtree?_modify_self.trans (congrArg (Option.map _) hn))
  exact ⟨hu n (h.kept.subtree hn) (.inl hv) pixel hp hr, hu _ hnew (.inr (congrArg f hv)) pixel hp hr⟩

theorem keeps_setOpacity (h : Consistent scene t) (opacity : ℚ) (p : List Nat) :
    Keeps view scene t (setOpacity view opacity p t) := by
  rw [setOpacity]
  split
  case h_1 => exact keeps_refl h
  case h_2 item hi =>
    split
    case isFalse => exact keeps_refl h
    case isTrue =>
      refine keeps_modifyValue h hi (fun _ => ⟨rfl, rfl, rfl, rfl⟩) fun n hk hv pixel hp hu => ?_
      refine paintAt_of_unrecorded hk hp ?_
      cases hv
      case inl hv => exact hv ▸ hu
      case inr hv => exact hv ▸ hu

theorem keeps_setZ (h : Consistent scene t) (z : Int) (p : List Nat) : Keeps view scene t (setZ view z p t) := by
  rw [setZ]
  split
  case h_1 => exact keeps_refl h
  case h_2 item hi =>
    split
    case isTrue => exact keeps_refl h
    case isFalse =>
      refine keeps_modifyValue h hi (fun _ => ⟨rfl, rfl, rfl, rfl⟩) fun n hk hv pixel hp hu => ?_
      refine paintAt_of_unrecorded_scene hk hp ?_
      cases hv
      case inl hv => exact hv ▸ hu
      case inr hv => exact hv ▸ hu

theorem paintAt_size {children : List ItemTree} {size : Size} (h : item.isVisible → pixel - item.position ∉ item.rect ∧
    pixel - item.position ∉ { item with size }.rect) :
    paintAt pixel (.node { item with size } children) = paintAt pixel (.node item children) := by
  cases hv : item.isVisible
  case false =>
    have hv' : ({ item with size } : ItemState).isVisible = false := hv
    rw [paintAt_of_hidden hv', paintAt_of_hidden hv]
  case true =>
    have hself (item' : ItemState) (hm : pixel - item.position ∉ item'.rect) :
        [(⟨item.id, item'.rect, []⟩ : PaintedItem)].filter (·.rect.containsPoint (pixel - item.position)) = [] :=
      List.filter_eq_nil_iff.mpr (List.forall_mem_singleton.mpr hm)
    rw [paintAt_node, paintAt_node]
    dsimp only
    rw [hself _ (h hv).1, hself _ (h hv).2]
    rfl

theorem outdated_modifyValue {n : ItemTree} {f : ItemState → ItemState} (h : Forall (Kept scene) n)
    (hf : seen (f n.value) = seen n.value ∧ (f n.value).scene = n.value.scene) :
    Outdated scene n (.node (f n.value) n.children) := by
  have ⟨hk, hc⟩ := forall_node.mp ((node_eta n).symm ▸ h)
  refine ⟨hf.1, ⟨hf.2.trans hk.1.scene, fun c hm => ?_⟩, hc⟩
  have heff : (f n.value).isVisible = n.value.isVisible := (Prod.mk.inj (Prod.mk.inj hf.1).2).1
  exact heff ▸ hk.1.visible c hm

theorem keeps_setSize (h : Consistent scene t) (size : Size) (p : List Nat) :
    Keeps view scene t (setSize view size p t) := by
  rw [setSize]
  split
  case h_1 => exact keeps_refl h
  case h_2 item hi =>
    split
    case isFalse => exact keeps_refl h
    case isTrue =>
      refine ⟨fun hs pixel hp hu => ?_, consistent_updateBoundingRect h fun n hn =>
        outdated_modifyValue (f := fun item => { item with size }) (h.kept.subtree hn) ⟨rfl, rfl⟩⟩
      refine (paintAt_congr_forget (map_forget_updateBoundingRect p _)).trans (paintAt_modify fun n hn => ⟨?_, .inl rfl⟩)
      subst hs
      cases n with | node data children =>
      have hv : data = item := Option.some.inj ((congrArg (Option.map value) hn).symm.trans hi)
      subst hv
      have hscene : data.scene := scene_of_kept (h.kept.subtree hn)
      have hscene' : ({ data with size } : ItemState).scene := hscene
      have ⟨hbefore, hafter⟩ := unrecorded_append.mp hu
      exact paintAt_size fun hvis => ⟨(unrecorded_scheduleRepaint hscene hvis hp).mp hbefore,
        (unrecorded_scheduleRepaint hscene' hvis hp).mp hafter⟩

theorem consistent_position (h : Consistent scene t) (point : Point) (p : List Nat) :
    Consistent scene (updateParentBoundingRect (t.modifyValue (fun item => { item with position := point }) p) p) := by
  have hmoved {n : ItemTree} (h : Forall (Kept scene) n) :
      Forall (Kept scene) (.node { n.value with position := point } n.children) := by
    have ⟨hk, hc⟩ := forall_node.mp ((node_eta n).symm ▸ h)
    exact .node (kept_congr hk ⟨rfl, rfl, rfl, rfl⟩ rfl) hc
  cases p
  case nil => exact ⟨hmoved h.kept, h.root⟩
  case cons i p =>
    refine consistent_updateBoundingRect h fun n hn => .parent (h.kept.subtree hn) fun c hc => ⟨hmoved ?_, rfl, rfl⟩
    exact h.kept.subtree (p := i :: p) (by rw [subtree?, hn]; exact hc)

theorem keeps_setPosition (h : Consistent scene t) (point : Point) (p : List Nat) :
    Keeps view scene t (setPosition view point p t) := by
  rw [setPosition]
  split
  case h_1 => exact keeps_refl h
  case h_2 item hi =>
    split
    case isFalse => exact keeps_refl h
    case isTrue =>
      have hc := consistent_position h point p
      refine ⟨fun hs pixel hp hu => ?_, hc⟩
      subst hs
      have hforget := map_forget_updateParentBoundingRect (t.modifyValue (fun item => { item with position := point }) p) p
      have ⟨hbefore, hafter⟩ := unrecorded_append.mp hu
      refine (paintAt_congr_forget hforget).trans (paintAt_modify_of_nil fun n hn => ?_)
      rw [moveRepaintAt, hn] at hbefore
      rw [moveRepaintAt_congr_forget hforget, moveRepaintAt, modifyValue, subtree?_modify_self, hn, origin_modify] at hafter
      have hk := scene_of_mem_preorder (h.kept.subtree hn)
      refine ⟨paintAt_of_unrecorded_move hk hp hbefore, paintAt_of_unrecorded_move ?_ hp hafter⟩
      cases n with | node data children =>
      rw [preorder_node, List.forall_mem_cons] at hk ⊢
      exact hk

end KWin.ItemTree

namespace KWin.ItemTree

open RoseTree ItemState

variable {t n : ItemTree} {p : List Nat} {pixel : Point} {scene : Bool} {view : RenderView} {item : ItemState}
  {G : List ItemTree → List ItemTree}

-- An item loses children or has them in another order.
theorem kept_subset {l l' : List ItemTree} (h : Forall (Kept scene) (.node item l)) (hl : l' ⊆ l) :
    Forall (Kept scene) (.node item l') := by
  have ⟨hk, hc⟩ := forall_node.mp h
  have hmap := List.map_subset value hl
  exact .node ⟨⟨hk.1.scene, fun c hm => hk.1.visible c (hmap hm)⟩, hk.2.rect, fun c hm => hk.2.children c (hmap hm)⟩
    fun c hm => hc c (hl hm)

theorem moveIdx_subset {α : Type} (i j : Nat) (l : List α) : ListMove.moveIdx i j l ⊆ l := by
  rw [ListMove.moveIdx]
  split
  case h_1 => exact List.Subset.refl l
  case h_2 a ha =>
    intro b hb
    rcases List.eq_or_mem_of_mem_insertIdx hb with rfl | hb
    · exact List.mem_of_getElem? ha
    · exact List.mem_of_mem_eraseIdx hb

theorem child_of_subtree? {i : Nat} (hn : t.subtree? p = some n) {c : ItemTree} (hc : n.children[i]? = some c) :
    t.subtree? (i :: p) = some c := by
  rw [subtree?, hn]
  exact hc

theorem origin_cons {i : Nat} (hn : t.subtree? p = some n) : origin t (i :: p) = origin t p + n.value.position := by
  rw [origin, value?, hn]
  rfl

-- What is painted of a child at a pixel, in the coordinates of its parent.
theorem paintAt_setChildItems (h : ∀ n, t.subtree? p = some n → n.value.isVisible →
      Layers.heights z (paintAt (pixel - t.origin p - n.value.position)) (G n.children) =
        Layers.heights z (paintAt (pixel - t.origin p - n.value.position)) n.children) :
    paintAt pixel (setChildItems G p t) = paintAt pixel t := by
  refine paintAt_modify fun n hn => ⟨?_, .inl rfl⟩
  cases n with | node item children =>
  cases hv : item.isVisible
  case false => exact (paintAt_of_hidden hv).trans (paintAt_of_hidden hv).symm
  case true => exact paintAt_congr (h _ hn hv)

theorem consistent_setChildItems (h : Consistent scene t) (hG : ∀ l, G l ⊆ l) :
    Consistent scene (setChildItems G p t) where
  kept := h.kept.modify_of_value (fun _ _ => rfl) fun n _ hn => kept_subset ((node_eta n).symm ▸ hn) (hG n.children)
  root := by
    rw [setChildItems, value_modify fun n => value_node _ _]
    exact h.root

theorem keeps_restack (h : Consistent scene t) (selfIndex siblingIndex target : Nat) (p : List Nat) :
    Keeps view scene t (restack view selfIndex siblingIndex target p t) := by
  rw [restack]
  split
  case h_2 => exact keeps_refl h
  case h_1 item sibling hi _ =>
    refine ⟨fun hs pixel hp hu => paintAt_setChildItems fun n hn _ => Layers.heights_moveIdx fun c hc => ?_,
      consistent_setChildItems h (moveIdx_subset _ _)⟩
    subst hs
    have hc := child_of_subtree? hn hc
    have hv : c.value = item := Option.some.inj ((congrArg (Option.map value) hc).symm.trans hi)
    subst hv
    have hnil := paintAt_of_unrecorded_scene (h.kept.subtree hc) hp (unrecorded_append.mp hu).1
    rwa [origin_cons hn, Point.sub_add] at hnil

theorem keeps_stackBefore (h : Consistent scene t) (siblingIndex : Nat) (p : List Nat) :
    Keeps view scene t (stackBefore view siblingIndex p t) := by
  rw [stackBefore.eq_def]
  split
  case h_1 => exact keeps_refl h
  case h_2 =>
    split
    case isTrue => exact keeps_refl h
    case isFalse => exact keeps_restack h _ _ _ _

theorem keeps_stackAfter (h : Consistent scene t) (siblingIndex : Nat) (p : List Nat) :
    Keeps view scene t (stackAfter view siblingIndex p t) := by
  rw [stackAfter.eq_def]
  split
  case h_1 => exact keeps_refl h
  case h_2 =>
    split
    case isTrue => exact keeps_refl h
    case isFalse => exact keeps_restack h _ _ _ _

end KWin.ItemTree

namespace KWin.ItemTree

open RoseTree ItemState

variable {t u n child : ItemTree} {p : List Nat} {pixel : Point} {scene : Bool} {view : RenderView} {item : ItemState}
  {G : List ItemTree → List ItemTree}

-- The effective visibility of an item.

theorem kept_modify_child {f : ItemTree → ItemTree} {i : Nat} (h : Forall (Kept scene) n)
    (hf : ∀ c, n.children[i]? = some c → Forall (Kept scene) (f c) ∧ boundsInParent (f c).value = boundsInParent c.value ∧
      (f c).value.effectiveVisible = computeEffectiveVisibility (f c).value n.value.isVisible) :
    Forall (Kept scene) (.node n.value (n.children.modify i f)) := by
  have ⟨hk, hc⟩ := forall_node.mp ((node_eta n).symm ▸ h)
  have hmem (c) (hm : c ∈ n.children.modify i f) : Forall (Kept scene) c ∧
      (∃ d ∈ n.children, boundsInParent c.value = boundsInParent d.value) ∧
        c.value.effectiveVisible = computeEffectiveVisibility c.value n.value.isVisible := by
    have ⟨j, hj⟩ := List.mem_iff_getElem?.mp hm
    rw [List.getElem?_modify] at hj
    have ⟨d, hd, hj⟩ := Option.map_eq_some_iff.mp hj
    have hmd := List.mem_of_getElem? hd
    subst hj
    split
    case isTrue hij =>
      subst hij
      have ⟨hf, hb, hv⟩ := hf d hd
      exact ⟨hf, ⟨d, hmd, hb⟩, hv⟩
    case isFalse => exact ⟨hc d hmd, ⟨d, hmd, rfl⟩, hk.1.visible _ (List.mem_map_of_mem hmd)⟩
  refine .node ⟨⟨hk.1.scene, List.forall_mem_map.mpr fun c hm => (hmem c hm).2.2⟩, hk.2.rect,
    List.forall_mem_map.mpr fun c hm => ?_⟩ fun c hm => (hmem c hm).1
  have ⟨d, hd, heq⟩ := (hmem c hm).2.1
  exact heq ▸ hk.2.children _ (List.mem_map_of_mem hd)

theorem kept_explicitVisible (h : Forall (Kept scene) n) (visible : Bool) :
    Forall (Kept scene) (.node { n.value with explicitVisible := visible } n.children) := by
  have ⟨hk, hc⟩ := forall_node.mp ((node_eta n).symm ▸ h)
  exact .node (kept_congr hk ⟨rfl, rfl, rfl, rfl⟩ rfl) hc

theorem parentVisible_cons {i : Nat} (hn : t.subtree? p = some n) : parentVisible t (i :: p) = n.value.isVisible := by
  rw [parentVisible, value?, hn]
  rfl

theorem parentVisible_modify {f : ItemTree → ItemTree} (p : List Nat) (t : ItemTree) :
    parentVisible (t.modify f p) p = parentVisible t p := by
  cases p
  case nil => rfl
  case cons i p =>
    rw [parentVisible, RoseTree.modify, value?, subtree?_modify_self, parentVisible, value?]
    cases t.subtree? p <;> rfl

-- An item that has been told whether it is visible.
theorem consistent_modify {f : ItemTree → ItemTree} (h : Consistent scene t) (hf : ∀ n, t.subtree? p = some n →
    Forall (Kept scene) (f n) ∧ boundsInParent (f n).value = boundsInParent n.value ∧
      (f n).value.effectiveVisible = computeEffectiveVisibility (f n).value (parentVisible t p)) :
    Consistent scene (t.modify f p) := by
  cases p
  case nil =>
    obtain ⟨hk, _, hv⟩ := hf t rfl
    exact ⟨hk, hv.trans (Bool.and_true _)⟩
  case cons i p =>
    have hroot := value_modify_cons (f := f) i p t
    rw [RoseTree.modify] at hroot ⊢
    refine ⟨h.kept.modify_of_value (fun n _ => value_node _ _) fun n hn hk => ?_, hroot ▸ h.root⟩
    refine kept_modify_child hk fun c hc => ?_
    obtain ⟨hk, hb, hv⟩ := hf c (child_of_subtree? hn hc)
    exact ⟨hk, hb, parentVisible_cons hn ▸ hv⟩

theorem keeps_setVisible (h : Consistent scene t) (visible : Bool) (p : List Nat) :
    Keeps view scene t (setVisible view visible p t) := by
  rw [setVisible]
  split
  case h_1 => exact keeps_refl h
  case h_2 item hi =>
    split
    case isFalse => exact keeps_refl h
    case isTrue =>
      rw [updateEffectiveVisibilityAt, modifyValue, modify_modify, subtree?_modify_self, parentVisible_modify,
        origin_modify]
      refine ⟨fun hs pixel hp hu => paintAt_modify fun n hn => ?_, consistent_modify h fun n hn => ?_⟩
      · subst hs
        rw [hn] at hu
        have hpaint := paintAt_updateEffectiveVisibility (kept_explicitVisible (h.kept.subtree hn) visible) hp hu
        refine ⟨hpaint.trans ?_, .inl ?_⟩
        · cases n
          rw [paintAt_node, paintAt_node]
          rfl
        · rw [Function.comp_apply, z, value_updateEffectiveVisibility]
          rfl
      · rw [Function.comp_apply, value_updateEffectiveVisibility]
        exact ⟨kept_updateEffectiveVisibility _ _ _ (kept_explicitVisible (h.kept.subtree hn) visible), rfl, rfl⟩

-- A child leaves its parent.

theorem mem_eraseIdx_subset {α : Type} (i : Nat) (l : List α) : l.eraseIdx i ⊆ l :=
  (List.eraseIdx_sublist l i).subset

theorem keeps_removeChild {i : Nat} (h : Consistent scene t) (hc : t.subtree? (i :: p) = some child) :
    Keeps view scene t (removeChild view child i p t) := by
  refine ⟨fun hs pixel hp hu => ?_, consistent_updateBoundingRect h fun n hn => ?_⟩
  · refine (paintAt_congr_forget (map_forget_updateBoundingRect p _)).trans
      (paintAt_setChildItems fun n hn hv => Layers.heights_eraseIdx fun c hm => ?_)
    subst hs
    cases hc.symm.trans (child_of_subtree? hn hm)
    rw [removeChild, value?, hn] at hu
    have hscene := scene_of_kept (h.kept.subtree hn)
    have hnot := (unrecorded_scheduleRepaint hscene hv hp).mp hu
    exact paintAt_of_notMem_boundingRect (bounding_of_kept (h.kept.subtree hc)) hnot
  · have hn := kept_subset ((node_eta n).symm ▸ h.kept.subtree hn) (mem_eraseIdx_subset i n.children)
    exact .of_forall hn rfl

-- A child joins a parent.

theorem map_modify_eq {α β : Type} {f : α → β} {g : α → α} (h : ∀ a, f (g a) = f a) (l : List α) (i : Nat) :
    (l.modify i g).map f = l.map f := by
  refine List.ext_getElem? fun j => ?_
  rw [List.getElem?_map, List.getElem?_modify, List.getElem?_map]
  cases l[j]?
  case none => rfl
  case some a => by_cases hij : i = j <;> simp [hij, h]

theorem boundingRectOf_congr {l l' : List ItemTree} (h : l.map (boundsInParent ·.value) = l'.map (boundsInParent ·.value)) :
    boundingRectOf (.node item l) = boundingRectOf (.node item l') := by
  have hfold (l : List ItemTree) : boundingRectOf (.node item l) =
      (l.map (boundsInParent ·.value)).foldl Rect.united item.rect := List.foldl_map.symm
  rw [hfold, h, ← hfold]

-- Changes below an item do not matter to its bounding rectangle if they leave the ones of its children as they are.
theorem updateBoundingRect_setChildItems
    (hG : ∀ l, (G l).map (boundsInParent ·.value) = l.map (boundsInParent ·.value)) (p : List Nat) (t : ItemTree) :
    updateBoundingRect p (setChildItems G p t) = setChildItems G p (updateBoundingRect p t) := by
  have hbounds (n : ItemTree) : boundingRectOf (.node n.value (G n.children)) = boundingRectOf n := by
    cases n
    exact boundingRectOf_congr (hG _)
  induction p generalizing t G
  case nil =>
    have h := hbounds t
    rw [updateBoundingRect, updateBoundingRect]
    exact congrArg (fun r => RoseTree.node { t.value with boundingRect := r } (G t.children)) h
  case cons i p ih =>
    have hsub : (setChildItems G (i :: p) t).subtree? (i :: p) =
        (t.subtree? (i :: p)).map fun n => .node n.value (G n.children) := subtree?_modify_self
    rw [updateBoundingRect, updateBoundingRect, hsub]
    cases hn : t.subtree? (i :: p)
    case none => rfl
    case some n =>
      simp only [Option.map_some, value_node, hbounds]
      split
      case isFalse => rfl
      case isTrue =>
        have hcomm : (setChildItems G (i :: p) t).modifyValue (fun data => { data with boundingRect := boundingRectOf n })
            (i :: p) = setChildItems (·.modify i fun n => .node n.value (G n.children)) p
              (t.modifyValue (fun data => { data with boundingRect := boundingRectOf n }) (i :: p)) := by
          rw [modifyValue, setChildItems, modify_modify, modifyValue]
          refine Eq.trans ?_ (modify_modify (i :: p) t).symm
          rfl
        rw [hcomm]
        have hmodify (l : List ItemTree) : (l.modify i fun n => .node n.value (G n.children)).map (boundsInParent ·.value) =
            l.map (boundsInParent ·.value) :=
          map_modify_eq (f := (boundsInParent ·.value)) (g := fun n => .node n.value (G n.children)) (fun _ => rfl) l i
        refine (ih hmodify _ fun m => ?_).trans rfl
        cases m
        exact boundingRectOf_congr (hmodify _)

-- A child that is added and told whether it is visible.
def addShown (view : RenderView) (child : ItemTree) (k : Nat) (p : List Nat) (t : ItemTree) : ItemTree × List Repaint :=
  let added := addChild view child p t
  let shown := updateEffectiveVisibilityAt view (k :: p) added.1
  (shown.1, added.2 ++ shown.2)

theorem parentVisible_congr_forget (h : t.map forget = u.map forget) (p : List Nat) :
    parentVisible t p = parentVisible u p := by
  have hvisible (t : ItemTree) : parentVisible (t.map forget) p = parentVisible t p := by
    cases p
    case nil => rfl
    case cons i p =>
      rw [parentVisible, parentVisible, value?_map]
      cases t.value? p <;> rfl
  rw [← hvisible, h, hvisible]

theorem parentVisible_addChild (hn : t.subtree? p = some n) (k : Nat) :
    parentVisible (addChild view child p t).1 (k :: p) = n.value.isVisible := by
  have hv : (setChildItems (· ++ [child]) p t).subtree? p = some (.node n.value (n.children ++ [child])) :=
    subtree?_modify_self.trans (congrArg (Option.map _) hn)
  rw [addChild, parentVisible_congr_forget (map_forget_updateBoundingRect p _), parentVisible_cons hv, value_node]

theorem addChild_snd (hn : t.subtree? p = some n) :
    (addChild view child p t).2 = n.value.scheduleRepaint view (origin t p) (boundsInParent child.value) := by
  have hforget := map_forget_updateBoundingRect p (setChildItems (· ++ [child]) p t)
  have horigin : origin (updateBoundingRect p (setChildItems (· ++ [child]) p t)) p = origin t p := by
    rw [← origin_map_forget, hforget, origin_map_forget]
    exact origin_modify _ p t
  have hv : ((updateBoundingRect p (setChildItems (· ++ [child]) p t)).value? p).map forget = some (forget n.value) := by
    have hs : (setChildItems (· ++ [child]) p t).subtree? p = some (.node n.value (n.children ++ [child])) :=
      subtree?_modify_self.trans (congrArg (Option.map _) hn)
    rw [← value?_map, hforget, value?_map, value?, hs]
    rfl
  obtain ⟨item, hitem, heq⟩ := Option.map_eq_some_iff.mp hv
  have hrepaint (item : ItemState) : item.scheduleRepaint view (origin t p) (boundsInParent child.value) =
      (forget item).scheduleRepaint view (origin t p) (boundsInParent child.value) := rfl
  rw [addChild, hitem, horigin, Option.elim_some, hrepaint, heq, ← hrepaint]

-- The same tree, with the child told before it is added.
theorem addShown_fst (hn : t.subtree? p = some n) : (addShown view child n.children.length p t).1 =
    updateBoundingRect p (setChildItems (· ++ [(updateEffectiveVisibility view n.value.isVisible
      (origin (addChild view child p t).1 (n.children.length :: p)) child).1]) p t) := by
  have hbounds (view : RenderView) (visible : Bool) (origin : Point) (c : ItemTree) :
      boundsInParent (updateEffectiveVisibility view visible origin c).1.value = boundsInParent c.value := by
    rw [value_updateEffectiveVisibility]
    rfl
  rw [addShown, updateEffectiveVisibilityAt, parentVisible_addChild hn]
  refine (updateBoundingRect_setChildItems (map_modify_eq (hbounds view _ _) · n.children.length) p _).symm.trans
    (congrArg (updateBoundingRect p) ?_)
  rw [setChildItems, setChildItems, modify_modify, setChildItems]
  refine modify_congr fun m hm => ?_
  cases hn.symm.trans hm
  exact congrArg (RoseTree.node n.value) (List.modify_length_append _)

theorem keeps_addShown (h : Consistent scene t) (hc : Forall (Kept scene) child) (hn : t.subtree? p = some n) :
    Keeps view scene t (addShown view child n.children.length p t) := by
  have hvalue := value_updateEffectiveVisibility view n.value.isVisible
    (origin (addChild view child p t).1 (n.children.length :: p)) child
  have hkept := kept_updateEffectiveVisibility view n.value.isVisible
    (origin (addChild view child p t).1 (n.children.length :: p)) hc
  refine ⟨fun hs pixel hp hu => ?_, ?_⟩
  · rw [addShown_fst hn, paintAt_congr_forget (map_forget_updateBoundingRect p _)]
    refine paintAt_setChildItems fun m hm hv => ?_
    subst hs
    cases hn.symm.trans hm
    rw [Layers.heights_append, Layers.heights_singleton ?_, List.append_nil]
    have hadd := (unrecorded_append.mp hu).1
    rw [addChild_snd hn] at hadd
    have hnot := (unrecorded_scheduleRepaint (scene_of_kept (h.kept.subtree hn)) hv hp).mp hadd
    refine paintAt_of_notMem_boundingRect (bounding_of_kept hkept) ?_
    rw [hvalue]
    exact hnot
  · rw [addShown_fst hn]
    refine consistent_updateBoundingRect h fun m hm => ?_
    cases hn.symm.trans hm
    have ⟨hk, hcs⟩ := forall_node.mp ((node_eta n).symm ▸ h.kept.subtree hn)
    refine ⟨rfl, ⟨hk.1.scene, ?_⟩, ?_⟩
    · rw [children_node, List.map_append, List.forall_mem_append]
      refine ⟨hk.1.visible, List.forall_mem_singleton.mpr ?_⟩
      rw [hvalue]
      rfl
    · rw [children_node, List.forall_mem_append]
      exact ⟨hcs, List.forall_mem_singleton.mpr hkept⟩

end KWin.ItemTree
