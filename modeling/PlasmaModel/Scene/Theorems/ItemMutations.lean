import PlasmaModel.Scene.Theorems.Visibility

namespace KWin

open RoseTree ItemState

theorem ItemTree.subtree?_of_find {id : Nat} {t : ItemTree} {p : List Nat} (h : ItemTree.find id t = some p) :
    ∃ n, t.subtree? p = some n := by
  have hv := List.find?_some h
  cases hn : t.subtree? p
  case none =>
    rw [value?, hn] at hv
    cases hv
  case some n => exact ⟨n, rfl⟩

namespace ItemForest

open ItemTree

variable {s s' s'' : ItemForest} {k : Nat} {p : List Nat} {id : Nat} {f : ItemTree → ItemTree × List Repaint}

theorem locate_eq_some (h : s.locate id = some (k, p)) : ∃ t n, s.trees[k]? = some t ∧ t.subtree? p = some n := by
  have ⟨⟨t, j⟩, hm, h⟩ := List.exists_of_findSome?_eq_some h
  have ⟨q, hq, heq⟩ := Option.map_eq_some_iff.mp h
  cases heq
  have ⟨n, hn⟩ := subtree?_of_find hq
  exact ⟨t, n, List.mem_zipIdx_iff_getElem?.mp hm, hn⟩

theorem paintedAt_eq (s : ItemForest) (pixel : Point) :
    s.paintedAt pixel = s.trees.head?.elim [] (paintAt (s.view.scenePoint pixel)) := by
  have hmem (painted : PaintedItem) : (s.view.mapToDeviceCoordinates painted.rect).containsPoint pixel =
      painted.rect.containsPoint (s.view.scenePoint pixel) := Bool.eq_iff_iff.mpr RenderView.mem_mapToDeviceCoordinates
  rw [paintedAt, funext hmem]
  cases s.trees.head? <;> rfl

-- Repaints of several steps.

theorem repainted_of_areas (hv : s'.view = s.view) (ht : s'.trees.head? = s.trees.head?)
    {recorded : List Rect} (hr : s'.repaints.map Repaint.area = s.repaints.map Repaint.area ++ recorded) :
    Repainted s s' := by
  refine ⟨hv, recorded, hr, fun pixel _ hne => absurd ?_ hne⟩
  rw [paintedAt_eq, paintedAt_eq, hv, ht]

theorem Repainted.refl (s : ItemForest) : Repainted s s :=
  repainted_of_areas rfl rfl (List.append_nil _).symm

theorem Repainted.trans (h : Repainted s s') (h' : Repainted s' s'') : Repainted s s'' := by
  have ⟨recorded, hr, hp⟩ := h.recorded
  have ⟨recorded', hr', hp'⟩ := h'.recorded
  refine ⟨h'.view.trans h.view, recorded ++ recorded', by rw [hr', hr, List.append_assoc], fun pixel hd hne => ?_⟩
  by_cases heq : s'.paintedAt pixel = s.paintedAt pixel
  case neg =>
    have ⟨area, hm, ha⟩ := hp pixel hd heq
    exact ⟨area, List.mem_append_left _ hm, ha⟩
  case pos =>
    have ⟨area, hm, ha⟩ := hp' pixel (h.view ▸ hd) (heq ▸ hne)
    exact ⟨area, List.mem_append_right _ hm, ha⟩

-- A step that is right for the view and for the items.
def Sound (s s' : ItemForest) : Prop :=
  Repainted s s' ∧ s'.Consistent

theorem sound_refl (h : s.Consistent) : Sound s s :=
  ⟨.refl s, h⟩

theorem sound_change (h : s.Consistent)
    (hf : ∀ t, s.trees[k]? = some t → t.Consistent (k == 0) → Keeps s.view (k == 0) t (f t)) : Sound s (s.change k f) := by
  rw [change]
  split
  case h_1 => exact sound_refl h
  case h_2 t ht =>
    have hk := hf t ht (h k t ht)
    refine ⟨⟨rfl, (f t).2.map Repaint.area, List.map_append, fun pixel hp hne => ?_⟩, fun j u hu => ?_⟩
    · by_contra hno
      refine hne ?_
      rw [paintedAt_eq, paintedAt_eq]
      cases k
      case zero =>
        have hun : Unrecorded pixel (f t).2 := fun r hr hm => hno ⟨r.area, List.mem_map_of_mem hr, hm⟩
        have hc := hk.covered rfl pixel hp hun
        have hset : (s.trees.set 0 (f t).1).head? = some (f t).1 := by
          cases htrees : s.trees
          case nil =>
            rw [htrees] at ht
            cases ht
          case cons => rfl
        rw [hset, List.head?_eq_getElem?, ht]
        exact hc
      case succ k => rw [List.head?_eq_getElem?, List.head?_eq_getElem?, List.getElem?_set_ne (Nat.succ_ne_zero k)]
    · by_cases hj : k = j
      case pos =>
        subst hj
        rw [List.getElem?_set_self (List.getElem?_eq_some_iff.mp ht).1] at hu
        exact Option.some.inj hu ▸ hk.consistent
      case neg =>
        rw [List.getElem?_set_ne hj] at hu
        exact h j u hu

theorem sound_changeItem {f : List Nat → ItemTree → ItemTree × List Repaint} (h : s.Consistent)
    (hf : ∀ scene t p, t.Consistent scene → Keeps s.view scene t (f p t)) : Sound s (s.changeItem id f) := by
  rw [changeItem]
  split
  case h_1 => exact sound_refl h
  case h_2 k p _ => exact sound_change h fun t _ ht => hf _ t p ht

theorem sound_stack {stacking : RenderView → Nat → List Nat → ItemTree → ItemTree × List Repaint} {sibling : Nat}
    (h : s.Consistent) (hf : ∀ scene t j p, t.Consistent scene → Keeps s.view scene t (stacking s.view j p t)) :
    Sound s (s.stack stacking id sibling) := by
  rw [stack]
  split
  case h_2 => exact sound_refl h
  case h_1 =>
    split
    case isTrue => exact sound_change h fun t _ ht => hf _ t _ _ ht
    case isFalse => exact sound_refl h

-- Items that change their parent.

variable {t n item : ItemTree}

theorem sound_remove (h : s.Consistent) (ht : s.trees[k]? = some t) (hi : t.subtree? p = some item)
    (hroot : ¬(k = 0 ∧ p = [])) : Sound s (s.remove item k p) := by
  cases p
  case cons i p =>
    refine sound_change h fun u hu hc => ?_
    cases ht.symm.trans hu
    exact keeps_removeChild hc hi
  case nil =>
    cases k
    case zero => exact absurd ⟨rfl, rfl⟩ hroot
    case succ k =>
      have hhead : (s.trees.eraseIdx (k + 1)).head? = s.trees.head? := by cases s.trees <;> rfl
      refine ⟨repainted_of_areas rfl hhead (List.append_nil _).symm, fun j u hu => ?_⟩
      have hu : (s.trees.eraseIdx (k + 1))[j]? = some u := hu
      rw [List.getElem?_eraseIdx] at hu
      split at hu
      case isTrue => exact h j u hu
      case isFalse hj =>
        have hc := h (j + 1) u hu
        cases j
        case zero => exact absurd (Nat.succ_pos k) hj
        case succ j => exact hc

theorem remove_trees_ne_nil (ht : s.trees[k]? = some t) (hroot : ¬(k = 0 ∧ p = [])) : (s.remove item k p).trees ≠ [] := by
  cases p
  case cons i p =>
    rw [remove, change, ht]
    intro hnil
    have hlen := congrArg List.length hnil
    rw [List.length_set] at hlen
    rw [List.eq_nil_of_length_eq_zero hlen] at ht
    cases ht
  case nil =>
    cases k
    case zero => exact absurd ⟨rfl, rfl⟩ hroot
    case succ k =>
      rw [remove]
      cases htrees : s.trees
      case nil =>
        rw [htrees] at ht
        cases ht
      case cons => nofun

theorem area_addDeviceRepaints (s : ItemForest) (items : List Nat) :
    (s.addDeviceRepaints items).repaints.map Repaint.area = s.repaints.map Repaint.area := by
  rw [addDeviceRepaints, List.map_map]
  refine List.map_congr_left fun r _ => ?_
  rw [Function.comp_apply]
  split <;> rfl

theorem sound_addDeviceRepaints (h : s.Consistent) (items : List Nat) : Sound s (s.addDeviceRepaints items) :=
  ⟨repainted_of_areas rfl rfl ((area_addDeviceRepaints s items).trans (List.append_nil _).symm), h⟩

theorem Sound.trans (h : Sound s s') (h' : Sound s' s'') : Sound s s'' :=
  ⟨h.1.trans h'.1, h'.2⟩

theorem change_change (s : ItemForest) (k : Nat) (f g : ItemTree → ItemTree × List Repaint) :
    (s.change k f).change k g = s.change k fun t => ((g (f t).1).1, (f t).2 ++ (g (f t).1).2) := by
  cases ht : s.trees[k]?
  case none => simp [change, ht]
  case some t =>
    have hk := List.getElem?_set_self (a := (f t).1) (List.getElem?_eq_some_iff.mp ht).1
    simp [change, ht, hk, List.set_set]

theorem sound_attach {scene : Bool} (h : s.Consistent) (hi : Forall (Kept scene) item) (ht : s.trees[k]? = some t)
    (hn : t.subtree? p = some n) : Sound s (s.attach item k p) := by
  have hitem : s.item? k p = some n := by
    rw [item?, ht]
    exact hn
  have hscene : n.value.scene = (k == 0) := scene_of_kept ((h k t ht).kept.subtree hn)
  have hsound := sound_addDeviceRepaints h (setScene n.value.scene item).2
  rw [attach, hitem]
  dsimp only [Option.any_some, Option.elim_some]
  rw [change_change]
  refine hsound.trans (sound_change hsound.2 fun u hu hc => ?_)
  cases ht.symm.trans hu
  exact keeps_addShown hc (hscene ▸ kept_setScene hi) hn

theorem consistent_shown {scene : Bool} (h : Forall (Kept scene) item) (view : RenderView) :
    ItemTree.Consistent scene (updateEffectiveVisibilityAt view [] item).1 := by
  have hv := value_updateEffectiveVisibility view true 0 item
  refine ⟨kept_updateEffectiveVisibility view true 0 h, ?_⟩
  exact (congrArg effectiveVisible hv).trans ((Bool.and_true _).trans (congrArg explicitVisible hv).symm)

theorem sound_detach {scene : Bool} (h : s.Consistent) (hi : Forall (Kept scene) item) (hne : s.trees ≠ []) :
    Sound s (s.detach item) := by
  have hhead (t : ItemTree) : (s.trees ++ [t]).head? = s.trees.head? := by
    cases htrees : s.trees
    case nil => exact absurd htrees hne
    case cons => rfl
  refine ⟨repainted_of_areas rfl (hhead _) (List.map_append.trans (congrArg (· ++ _) (area_addDeviceRepaints s _))),
    fun j u hu => ?_⟩
  rw [detach, List.getElem?_append] at hu
  split at hu
  case isTrue => exact h j u hu
  case isFalse hj =>
    have hu := List.mem_singleton.mp (List.mem_of_getElem? hu)
    have hj : ¬j < s.trees.length := hj
    have hj : (j == 0) = false := by
      have := List.length_pos_iff.mpr hne
      rw [beq_eq_false_iff_ne]
      omega
    rw [hj, hu]
    exact consistent_shown (kept_setScene hi) s.view

theorem sound_setParentItem (h : s.Consistent) (id : Nat) (parent : Option Nat) : Sound s (s.setParentItem id parent) := by
  rw [setParentItem]
  split
  case h_1 => exact sound_refl h
  case h_2 k p hloc =>
    have ⟨t, n, ht, hn⟩ := locate_eq_some hloc
    have hitem : s.item? k p = some n := by
      rw [item?, ht]
      exact hn
    split
    case isTrue => exact sound_refl h
    case isFalse hno =>
      have hroot : ¬(k = 0 ∧ p = []) := fun hr => hno (.inr hr)
      have hremove := sound_remove h ht hn hroot
      have hkept := (h k t ht).kept.subtree hn
      rw [hitem]
      cases parent
      case none => exact hremove.trans (sound_detach hremove.2 hkept (remove_trees_ne_nil ht hroot))
      case some parent =>
        dsimp only
        split
        case h_1 => exact sound_refl h
        case h_2 l q hloc =>
          have ⟨u, m, hu, hm⟩ := locate_eq_some hloc
          exact hremove.trans (sound_attach hremove.2 hkept hu hm)

theorem sound_step (h : s.Consistent) (call : ItemCall) : Sound s (s.step call) := by
  cases call with
  | setParentItem item parent => exact sound_setParentItem h item parent
  | setVisible item visible => exact sound_changeItem h fun _ _ p ht => keeps_setVisible ht visible p
  | setPosition item point => exact sound_changeItem h fun _ _ p ht => keeps_setPosition ht point p
  | setSize item size => exact sound_changeItem h fun _ _ p ht => keeps_setSize ht size p
  | setOpacity item opacity => exact sound_changeItem h fun _ _ p ht => keeps_setOpacity ht opacity p
  | setZ item z => exact sound_changeItem h fun _ _ p ht => keeps_setZ ht z p
  | stackBefore item sibling => exact sound_stack h fun _ _ j p ht => keeps_stackBefore ht j p
  | stackAfter item sibling => exact sound_stack h fun _ _ j p ht => keeps_stackAfter ht j p

theorem consistent_single {scene : Bool} (item : ItemState) (hs : item.scene = scene)
    (hr : ∀ pixel ∈ item.rect, pixel ∈ item.boundingRect) (hv : item.effectiveVisible = item.explicitVisible) :
    ItemTree.Consistent scene (.node item []) :=
  ⟨forall_node.mpr ⟨⟨⟨hs, List.forall_mem_nil _⟩, ⟨hr, List.forall_mem_nil _⟩⟩, List.forall_mem_nil _⟩, hv⟩

theorem consistent_fresh (view : RenderView) (root : Nat) (items : List Nat) : (fresh view root items).Consistent := by
  intro k t ht
  cases k
  case zero =>
    cases ht
    exact consistent_single _ rfl (fun _ hp => hp) rfl
  case succ k =>
    have ⟨i, _, ht⟩ := Option.map_eq_some_iff.mp ((List.getElem?_map ..).symm.trans ht)
    subst ht
    exact consistent_single _ rfl (fun _ hp => hp) rfl

-- Whatever a call changes of what is painted is painted again, from new items on and after every call.
theorem repaints_complete : (∀ view root items, (fresh view root items).Consistent) ∧
    ∀ (s : ItemForest) (call : ItemCall), s.Consistent → Repainted s (s.step call) ∧ (s.step call).Consistent :=
  ⟨consistent_fresh, fun _ call h => sound_step h call⟩

theorem repaints_complete_setSize :
    Repainted ((fresh ⟨⟨0, 0, 4, 4⟩, 0⟩ 0 [1]).step (.setParentItem 1 (some 0)))
      (((fresh ⟨⟨0, 0, 4, 4⟩, 0⟩ 0 [1]).step (.setParentItem 1 (some 0))).step (.setSize 1 ⟨2, 2⟩)) :=
  have hfresh := repaints_complete.1 ⟨⟨0, 0, 4, 4⟩, 0⟩ 0 [1]
  have hadded := (repaints_complete.2 _ (.setParentItem 1 (some 0)) hfresh).2
  (repaints_complete.2 _ (.setSize 1 ⟨2, 2⟩) hadded).1

end ItemForest
end KWin
