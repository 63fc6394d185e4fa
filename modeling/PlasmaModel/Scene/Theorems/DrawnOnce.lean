import Mathlib.Data.List.Pairwise
import Mathlib.Data.List.Perm.Subperm
import PlasmaModel.Scene.Theorems.RenderNodes

namespace KWin

namespace Item

variable {data : ItemData} {children items : List Item} {item below root : Item} {filter holeFilter : Nat → Bool}

theorem visible_subperm (children : List Item) : (visibleBelow children ++ visibleAbove children).Subperm children := by
  have habove : (visibleAbove children).Sublist
      ((sortedChildItems children).filter fun child => !decide (child.z < 0 ∧ child.explicitVisible)) := by
    refine List.monotone_filter_right _ fun child hc => ?_
    simp only [decide_eq_true_eq, Bool.not_eq_true', decide_eq_false_iff_not] at hc ⊢
    omega
  have hparts := ((List.Sublist.refl (visibleBelow children)).append habove).subperm
  exact hparts.trans ((List.filter_append_perm _ _).trans (List.perm_insertionSort _ children)).subperm

theorem flatMap_subperm {α β : Type} {f g : α → List β} {l l' : List α} (h : l.Subperm l')
    (hfg : ∀ a ∈ l', (f a).Subperm (g a)) : (l.flatMap f).Subperm (l'.flatMap g) := by
  have ⟨k, hp, hs⟩ := h
  have hk : (k.flatMap f).Subperm (k.flatMap g) := by
    have hfg : ∀ a ∈ k, (f a).Subperm (g a) := fun a ha => hfg a (hs.subset ha)
    clear hp hs
    induction k
    case nil => exact .refl _
    case cons a k ih =>
      have ⟨ha, hk⟩ := List.forall_mem_cons.mp hfg
      exact ha.append (ih hk)
  exact (hp.symm.flatMap_right f).subperm.trans (hk.trans (hs.flatMap g).subperm)

theorem nodup_of_subperm {α β : Type} {f : α → β} {l l' : List α} (h : l.Subperm l') (hn : (l'.map f).Nodup) :
    (l.map f).Nodup :=
  have ⟨_, hp, hs⟩ := h
  (hp.map f).nodup_iff.mp ((hs.map f).nodup hn)

theorem paintOrder_subperm (item : Item) : item.paintOrder.Subperm item.subtrees := by
  induction item using RoseTree.induction
  case node data children ih =>
    rw [paintOrder_node, RoseTree.subtrees_node, List.append_assoc]
    have hperm := List.perm_append_comm_assoc ((visibleBelow children).flatMap paintOrder) [.node data children]
      ((visibleAbove children).flatMap paintOrder)
    rw [← List.flatMap_append] at hperm
    exact hperm.subperm.trans ((List.subperm_cons _).mpr (flatMap_subperm (visible_subperm children) ih))

theorem mem_subtrees_of_mem_paintOrder (h : below ∈ item.paintOrder) : below ∈ item.subtrees :=
  (paintOrder_subperm item).subset h

theorem root_unique {root' : Item} (hn : ((items.flatMap RoseTree.subtrees).map id).Nodup) (hr : root ∈ items)
    (hr' : root' ∈ items) (hi : item ∈ root.subtrees) (hi' : item ∈ root'.subtrees) : root = root' := by
  rw [List.map_flatMap, List.nodup_flatMap] at hn
  have hsymm : Std.Symm (Function.onFun List.Disjoint fun r : Item => r.subtrees.map id) := ⟨fun _ _ h _ hb ha => h ha hb⟩
  by_contra hne
  exact hn.2.forall hr hr' hne (List.mem_map_of_mem hi) (List.mem_map_of_mem hi')

-- An item that is visible below the root is visible below every item between them.
theorem mem_paintOrder_of_mem_subtrees (hn : (root.subtrees.map id).Nodup) (hi : item ∈ root.subtrees)
    (hb : below ∈ root.paintOrder) (hb' : below ∈ item.subtrees) : below ∈ item.paintOrder := by
  induction root using RoseTree.induction
  case node data children ih =>
    rw [RoseTree.subtrees_node] at hn hi
    have ⟨hroot, hn⟩ := List.nodup_cons.mp hn
    cases List.mem_cons.mp hi
    case inl heq => exact heq ▸ hb
    case inr hi =>
      have ⟨child, hc, hi⟩ := List.mem_flatMap.mp hi
      have hbc := (RoseTree.subtrees_sublist hi).subset hb'
      cases mem_paintOrder_node.mp hb
      case inl heq =>
        have hmem := List.mem_map_of_mem (f := id) (List.mem_flatMap.mpr ⟨child, hc, hbc⟩)
        exact absurd (heq ▸ hmem) hroot
      case inr hb =>
        have ⟨child', hc', hb⟩ := hb
        have hsame := root_unique hn (mem_of_visible hc') hc (mem_subtrees_of_mem_paintOrder hb) hbc
        rw [List.map_flatMap, List.nodup_flatMap] at hn
        exact ih child hc (hn.1 child hc) hi (hsame ▸ hb)

theorem isAncestorOf_iff {descendant : Nat} : (descendant == item.id || item.isAncestorOf descendant) = true ↔
    descendant ∈ item.subtrees.map id := by
  induction item using RoseTree.induction
  case node data children ih =>
    rw [RoseTree.subtrees_node, List.map_cons, List.mem_cons, isAncestorOf, Bool.or_eq_true, beq_iff_eq]
    simp only [List.any_subtype, List.unattach_attach, List.any_eq_true, List.map_flatMap, List.mem_flatMap]
    refine or_congr_right (exists_congr fun child => and_congr_right fun hc => ?_)
    rw [← ih child hc, BEq.comm (a := descendant)]
    rfl

-- The nodes that draw an item, as opposed to those that leave a hole for it.
def drawings (nodes : List RenderNode) (item : Nat) : Nat :=
  nodes.countP fun node => node.item = item ∧ node.paintHole = false

theorem drawings_flatMap {α : Type} (l : List α) (f : α → List RenderNode) (i : Nat) :
    drawings (l.flatMap f) i = (l.map fun a => drawings (f a) i).sum :=
  List.countP_flatMap

theorem drawings_renderNode? (i : Nat) : drawings (renderNode? filter holeFilter item).toList i =
    if item.id = i ∧ item.value.trait?.isSome ∧ filter item.id = false then 1 else 0 := by
  cases ht : item.value.trait? <;> cases hf : filter item.id <;> by_cases hi : item.id = i <;>
    simp_all [drawings, renderNode?, Skipped, ItemData.renderNode, id]

theorem drawings_filterMap_cons (i : Nat) : drawings ((item :: items).filterMap (renderNode? filter holeFilter)) i =
    drawings (renderNode? filter holeFilter item).toList i +
      drawings (items.filterMap (renderNode? filter holeFilter)) i := by
  cases h : renderNode? filter holeFilter item <;> simp [h, drawings, List.countP_cons]
  exact Nat.add_comm ..

theorem drawings_filterMap_of_notMem {i : Nat} (hi : i ∉ items.map id) :
    drawings (items.filterMap (renderNode? filter holeFilter)) i = 0 := by
  induction items
  case nil => rfl
  case cons a items ih =>
    have ⟨ha, hi⟩ := List.ne_and_not_mem_of_not_mem_cons hi
    rw [drawings_filterMap_cons, drawings_renderNode?, if_neg fun h => ha h.1.symm, ih hi]

theorem drawings_filterMap_of_mem (hn : (items.map id).Nodup) (hi : item ∈ items) (ht : item.value.trait?.isSome) :
    drawings (items.filterMap (renderNode? filter holeFilter)) item.id = if filter item.id then 0 else 1 := by
  induction items
  case nil => cases hi
  case cons a items ih =>
    have ⟨ha, hn⟩ := List.nodup_cons.mp hn
    rw [drawings_filterMap_cons, drawings_renderNode?]
    cases List.mem_cons.mp hi
    case inl heq =>
      rw [heq, drawings_filterMap_of_notMem ha]
      cases filter a.id <;> simp [← heq, ht]
    case inr hi =>
      have hne : a.id ≠ item.id := fun h => ha (h ▸ List.mem_map_of_mem hi)
      rw [if_neg fun h => hne h.1, ih hn hi, Nat.zero_add]

theorem createRenderNode_unfiltered (item : Item) : item.createRenderNode (fun _ => false) (fun _ => false) =
    item.paintOrder.filterMap (renderNode? (fun _ => false) fun _ => false) :=
  createRenderNode_eq_iff.mpr fun _ _ hskip => nomatch hskip.1

-- All children of the item are left out.
theorem createRenderNode_alone (hn : (item.subtrees.map id).Nodup) :
    item.createRenderNode (· != item.id) (fun _ => false) =
      (renderNode? (fun _ => false) (fun _ => false) item).toList := by
  cases item
  case node data children =>
    have hskip {child} (hc : child ∈ visibleBelow children ++ visibleAbove children) :
        child.createRenderNode (· != data.id) (fun _ => false) = [] := by
      have hne : child.id ≠ data.id := by
        intro heq
        rw [RoseTree.subtrees_node] at hn
        have hchild := List.mem_flatMap.mpr ⟨child, mem_of_visible hc, RoseTree.self_mem_subtrees child⟩
        exact (List.nodup_cons.mp hn).1 (List.mem_map.mpr ⟨child, hchild, heq⟩)
      cases child
      exact createRenderNode_node.trans (if_pos ⟨bne_iff_ne.mpr hne, rfl⟩)
    have hbelow := List.flatMap_eq_nil_iff.mpr fun child hc => hskip (List.mem_append_left _ hc)
    have habove := List.flatMap_eq_nil_iff.mpr fun child hc => hskip (List.mem_append_right _ hc)
    have hroot : ¬Skipped (· != data.id) (fun _ => false) data.id := fun h => by simp [Skipped] at h
    change createRenderNode (· != data.id) _ _ = _
    rw [createRenderNode_node, if_neg hroot, hbelow, habove, bne_self_eq_false]
    simp [renderNode?, Skipped]

end Item

namespace Scene

variable {scene : Scene} {item root : Item} {i : Nat}

def paintOrder (scene : Scene) : List Item :=
  scene.items.flatMap Item.paintOrder

theorem paintOrder_subperm (scene : Scene) : scene.paintOrder.Subperm scene.allItems :=
  Item.flatMap_subperm (.refl _) fun item _ => item.paintOrder_subperm

theorem nodup_paintOrder (scene : Scene) : (scene.paintOrder.map Item.id).Nodup :=
  Item.nodup_of_subperm scene.paintOrder_subperm scene.nodup

theorem unique {item' : Item} (hi : item ∈ scene.allItems) (hi' : item' ∈ scene.allItems) (h : item.id = item'.id) :
    item = item' :=
  List.inj_on_of_nodup_map scene.nodup hi hi' h

theorem of_item?_eq_some (h : scene.item? i = some item) : item ∈ scene.allItems ∧ item.id = i :=
  ⟨List.mem_of_find?_eq_some h, beq_iff_eq.mp (List.find?_some (p := fun item : Item => item.id == i) h)⟩

theorem item?_of_mem (hi : item ∈ scene.allItems) : scene.item? item.id = some item := by
  cases h : scene.item? item.id
  case none => exact absurd (beq_self_eq_true item.id) (List.find?_eq_none.mp h item hi)
  case some item' =>
    have ⟨hi', hid⟩ := of_item?_eq_some h
    rw [unique hi hi' hid.symm]

theorem subtrees_sublist (hr : root ∈ scene.allItems) : root.subtrees.Sublist scene.allItems := by
  have ⟨r, hri, hr⟩ := List.mem_flatMap.mp hr
  have hsub := (List.singleton_sublist.mpr hri).flatMap RoseTree.subtrees
  rw [List.flatMap_singleton] at hsub
  exact (RoseTree.subtrees_sublist hr).trans hsub

theorem nodup_subtrees (hr : root ∈ scene.allItems) : (root.subtrees.map Item.id).Nodup :=
  ((subtrees_sublist hr).map Item.id).nodup scene.nodup

theorem mem_paintOrder_below (hr : root ∈ scene.allItems) (hi : item ∈ scene.paintOrder)
    (hb : item ∈ root.subtrees) : item ∈ root.paintOrder := by
  have ⟨r, hri, hr⟩ := List.mem_flatMap.mp hr
  have ⟨r', hri', hi⟩ := List.mem_flatMap.mp hi
  have hsame := Item.root_unique scene.nodup hri hri' ((RoseTree.subtrees_sublist hr).subset hb)
    (Item.mem_subtrees_of_mem_paintOrder hi)
  have hmem := List.mem_flatMap.mpr ⟨r, hri, RoseTree.self_mem_subtrees r⟩
  exact Item.mem_paintOrder_of_mem_subtrees (nodup_subtrees hmem) hr (hsame ▸ hi) hb

end Scene

open Item (drawings)

variable {scene : Scene} {item root : Item}

theorem ItemView.drawings_paint (view : ItemView) (hi : item ∈ scene.paintOrder) (ht : item.value.trait?.isSome) :
    drawings (view.paint scene) item.id = if view.shouldRenderItem scene item.id then 1 else 0 := by
  have hall := scene.paintOrder_subperm.subset hi
  cases hv : scene.item? view.item
  case none =>
    have hne : item.id ≠ view.item := by
      intro heq
      rw [← heq, Scene.item?_of_mem hall] at hv
      cases hv
    simp [paint, shouldRenderItem, hv, hne, drawings]
  case some root =>
    have ⟨hr, hid⟩ := Scene.of_item?_eq_some hv
    have hn := Scene.nodup_subtrees hr
    rw [paint, shouldRenderItem, hv, Option.elim_some, paintItem, Option.any_some, ← hid]
    cases view.tree
    case false =>
      rw [if_neg Bool.false_ne_true, Item.createRenderNode_alone hn, Item.drawings_renderNode?, Bool.false_and,
        Bool.or_false]
      by_cases heq : item.id = root.id
      case pos => simp [← Scene.unique hall hr heq, ht]
      case neg => simp [heq, Ne.symm heq]
    case true =>
      rw [if_pos rfl, Item.createRenderNode_unfiltered, Bool.true_and, if_congr Item.isAncestorOf_iff rfl rfl]
      split
      case isTrue hmem =>
        have ⟨below, hb, hbelow⟩ := List.mem_map.mp hmem
        have hsame := Scene.unique hall ((Scene.subtrees_sublist hr).subset hb) hbelow.symm
        have hi := Scene.mem_paintOrder_below hr hi (hsame ▸ hb)
        exact Item.drawings_filterMap_of_mem (Item.nodup_of_subperm root.paintOrder_subperm hn) hi ht
      case isFalse hmem =>
        exact Item.drawings_filterMap_of_notMem fun h =>
          have ⟨below, hb, hid⟩ := List.mem_map.mp h
          hmem (List.mem_map.mpr ⟨below, root.paintOrder_subperm.subset hb, hid⟩)

namespace SceneView

variable {s : SceneView}

-- Every visible item is drawn once, by the view it has been moved to or else by the scene view, and the scene view
-- leaves a hole in its place for every item of an underlay.
structure DrawsOnce (s : SceneView) (scene : Scene) : Prop where
  inScene  : s.paint scene = scene.paintOrder.filterMap fun item =>
    if s.shouldRenderHole scene item.id then item.value.renderNode true
    else if s.shouldRenderItem scene item.id then item.value.renderNode false
    else none
  inLayers : ∀ view ∈ s.exclusive, ∀ item ∈ scene.paintOrder, item.value.trait?.isSome →
    drawings (view.paint scene) item.id = if view.shouldRenderItem scene item.id then 1 else 0
  once     : ∀ item ∈ scene.paintOrder, item.value.trait?.isSome →
    drawings (s.paint scene ++ s.exclusive.flatMap (·.paint scene)) item.id = 1

def OnOverlay (s : SceneView) (scene : Scene) (item : Nat) : Prop :=
  s.shouldRenderItem scene item = false ∧ s.shouldRenderHole scene item = false

instance {i : Nat} : Decidable (s.OnOverlay scene i) :=
  inferInstanceAs (Decidable (_ ∧ _))

-- Below an item on an overlay there is nothing to draw but for items that are on overlays too, and no item is on
-- several layers.
structure Separate (s : SceneView) (scene : Scene) : Prop where
  overlays : ∀ item ∈ scene.paintOrder, s.OnOverlay scene item.id →
    ∀ below ∈ item.paintOrder, below.value.trait?.isSome → s.OnOverlay scene below.id
  layers   : ∀ item ∈ scene.paintOrder, item.value.trait?.isSome →
    s.exclusive.countP (·.shouldRenderItem scene item.id) ≤ 1

theorem skipped_iff {i : Nat} :
    Item.Skipped (fun i => !s.shouldRenderItem scene i) (s.shouldRenderHole scene ·) i ↔ s.OnOverlay scene i := by
  simp [Item.Skipped, OnOverlay]

theorem paint_eq_iff : s.paint scene = scene.paintOrder.filterMap
      (Item.renderNode? (fun i => !s.shouldRenderItem scene i) (s.shouldRenderHole scene ·)) ↔
    ∀ item ∈ scene.paintOrder, s.OnOverlay scene item.id →
      ∀ below ∈ item.paintOrder, below.value.trait?.isSome → s.OnOverlay scene below.id := by
  rw [Scene.paintOrder, List.filterMap_flatMap, paint,
    Item.flatMap_eq_iff_of_sublist fun item _ => Item.createRenderNode_sublist _ _ item, List.forall_mem_flatMap]
  simp only [Item.createRenderNode_eq_iff, Item.Covering, skipped_iff]

theorem inScene_iff (h : s.Consistent) : (s.paint scene = scene.paintOrder.filterMap fun item =>
      if s.shouldRenderHole scene item.id then item.value.renderNode true
      else if s.shouldRenderItem scene item.id then item.value.renderNode false
      else none) ↔
    ∀ item ∈ scene.paintOrder, s.OnOverlay scene item.id →
      ∀ below ∈ item.paintOrder, below.value.trait?.isSome → s.OnOverlay scene below.id := by
  rw [← paint_eq_iff]
  have hsame : (fun item : Item =>
      if s.shouldRenderHole scene item.id then item.value.renderNode true
      else if s.shouldRenderItem scene item.id then item.value.renderNode false
      else none) = Item.renderNode? (fun i => !s.shouldRenderItem scene i) (s.shouldRenderHole scene ·) := by
    funext item
    have hhole : s.shouldRenderHole scene item.id = true → s.shouldRenderItem scene item.id = false :=
      h.shouldRenderItem_of_hole
    cases hi : s.shouldRenderItem scene item.id <;> cases hh : s.shouldRenderHole scene item.id <;>
      simp_all [Item.renderNode?, Item.Skipped]
  rw [hsame]

theorem sum_indicator {α : Type} (p : α → Bool) (l : List α) : (l.map fun a => if p a then 1 else 0).sum = l.countP p := by
  induction l
  case nil => rfl
  case cons a l ih =>
    rw [List.map_cons, List.sum_cons, ih, List.countP_cons, Nat.add_comm]

theorem drawings_layers (hi : item ∈ scene.paintOrder) (ht : item.value.trait?.isSome) :
    drawings (s.exclusive.flatMap (·.paint scene)) item.id =
      s.exclusive.countP (·.shouldRenderItem scene item.id) := by
  rw [Item.drawings_flatMap, ← sum_indicator]
  exact congrArg List.sum (List.map_congr_left fun view _ => view.drawings_paint hi ht)

-- Items on layers are not drawn by the scene view, all others are.
theorem once_iff (hs : s.paint scene = scene.paintOrder.filterMap
      (Item.renderNode? (fun i => !s.shouldRenderItem scene i) (s.shouldRenderHole scene ·)))
    (hi : item ∈ scene.paintOrder) (ht : item.value.trait?.isSome) :
    drawings (s.paint scene ++ s.exclusive.flatMap (·.paint scene)) item.id = 1 ↔
      s.exclusive.countP (·.shouldRenderItem scene item.id) ≤ 1 := by
  rw [drawings, List.countP_append]
  change drawings _ _ + drawings _ _ = 1 ↔ _
  rw [drawings_layers hi ht, hs, Item.drawings_filterMap_of_mem scene.nodup_paintOrder hi ht]
  cases hany : s.exclusive.any (·.shouldRenderItem scene item.id)
  case false =>
    have hzero : s.exclusive.countP (·.shouldRenderItem scene item.id) = 0 :=
      List.countP_eq_zero.mpr fun view hv => List.any_eq_false.mp hany view hv
    simp [shouldRenderItem, hany, hzero]
  case true =>
    have hpos : 0 < s.exclusive.countP (·.shouldRenderItem scene item.id) :=
      List.countP_pos_iff.mpr (List.any_eq_true.mp hany)
    simp only [shouldRenderItem, hany]
    exact ⟨fun h => by simpa using h.le, fun h => by simpa using le_antisymm h hpos⟩

theorem drawsOnce_iff (h : s.Reachable) (scene : Scene) : s.DrawsOnce scene ↔ s.Separate scene := by
  constructor
  case mp =>
    intro hd
    have hover := (inScene_iff h.consistent).mp hd.inScene
    have hs := paint_eq_iff.mpr hover
    exact ⟨hover, fun item hi ht => (once_iff hs hi ht).mp (hd.once item hi ht)⟩
  case mpr =>
    intro hsep
    have hs := paint_eq_iff.mpr hsep.overlays
    exact ⟨(inScene_iff h.consistent).mpr hsep.overlays, fun view _ item hi ht => view.drawings_paint hi ht,
      fun item hi ht => (once_iff hs hi ht).mpr (hsep.layers item hi ht)⟩

-- A window with a subsurface, over another window.
def subsurfaceItem : Item :=
  .node { id := 2, kind := .surface 1 } []

def parentItem : Item :=
  .node { id := 1, kind := .surface 1 } [subsurfaceItem]

def lowerItem : Item :=
  .node { id := 0, kind := .surface 1 } []

def subsurfaceScene : Scene where
  items := [lowerItem, parentItem]
  nodup := by decide

theorem paintOrder_leaf (data : ItemData) : Item.paintOrder (.node data []) = [.node data []] :=
  Item.paintOrder_node

theorem subsurfaceScene_paintOrder : subsurfaceScene.paintOrder = [lowerItem, parentItem, subsurfaceItem] := by
  have hparent : parentItem.paintOrder = [parentItem] ++ [subsurfaceItem].flatMap Item.paintOrder :=
    Item.paintOrder_node
  rw [Scene.paintOrder, subsurfaceScene, List.flatMap_cons, List.flatMap_singleton, hparent, List.flatMap_singleton,
    lowerItem, subsurfaceItem, paintOrder_leaf, paintOrder_leaf]
  rfl

def overlayView (item : Nat) : SceneView :=
  (SceneView.setView {} 0 (some { item, tree := false })).setExclusive 0 { item, tree := false } true

theorem overlayView_reachable (item : Nat) : (overlayView item).Reachable :=
  .of_run [.create 0 item false, .setExclusive 0 true] rfl

theorem overlayView_layers (item i : Nat) :
    (overlayView item).exclusive.countP (·.shouldRenderItem subsurfaceScene i) ≤ 1 :=
  List.countP_le_length

theorem drawsOnce_iff_lower : (overlayView 0).DrawsOnce subsurfaceScene :=
  (drawsOnce_iff (overlayView_reachable 0) subsurfaceScene).mpr
    { overlays := by
        rw [subsurfaceScene_paintOrder]
        intro item hi hover below hb _
        cases hi
        case head =>
          rw [lowerItem, paintOrder_leaf] at hb
          exact List.mem_singleton.mp hb ▸ hover
        case tail hi =>
          have hnot : ∀ item ∈ [parentItem, subsurfaceItem], ¬(overlayView 0).OnOverlay subsurfaceScene item.id := by
            decide
          exact absurd hover (hnot item hi)
      layers := fun item _ _ => overlayView_layers 0 item.id }

-- The subsurface of a window that has been moved to an overlay is left out together with the window.
theorem subsurface_not_drawn : ¬∀ s : SceneView, s.Reachable → ∀ scene : Scene,
    (∀ item ∈ scene.paintOrder, item.value.trait?.isSome →
      s.exclusive.countP (·.shouldRenderItem scene item.id) ≤ 1) → s.DrawsOnce scene := by
  intro h
  have hd := h (overlayView 1) (overlayView_reachable 1) subsurfaceScene fun item _ _ => overlayView_layers 1 item.id
  have hover := (inScene_iff (overlayView_reachable 1).consistent).mp hd.inScene
  rw [subsurfaceScene_paintOrder] at hover
  have hparent : subsurfaceItem ∈ parentItem.paintOrder :=
    Item.mem_paintOrder_node.mpr (.inr ⟨subsurfaceItem, .head _, Item.self_mem_paintOrder _⟩)
  exact absurd (hover parentItem (.tail _ (.head _)) (by decide) subsurfaceItem hparent rfl) (by decide)

end SceneView

end KWin
