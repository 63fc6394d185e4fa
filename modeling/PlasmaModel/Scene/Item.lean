import Mathlib.Data.List.Sort
import PlasmaModel.Lib.RoseTree
import PlasmaModel.Lib.Runs

namespace KWin

-- What an item has to be drawn with.
inductive ItemKind
  | plain
  | shadow (texture : Bool)
  | decoration (texture : Bool)
  | surface (planes : Nat)
  | image (planes : Nat)
  | outlinedBorder

inductive ShaderTrait
  | mapTexture
  | mapMultiPlaneTexture
  | border

structure ItemData where
  id              : Nat
  z               : Int := 0
  explicitVisible : Bool := true
  kind            : ItemKind := .plain
  quads           : Nat := 1

abbrev Item := RoseTree ItemData

structure RenderNode where
  item      : Nat
  trait     : ShaderTrait
  paintHole : Bool

def ItemData.trait? (item : ItemData) : Option ShaderTrait :=
  if item.quads = 0 then
    none
  else
    match item.kind with
    | .plain              => none
    | .shadow texture     => if texture then some .mapTexture else none
    | .decoration texture => if texture then some .mapTexture else none
    | .surface planes     =>
      if planes = 0 then none else if planes = 1 then some .mapTexture else some .mapMultiPlaneTexture
    | .image planes       => if planes = 0 then none else some .mapTexture
    | .outlinedBorder     => some .border

def ItemData.renderNode (item : ItemData) (hole : Bool) : Option RenderNode :=
  item.trait?.map fun trait => ⟨item.id, trait, hole⟩

namespace Item

def id (item : Item) : Nat :=
  item.value.id

def z (item : Item) : Int :=
  item.value.z

def explicitVisible (item : Item) : Bool :=
  item.value.explicitVisible

def sortedChildItems (children : List Item) : List Item :=
  children.insertionSort fun a b => a.z ≤ b.z

theorem sizeOf_child_lt {child : Item} {children : List Item} (h : child ∈ sortedChildItems children)
    (data : ItemData) : sizeOf child < sizeOf (RoseTree.node data children) := by
  have hlt := List.sizeOf_lt_of_mem ((List.perm_insertionSort _ children).mem_iff.mp h)
  simp only [RoseTree.node.sizeOf_spec]
  omega

-- The first loop over the children stops at the first one that is not below the item, the second one passes over
-- those below it.
def createRenderNode (filter holeFilter : Nat → Bool) : Item → List RenderNode
  | .node data children =>
    if filter data.id && !holeFilter data.id then
      []
    else
      ((sortedChildItems children).takeWhile (·.z < 0)).attach.flatMap (fun ⟨child, _⟩ =>
        if child.explicitVisible then createRenderNode filter holeFilter child else []) ++
      (data.renderNode (filter data.id)).toList ++
      ((sortedChildItems children).filter (0 ≤ ·.z)).attach.flatMap fun ⟨child, _⟩ =>
        if child.explicitVisible then createRenderNode filter holeFilter child else []
termination_by item => item
decreasing_by
  · exact sizeOf_child_lt ((List.takeWhile_sublist _).subset ‹_›) data
  · exact sizeOf_child_lt (List.mem_filter.mp ‹_›).1 data

def isAncestorOf (descendant : Nat) : Item → Bool
  | .node _ children =>
    children.attach.any fun ⟨child, _⟩ => child.value.id == descendant || isAncestorOf descendant child
termination_by item => item

def visibleBelow (children : List Item) : List Item :=
  (sortedChildItems children).filter fun child => child.z < 0 ∧ child.explicitVisible

def visibleAbove (children : List Item) : List Item :=
  (sortedChildItems children).filter fun child => 0 ≤ child.z ∧ child.explicitVisible

-- The items that are visible if the root is, from bottom to top.
def paintOrder : Item → List Item
  | .node data children =>
    (visibleBelow children).attach.flatMap (fun ⟨child, _⟩ => paintOrder child) ++
    [.node data children] ++
    (visibleAbove children).attach.flatMap fun ⟨child, _⟩ => paintOrder child
termination_by item => item
decreasing_by
  · exact sizeOf_child_lt (List.mem_filter.mp ‹_›).1 data
  · exact sizeOf_child_lt (List.mem_filter.mp ‹_›).1 data

variable {data : ItemData} {children : List Item}

theorem paintOrder_node : paintOrder (.node data children) =
    (visibleBelow children).flatMap paintOrder ++ [.node data children] ++
      (visibleAbove children).flatMap paintOrder := by
  rw [paintOrder]
  simp

theorem mem_of_visible {child : Item} (h : child ∈ visibleBelow children ++ visibleAbove children) :
    child ∈ children := by
  have hs : child ∈ sortedChildItems children :=
    (List.mem_append.mp h).elim (fun h => (List.mem_filter.mp h).1) fun h => (List.mem_filter.mp h).1
  exact (List.perm_insertionSort _ children).mem_iff.mp hs

theorem mem_paintOrder_node {item : Item} : item ∈ paintOrder (.node data children) ↔
    item = .node data children ∨ ∃ child ∈ visibleBelow children ++ visibleAbove children, item ∈ child.paintOrder := by
  simp only [paintOrder_node, List.mem_append, List.mem_flatMap, List.mem_singleton]
  grind

end Item

-- The items that are painted one over the other: the windows in their stacking order and the overlay item.
structure Scene where
  items : List Item
  nodup : ((items.flatMap RoseTree.subtrees).map Item.id).Nodup

def Scene.allItems (scene : Scene) : List Item :=
  scene.items.flatMap RoseTree.subtrees

def Scene.item? (scene : Scene) (id : Nat) : Option Item :=
  scene.allItems.find? (·.id == id)

-- An `ItemView`, or an `ItemTreeView` if `tree` is set.
structure ItemView where
  item      : Nat
  tree      : Bool
  exclusive : Bool := false
  underlay  : Bool := false

namespace ItemView

def shouldRenderItem (view : ItemView) (scene : Scene) (item : Nat) : Bool :=
  item == view.item || (view.tree && (scene.item? view.item).any (·.isAncestorOf item))

def paintItem (view : ItemView) (item : Item) : List RenderNode :=
  if view.tree then
    item.createRenderNode (fun _ => false) (fun _ => false)
  else
    item.createRenderNode (· != view.item) (fun _ => false)

def paint (view : ItemView) (scene : Scene) : List RenderNode :=
  (scene.item? view.item).elim [] view.paintItem

end ItemView

structure SceneView where
  views          : Nat → Option ItemView := fun _ => none
  exclusiveViews : List Nat := []
  underlayViews  : List Nat := []

inductive ViewEvent
  | create (view item : Nat) (tree : Bool)
  | setExclusive (view : Nat) (enable : Bool)
  | setUnderlay (view : Nat) (underlay : Bool)
  | destroy (view : Nat)

namespace SceneView

def setView (s : SceneView) (view : Nat) (itemView : Option ItemView) : SceneView :=
  { s with views := Function.update s.views view itemView }

def addExclusiveView (s : SceneView) (view : Nat) : SceneView :=
  { s with exclusiveViews := s.exclusiveViews ++ [view] }

def removeExclusiveView (s : SceneView) (view : Nat) : SceneView :=
  { s with exclusiveViews := s.exclusiveViews.erase view, underlayViews := s.underlayViews.erase view }

def addUnderlay (s : SceneView) (view : Nat) : SceneView :=
  { s with underlayViews := s.underlayViews ++ [view] }

def removeUnderlay (s : SceneView) (view : Nat) : SceneView :=
  { s with underlayViews := s.underlayViews.erase view }

def setExclusive (s : SceneView) (view : Nat) (itemView : ItemView) (enable : Bool) : SceneView :=
  if itemView.exclusive = enable then
    s
  else
    let s := s.setView view (some { itemView with exclusive := enable })
    if enable then
      let s := s.addExclusiveView view
      if itemView.underlay then s.addUnderlay view else s
    else
      s.removeExclusiveView view

def setUnderlay (s : SceneView) (view : Nat) (itemView : ItemView) (underlay : Bool) : SceneView :=
  if itemView.underlay = underlay then
    s
  else
    let s := s.setView view (some { itemView with underlay })
    if !itemView.exclusive then
      s
    else if underlay then
      s.addUnderlay view
    else
      s.removeUnderlay view

def destroy (s : SceneView) (view : Nat) (itemView : ItemView) : SceneView :=
  let s := if itemView.exclusive then s.removeExclusiveView view else s
  s.setView view none

def step (s : SceneView) : ViewEvent → Option SceneView
  | .create view item tree =>
    if (s.views view).isSome then none else some (s.setView view (some { item, tree }))
  | .setExclusive view enable   => (s.views view).map (s.setExclusive view · enable)
  | .setUnderlay view underlay  => (s.views view).map (s.setUnderlay view · underlay)
  | .destroy view               => (s.views view).map (s.destroy view)

def Reachable (s : SceneView) : Prop :=
  Machine.Reaches step (fun _ _ => True) {} s

def exclusive (s : SceneView) : List ItemView :=
  s.exclusiveViews.filterMap s.views

def underlays (s : SceneView) : List ItemView :=
  s.underlayViews.filterMap s.views

def shouldRenderItem (s : SceneView) (scene : Scene) (item : Nat) : Bool :=
  !s.exclusive.any (·.shouldRenderItem scene item)

def shouldRenderHole (s : SceneView) (scene : Scene) (item : Nat) : Bool :=
  s.underlays.any (·.shouldRenderItem scene item)

def paint (s : SceneView) (scene : Scene) : List RenderNode :=
  scene.items.flatMap fun item =>
    item.createRenderNode (fun item => !s.shouldRenderItem scene item) (s.shouldRenderHole scene ·)

end SceneView
end KWin
