import Mathlib.Data.Rat.Defs
import PlasmaModel.Lib.Layers
import PlasmaModel.Lib.RoseTree
import PlasmaModel.Region.Rect

-- The items of a scene with what they keep of their descendants and ancestors, and how they record what has to be
-- painted again.
namespace KWin

-- A view that renders every item, at scale 1.
structure RenderView where
  viewport     : Rect
  renderOffset : Point := 0

namespace RenderView

def deviceRect (view : RenderView) : Rect :=
  .ofSize view.renderOffset view.viewport.size

def mapToDeviceCoordinates (view : RenderView) (rect : Rect) : Rect :=
  (rect.translated (0 - view.viewport.topLeft)).translated view.renderOffset

end RenderView

-- Repaints are recorded by an item or by the scene.
structure Repaint where
  item? : Option Nat
  area  : Rect

-- `scene` says whether the item belongs to the scene or to none. The sorted children of an item are not kept: whatever
-- changes their order drops them.
structure ItemState where
  id               : Nat
  position         : Point := 0
  size             : Size := ⟨0, 0⟩
  opacity          : ℚ := 1
  z                : Int := 0
  explicitVisible  : Bool := true
  effectiveVisible : Bool := true
  boundingRect     : Rect := default
  scene            : Bool := false

namespace ItemState

def rect (item : ItemState) : Rect :=
  .ofSize 0 item.size

def isVisible (item : ItemState) : Bool :=
  item.effectiveVisible

-- Here and below, `origin` is where the parent of the item is in the scene.
def paintedDeviceArea (item : ItemState) (view : RenderView) (origin : Point) (rect : Rect) : Rect :=
  (view.mapToDeviceCoordinates ((rect.translated item.position).translated origin)).intersected view.deviceRect

def record (item? : Option Nat) (dirtyRegion : Rect) : List Repaint :=
  if dirtyRegion.isEmpty then [] else [⟨item?, dirtyRegion⟩]

def scheduleRepaintInternal (item : ItemState) (view : RenderView) (origin : Point) (rect : Rect) : List Repaint :=
  if item.scene then record (some item.id) (item.paintedDeviceArea view origin rect) else []

def scheduleRepaint (item : ItemState) (view : RenderView) (origin : Point) (rect : Rect) : List Repaint :=
  if item.isVisible then item.scheduleRepaintInternal view origin rect else []

def scheduleSceneRepaintInternal (item : ItemState) (view : RenderView) (origin : Point) (rect : Rect) :
    List Repaint :=
  if item.scene then record none (item.paintedDeviceArea view origin rect) else []

def scheduleSceneRepaint (item : ItemState) (view : RenderView) (origin : Point) (rect : Rect) : List Repaint :=
  if item.isVisible then item.scheduleSceneRepaintInternal view origin rect else []

end ItemState

abbrev ItemTree := RoseTree ItemState

namespace ItemTree

-- Where the parent of the item at a path is in the scene.
def origin (t : ItemTree) : List Nat → Point
  | [] => 0
  | _ :: p => t.origin p + (t.value? p).elim 0 (·.position)

-- The bounding rectangle of a child in the coordinates of its parent.
def boundsInParent (child : ItemState) : Rect :=
  child.boundingRect.translated child.position

def boundingRectOf (item : ItemTree) : Rect :=
  item.children.foldl (fun r child => r.united (boundsInParent child.value)) item.value.rect

def updateBoundingRect : List Nat → ItemTree → ItemTree
  | [], t => t.modifyValue (fun item => { item with boundingRect := boundingRectOf t }) []
  | i :: p, t =>
    match t.subtree? (i :: p) with
    | none => t
    | some item =>
      if item.value.boundingRect ≠ boundingRectOf item then
        updateBoundingRect p (t.modifyValue (fun data => { data with boundingRect := boundingRectOf item }) (i :: p))
      else
        t

def scheduleMoveRepaint (view : RenderView) (origin : Point) : ItemTree → List Repaint
  | .node item children =>
    if item.scene && item.isVisible then
      ItemState.record (some item.id) (item.paintedDeviceArea view origin item.rect) ++
        children.attach.flatMap fun ⟨child, _⟩ => scheduleMoveRepaint view (origin + item.position) child
    else
      []
termination_by item => item

def computeEffectiveVisibility (item : ItemState) (parentVisible : Bool) : Bool :=
  item.explicitVisible && parentVisible

-- An item without a parent takes it to be visible.
def updateEffectiveVisibility (view : RenderView) (parentVisible : Bool) (origin : Point) :
    ItemTree → ItemTree × List Repaint
  | .node item children =>
    if item.effectiveVisible = computeEffectiveVisibility item parentVisible then
      (.node item children, [])
    else
      let item := { item with effectiveVisible := computeEffectiveVisibility item parentVisible }
      let repaints :=
        if !item.effectiveVisible then
          item.scheduleSceneRepaintInternal view origin item.boundingRect
        else
          item.scheduleRepaintInternal view origin item.boundingRect
      let updated := children.attach.map fun ⟨child, _⟩ =>
        updateEffectiveVisibility view item.effectiveVisible (origin + item.position) child
      (.node item (updated.map Prod.fst), repaints ++ updated.flatMap Prod.snd)
termination_by item => item

-- Also returns the items that hand over their repaints to the scene they leave.
def setScene (scene : Bool) : ItemTree → ItemTree × List Nat
  | .node item children =>
    if item.scene = scene then
      (.node item children, [])
    else
      let updated := children.attach.map fun ⟨child, _⟩ => setScene scene child
      (.node { item with scene } (updated.map Prod.fst),
        (if item.scene then [item.id] else []) ++ updated.flatMap Prod.snd)
termination_by item => item

def parentVisible (t : ItemTree) : List Nat → Bool
  | [] => true
  | _ :: p => (t.value? p).all (·.isVisible)

def updateEffectiveVisibilityAt (view : RenderView) (p : List Nat) (t : ItemTree) : ItemTree × List Repaint :=
  let update := updateEffectiveVisibility view (t.parentVisible p) (t.origin p)
  (t.modify (fun item => (update item).1) p, (t.subtree? p).elim [] fun item => (update item).2)

def setOpacity (view : RenderView) (opacity : ℚ) (p : List Nat) (t : ItemTree) : ItemTree × List Repaint :=
  match t.value? p with
  | none => (t, [])
  | some item =>
    if item.opacity ≠ opacity then
      (t.modifyValue (fun item => { item with opacity }) p, item.scheduleRepaint view (t.origin p) item.boundingRect)
    else
      (t, [])

def setZ (view : RenderView) (z : Int) (p : List Nat) (t : ItemTree) : ItemTree × List Repaint :=
  match t.value? p with
  | none => (t, [])
  | some item =>
    if item.z = z then
      (t, [])
    else
      (t.modifyValue (fun item => { item with z }) p, item.scheduleSceneRepaint view (t.origin p) item.boundingRect)

def setVisible (view : RenderView) (visible : Bool) (p : List Nat) (t : ItemTree) : ItemTree × List Repaint :=
  match t.value? p with
  | none => (t, [])
  | some item =>
    if item.explicitVisible ≠ visible then
      updateEffectiveVisibilityAt view p (t.modifyValue (fun item => { item with explicitVisible := visible }) p)
    else
      (t, [])

def setSize (view : RenderView) (size : Size) (p : List Nat) (t : ItemTree) : ItemTree × List Repaint :=
  match t.value? p with
  | none => (t, [])
  | some item =>
    if item.size ≠ size then
      (updateBoundingRect p (t.modifyValue (fun item => { item with size }) p),
        item.scheduleRepaint view (t.origin p) item.rect ++
          { item with size }.scheduleRepaint view (t.origin p) { item with size }.rect)
    else
      (t, [])

def updateParentBoundingRect (t : ItemTree) : List Nat → ItemTree
  | [] => t
  | _ :: p => updateBoundingRect p t

def moveRepaintAt (view : RenderView) (p : List Nat) (t : ItemTree) : List Repaint :=
  (t.subtree? p).elim [] (scheduleMoveRepaint view (t.origin p))

def setPosition (view : RenderView) (point : Point) (p : List Nat) (t : ItemTree) : ItemTree × List Repaint :=
  match t.value? p with
  | none => (t, [])
  | some item =>
    if item.position ≠ point then
      let moved := updateParentBoundingRect (t.modifyValue (fun item => { item with position := point }) p) p
      (moved, moveRepaintAt view p t ++ moveRepaintAt view p moved)
    else
      (t, [])

def setChildItems (children : List ItemTree → List ItemTree) (p : List Nat) (t : ItemTree) : ItemTree :=
  t.modify (fun item => .node item.value (children item.children)) p

def addChild (view : RenderView) (child : ItemTree) (p : List Nat) (t : ItemTree) : ItemTree × List Repaint :=
  let grown := updateBoundingRect p (setChildItems (· ++ [child]) p t)
  (grown, (grown.value? p).elim [] (·.scheduleRepaint view (grown.origin p) (boundsInParent child.value)))

def removeChild (view : RenderView) (child : ItemTree) (i : Nat) (p : List Nat) (t : ItemTree) :
    ItemTree × List Repaint :=
  (updateBoundingRect p (setChildItems (·.eraseIdx i) p t),
    (t.value? p).elim [] (·.scheduleRepaint view (t.origin p) (boundsInParent child.value)))

-- Both stackings move the item at `selfIndex` to `target` among its siblings.
def restack (view : RenderView) (selfIndex siblingIndex target : Nat) (p : List Nat) (t : ItemTree) :
    ItemTree × List Repaint :=
  match t.value? (selfIndex :: p), t.value? (siblingIndex :: p) with
  | some item, some sibling =>
    (setChildItems (ListMove.moveIdx selfIndex target) p t,
      item.scheduleSceneRepaint view (t.origin (selfIndex :: p)) item.boundingRect ++
        sibling.scheduleSceneRepaint view (t.origin (siblingIndex :: p)) sibling.boundingRect)
  | _, _ => (t, [])

def stackBefore (view : RenderView) (siblingIndex : Nat) (p : List Nat) (t : ItemTree) : ItemTree × List Repaint :=
  match p with
  | [] => (t, [])
  | selfIndex :: p =>
    if selfIndex = siblingIndex ∨ selfIndex + 1 = siblingIndex then
      (t, [])
    else
      restack view selfIndex siblingIndex (if selfIndex > siblingIndex then siblingIndex else siblingIndex - 1) p t

def stackAfter (view : RenderView) (siblingIndex : Nat) (p : List Nat) (t : ItemTree) : ItemTree × List Repaint :=
  match p with
  | [] => (t, [])
  | selfIndex :: p =>
    if selfIndex = siblingIndex ∨ selfIndex = siblingIndex + 1 then
      (t, [])
    else
      restack view selfIndex siblingIndex (if selfIndex > siblingIndex then siblingIndex + 1 else siblingIndex) p t

def find (id : Nat) (t : ItemTree) : Option (List Nat) :=
  ([] :: t.paths).find? fun p => (t.value? p).any (·.id == id)

end ItemTree

-- The first tree is the one of the root item of the scene, the others do not belong to the scene.
structure ItemForest where
  view     : RenderView
  trees    : List ItemTree
  repaints : List Repaint := []

inductive ItemCall
  | setParentItem (item : Nat) (parent : Option Nat)
  | setVisible (item : Nat) (visible : Bool)
  | setPosition (item : Nat) (point : Point)
  | setSize (item : Nat) (size : Size)
  | setOpacity (item : Nat) (opacity : ℚ)
  | setZ (item : Nat) (z : Int)
  | stackBefore (item sibling : Nat)
  | stackAfter (item sibling : Nat)

namespace ItemForest

-- The root item of the scene and items that have just been created.
def fresh (view : RenderView) (root : Nat) (items : List Nat) : ItemForest where
  view  := view
  trees := .node { id := root, scene := true } [] :: items.map fun id => .node { id } []

def locate (s : ItemForest) (id : Nat) : Option (Nat × List Nat) :=
  s.trees.zipIdx.findSome? fun (t, k) => (ItemTree.find id t).map (k, ·)

def item? (s : ItemForest) (k : Nat) (p : List Nat) : Option ItemTree :=
  s.trees[k]?.bind (·.subtree? p)

def parentId (s : ItemForest) (k : Nat) : List Nat → Option Nat
  | [] => none
  | _ :: p => (s.item? k p).map (·.value.id)

def change (s : ItemForest) (k : Nat) (f : ItemTree → ItemTree × List Repaint) : ItemForest :=
  match s.trees[k]? with
  | none => s
  | some t => { s with trees := s.trees.set k (f t).1, repaints := s.repaints ++ (f t).2 }

def changeItem (s : ItemForest) (id : Nat) (f : List Nat → ItemTree → ItemTree × List Repaint) : ItemForest :=
  match s.locate id with
  | none => s
  | some (k, p) => s.change k (f p)

-- Takes an item out of the tree it is in.
def remove (s : ItemForest) (item : ItemTree) (k : Nat) : List Nat → ItemForest
  | [] => { s with trees := s.trees.eraseIdx k }
  | i :: p => s.change k (ItemTree.removeChild s.view item i p)

def addDeviceRepaints (s : ItemForest) (items : List Nat) : ItemForest :=
  { s with repaints := s.repaints.map fun r => if r.item?.any (· ∈ items) then { r with item? := none } else r }

-- What is left to do in `setParentItem` for an item that has been taken out of its tree.
def attach (s : ItemForest) (item : ItemTree) (k : Nat) (p : List Nat) : ItemForest :=
  let update := ItemTree.setScene ((s.item? k p).any (·.value.scene)) item
  let added := (s.addDeviceRepaints update.2).change k (ItemTree.addChild s.view update.1 p)
  added.change k (ItemTree.updateEffectiveVisibilityAt s.view (((s.item? k p).elim 0 (·.children.length)) :: p))

def detach (s : ItemForest) (item : ItemTree) : ItemForest :=
  let update := ItemTree.setScene false item
  let shown := ItemTree.updateEffectiveVisibilityAt s.view [] update.1
  let s := s.addDeviceRepaints update.2
  { s with trees := s.trees ++ [shown.1], repaints := s.repaints ++ shown.2 }

-- The root item of the scene is given no parent, and no item one of its descendants or itself: they are not found
-- where the item has been taken out.
def setParentItem (s : ItemForest) (id : Nat) (parent : Option Nat) : ItemForest :=
  match s.locate id with
  | none => s
  | some (k, p) =>
    if s.parentId k p = parent ∨ (k = 0 ∧ p = []) then
      s
    else
      match s.item? k p, parent with
      | none, _ => s
      | some item, none => (s.remove item k p).detach item
      | some item, some parent =>
        match (s.remove item k p).locate parent with
        | none => s
        | some (l, q) => (s.remove item k p).attach item l q

-- Items are stacked next to their siblings only.
def stack (s : ItemForest) (stacking : RenderView → Nat → List Nat → ItemTree → ItemTree × List Repaint)
    (id sibling : Nat) : ItemForest :=
  match s.locate id, s.locate sibling with
  | some (k, i :: p), some (l, j :: q) => if k = l ∧ p = q then s.change k (stacking s.view j (i :: p)) else s
  | _, _ => s

def step (s : ItemForest) : ItemCall → ItemForest
  | .setParentItem item parent  => s.setParentItem item parent
  | .setVisible item visible    => s.changeItem item (ItemTree.setVisible s.view visible)
  | .setPosition item point     => s.changeItem item (ItemTree.setPosition s.view point)
  | .setSize item size          => s.changeItem item (ItemTree.setSize s.view size)
  | .setOpacity item opacity    => s.changeItem item (ItemTree.setOpacity s.view opacity)
  | .setZ item z                => s.changeItem item (ItemTree.setZ s.view z)
  | .stackBefore item sibling   => s.stack ItemTree.stackBefore item sibling
  | .stackAfter item sibling    => s.stack ItemTree.stackAfter item sibling

end ItemForest
end KWin

-- What the items of a scene look like, and what they have to know for their repaints to cover every change of it.
namespace KWin

structure PaintedItem where
  item      : Nat
  rect      : Rect
  opacities : List ℚ
deriving DecidableEq

-- As it is painted in the coordinates of the parent.
def ItemState.within (item : ItemState) (painted : PaintedItem) : PaintedItem :=
  { painted with rect := painted.rect.translated item.position, opacities := painted.opacities ++ [item.opacity] }

namespace ItemTree

-- The visible items from bottom to top: the children below zero, the item, the other children.
def paint : ItemTree → List PaintedItem
  | .node item children =>
    if item.isVisible then
      (Layers.layered (fun child => child.val.value.z) (fun ⟨child, _⟩ => paint child) [⟨item.id, item.rect, []⟩]
        children.attach).map item.within
    else
      []
termination_by item => item

def paintAt (pixel : Point) (t : ItemTree) : List PaintedItem :=
  t.paint.filter (·.rect.containsPoint pixel)

structure Flagged (scene : Bool) (item : ItemState) (children : List ItemState) : Prop where
  scene   : item.scene = scene
  visible : ∀ child ∈ children, child.effectiveVisible = computeEffectiveVisibility child item.isVisible

structure Bounding (item : ItemState) (children : List ItemState) : Prop where
  rect     : ∀ pixel ∈ item.rect, pixel ∈ item.boundingRect
  children : ∀ child ∈ children, ∀ pixel ∈ boundsInParent child, pixel ∈ item.boundingRect

abbrev Kept (scene : Bool) (item : ItemState) (children : List ItemState) : Prop :=
  Flagged scene item children ∧ Bounding item children

structure Consistent (scene : Bool) (t : ItemTree) : Prop where
  kept : RoseTree.Forall (Kept scene) t
  root : t.value.effectiveVisible = t.value.explicitVisible

end ItemTree

namespace ItemForest

def paintedAt (s : ItemForest) (pixel : Point) : List PaintedItem :=
  (s.trees.head?.elim [] ItemTree.paint).filter fun painted =>
    (s.view.mapToDeviceCoordinates painted.rect).containsPoint pixel

def Consistent (s : ItemForest) : Prop :=
  ∀ k t, s.trees[k]? = some t → ItemTree.Consistent (k == 0) t

-- A pixel of the device is painted again wherever the repaints recorded on the way from `s` to `s'` do not leave it as
-- it was. The repaints recorded before are kept.
structure Repainted (s s' : ItemForest) : Prop where
  view     : s'.view = s.view
  recorded : ∃ recorded : List Rect, s'.repaints.map Repaint.area = s.repaints.map Repaint.area ++ recorded ∧
    ∀ pixel ∈ s.view.deviceRect, s'.paintedAt pixel ≠ s.paintedAt pixel → ∃ area ∈ recorded, pixel ∈ area

end ItemForest
end KWin
