import Mathlib.Algebra.BigOperators.Group.List.Basic
import Mathlib.Data.List.Sort
import PlasmaModel.Lib.Forest
import PlasmaModel.Lib.ListMove
import PlasmaModel.Region.RectF

-- Items by the places where their data are kept, with what each of them has cached of the items around it.
namespace KWin

-- What is used of `QTransform`.
class Transform (T : Type) extends Monoid T where
  fromTranslate      : PointF → T
  mapRect            : T → RectF → RectF
  fromTranslate_zero : fromTranslate ⟨0, 0⟩ = 1

structure Items (T : Type) where
  count                : Nat
  scene                : Nat → Option Nat
  parentItem           : Nat → Option Nat
  childItems           : Nat → List Nat
  position             : Nat → PointF
  size                 : Nat → SizeF
  transform            : Nat → T
  z                    : Nat → Int
  explicitVisible      : Nat → Bool
  effectiveVisible     : Nat → Bool
  boundingRect         : Nat → RectF
  itemToSceneTransform : Nat → T
  sortedChildItems     : Nat → Option (List Nat)

namespace Items

open Function Transform

variable {T : Type} [Transform T] [DecidableEq T]

-- Items as they are constructed, those that are the root of a scene being told so.
def constructed (count : Nat) (scene : Nat → Option Nat) : Items T where
  count
  scene
  parentItem           := fun _ => none
  childItems           := fun _ => []
  position             := fun _ => ⟨0, 0⟩
  size                 := fun _ => ⟨0, 0⟩
  transform            := fun _ => 1
  z                    := fun _ => 0
  explicitVisible      := fun _ => true
  effectiveVisible     := fun _ => true
  boundingRect         := fun _ => {}
  itemToSceneTransform := fun _ => 1
  sortedChildItems     := fun _ => none

variable (s : Items T) (i : Nat)

def rect : RectF :=
  ⟨0, 0, (s.size i).width, (s.size i).height⟩

def boundsInParent (boundingRect : Nat → RectF) (child : Nat) : RectF :=
  (mapRect (s.transform child) (boundingRect child)).translated (s.position child)

def childrenUnion (boundingRect : Nat → RectF) (i : Nat) : RectF :=
  (s.childItems i).foldl (fun r child => r.united (s.boundsInParent boundingRect child)) (s.rect i)

def updateBoundingRect : Items T :=
  { s with boundingRect := Forest.pull s.parentItem s.childrenUnion (s.count + 1) i s.boundingRect }

def markSortedChildItemsDirty : Items T :=
  { s with sortedChildItems := update s.sortedChildItems i none }

-- Before those of the items above it.
def localTransform : T :=
  if s.position i = ⟨0, 0⟩ then
    s.transform i
  else
    s.transform i * fromTranslate (s.position i)

def toScene (itemToSceneTransform : Nat → T) (i : Nat) : T :=
  match s.parentItem i with
  | none   => s.localTransform i
  | some p => s.localTransform i * itemToSceneTransform p

def updateItemToSceneTransform : Items T :=
  { s with itemToSceneTransform := Forest.push s.childItems s.toScene false (s.count + 1) i s.itemToSceneTransform }

def computeEffectiveVisibility (effectiveVisible : Nat → Bool) (i : Nat) : Bool :=
  s.explicitVisible i && (s.parentItem i).all effectiveVisible

def updateEffectiveVisibility : Items T :=
  { s with effectiveVisible :=
      Forest.push s.childItems s.computeEffectiveVisibility true (s.count + 1) i s.effectiveVisible }

def setScene (scene : Option Nat) : Items T :=
  { s with scene := Forest.push s.childItems (fun _ _ => scene) true (s.count + 1) i s.scene }

-- Whenever the children are others, or in another order, the sorted ones are dirty.
def withChildItems (items : List Nat) : Items T :=
  markSortedChildItemsDirty { s with childItems := update s.childItems i items } i

def addChild (item : Nat) : Items T :=
  updateBoundingRect (s.withChildItems i (s.childItems i ++ [item])) i

def removeChild (item : Nat) : Items T :=
  updateBoundingRect (s.withChildItems i ((s.childItems i).erase item)) i

def setParentItem (item : Option Nat) : Items T :=
  if s.parentItem i = item then
    s
  else
    let s := (s.parentItem i).elim s fun p => s.removeChild p i
    let s := { s with parentItem := update s.parentItem i item }
    let s := s.setScene i (item.elim none s.scene)
    let s := item.elim s fun p => s.addChild p i
    (s.updateItemToSceneTransform i).updateEffectiveVisibility i

def setVisible (visible : Bool) : Items T :=
  if s.explicitVisible i ≠ visible then
    updateEffectiveVisibility { s with explicitVisible := update s.explicitVisible i visible } i
  else
    s

def updateParentBoundingRect : Items T :=
  (s.parentItem i).elim s s.updateBoundingRect

def setPosition (point : PointF) : Items T :=
  if s.position i ≠ point then
    let s := updateItemToSceneTransform { s with position := update s.position i point } i
    s.updateParentBoundingRect i
  else
    s

def setSize (size : SizeF) : Items T :=
  if s.size i ≠ size then
    updateBoundingRect { s with size := update s.size i size } i
  else
    s

def setTransform (transform : T) : Items T :=
  if s.transform i = transform then
    s
  else
    let s := updateItemToSceneTransform { s with transform := update s.transform i transform } i
    s.updateParentBoundingRect i

def setZ (z : Int) : Items T :=
  if s.z i = z then
    s
  else
    let s := { s with z := update s.z i z }
    (s.parentItem i).elim s s.markSortedChildItemsDirty

def stackBefore (sibling : Option Nat) : Items T :=
  match sibling, sibling.bind s.parentItem with
  | some sibling, some p =>
    if s.parentItem i ≠ some p ∨ sibling = i then
      s
    else
      let selfIndex := (s.childItems p).idxOf i
      let siblingIndex := (s.childItems p).idxOf sibling
      if selfIndex + 1 = siblingIndex then
        s
      else
        let index := if selfIndex > siblingIndex then siblingIndex else siblingIndex - 1
        s.withChildItems p (ListMove.moveIdx selfIndex index (s.childItems p))
  | _, _ => s

def stackAfter (sibling : Option Nat) : Items T :=
  match sibling, sibling.bind s.parentItem with
  | some sibling, some p =>
    if s.parentItem i ≠ some p ∨ sibling = i then
      s
    else
      let selfIndex := (s.childItems p).idxOf i
      let siblingIndex := (s.childItems p).idxOf sibling
      if selfIndex = siblingIndex + 1 then
        s
      else
        let index := if selfIndex > siblingIndex then siblingIndex + 1 else siblingIndex
        s.withChildItems p (ListMove.moveIdx selfIndex index (s.childItems p))
  | _, _ => s

def stableSort (items : List Nat) : List Nat :=
  items.insertionSort fun a b => s.z a ≤ s.z b

def getSortedChildItems : List Nat :=
  (s.sortedChildItems i).getD (s.stableSort (s.childItems i))

-- Whoever asks for the sorted children leaves them in the cache.
def sortChildItems : Items T :=
  { s with sortedChildItems := update s.sortedChildItems i (some (s.getSortedChildItems i)) }

inductive Call (T : Type)
  | setParentItem (item : Option Nat)
  | setVisible (visible : Bool)
  | setPosition (point : PointF)
  | setSize (size : SizeF)
  | setTransform (transform : T)
  | setZ (z : Int)
  | stackBefore (sibling : Option Nat)
  | stackAfter (sibling : Option Nat)
  | sortedChildItems

def call : Call T → Items T
  | .setParentItem item     => s.setParentItem i item
  | .setVisible visible     => s.setVisible i visible
  | .setPosition point      => s.setPosition i point
  | .setSize size           => s.setSize i size
  | .setTransform transform => s.setTransform i transform
  | .setZ z                 => s.setZ i z
  | .stackBefore sibling    => s.stackBefore i sibling
  | .stackAfter sibling     => s.stackAfter i sibling
  | .sortedChildItems       => s.sortChildItems i

def step (s : Items T) (event : Nat × Call T) : Option (Items T) :=
  some (s.call event.1 event.2)

-- Nothing is put below itself.
def Allowed (s : Items T) (event : Nat × Call T) : Prop :=
  event.1 < s.count ∧ ∀ p, event.2 = .setParentItem (some p) → p < s.count ∧ ¬Forest.AboveOrSelf s.parentItem p event.1

end Items
end KWin
