import Mathlib.Data.List.Sort
import PlasmaModel.Region.RectF

namespace KWin

inductive OutputLayerType
  | primary
  | cursorOnly
  | efficientOverlay
  | genericLayer
deriving DecidableEq

-- What assigning an item to a layer leaves as it is.
structure OutputLayer where
  type             : OutputLayerType
  minZpos          : Int
  maxZpos          : Int
  recommendedSizes : List Size
  zposRange        : minZpos ≤ maxZpos

-- The positions are those of the item and of its ancestors, from the item upwards.
structure LayerItem where
  isCursorItem : Bool
  positions    : List PointF
  rect         : RectF
  boundingRect : RectF

structure LayerView where
  viewport : RectF
  scale    : ℚ

namespace LayerItem

def mapToView (item : LayerItem) (rect : RectF) (view : LayerView) : RectF :=
  item.positions.foldl (fun ret position => ret.translated (snapToPixels position view.scale)) rect

def deviceRect (item : LayerItem) (sceneView : LayerView) (compositingAllowed : Bool) : Rect :=
  let sceneRect := item.mapToView (if compositingAllowed then item.boundingRect else item.rect) sceneView
  let offset : PointF := ⟨-sceneView.viewport.left, -sceneView.viewport.top⟩
  ((sceneRect.translated offset).scaled sceneView.scale).rounded

end LayerItem

namespace OutputLayer

def hasFittingSize (layer : OutputLayer) (item : LayerItem) (sceneView : LayerView) : Bool :=
  let compositingAllowed := item.isCursorItem
  let deviceRect := item.deviceRect sceneView compositingAllowed
  layer.recommendedSizes.any fun size =>
    if compositingAllowed then
      deviceRect.size.width ≤ size.width && deviceRect.size.height ≤ size.height
    else
      deviceRect.size = size

-- The layer can take the item, whatever the zpos that it has to be at.
def accepts (layer : OutputLayer) (item : LayerItem) (sceneView : LayerView) : Bool :=
  !(layer.type = .cursorOnly && !item.isCursorItem) &&
    (layer.recommendedSizes.isEmpty || layer.hasFittingSize item sceneView)

end OutputLayer

-- The objects behind the pointers to the layers and the items.
structure Backend (Layer Item : Type) where
  layer : Layer → OutputLayer
  item  : Item → LayerItem

section

variable {Layer Item : Type} [DecidableEq Layer]

structure Assignment (Layer Item : Type) where
  zpos : Layer → Int
  ret  : List (Layer × Item) := []

namespace Assignment

def setZpos (a : Assignment Layer Item) (layer : Layer) (zpos : Int) : Assignment Layer Item :=
  { a with zpos := fun l => if l = layer then zpos else a.zpos l }

-- The order of the list is the iteration order of the unordered map.
def erase (a : Assignment Layer Item) (layer : Layer) : Assignment Layer Item :=
  { a with ret := a.ret.filter (·.1 ≠ layer) }

def assign (a : Assignment Layer Item) (layer : Layer) (item : Item) : Assignment Layer Item :=
  { a with ret := (layer, item) :: (a.erase layer).ret }

def layers (a : Assignment Layer Item) : List Layer :=
  a.ret.map Prod.fst

def item? (a : Assignment Layer Item) (layer : Layer) : Option Item :=
  (a.ret.find? (·.1 = layer)).map Prod.snd

def sortedLayers (a : Assignment Layer Item) : List Layer :=
  a.layers.insertionSort (a.zpos · ≤ a.zpos ·)

end Assignment

variable (backend : Backend Layer Item) (sceneView : LayerView)

def findLayer (layers : List Layer) (type : OutputLayerType) : Option Layer :=
  layers.find? fun layer => (backend.layer layer).type = type

-- Each iteration of the loop moves on to the next layer.
def assignTopDown : List Item → List Layer → (zpos : Int) → Assignment Layer Item → Option (Assignment Layer Item)
  | [], _, _, a => some a
  | _ :: _, [], _, _ => none
  | item :: items, layer :: layers, zpos, a =>
    let nextZpos := min zpos (backend.layer layer).maxZpos
    if (backend.layer layer).minZpos > nextZpos then
      assignTopDown (item :: items) layers zpos a
    else if !(backend.layer layer).accepts (backend.item item) sceneView then
      assignTopDown (item :: items) layers zpos a
    else
      assignTopDown items layers (nextZpos - 1) ((a.setZpos layer nextZpos).assign layer item)

def primaryUsed (a : Assignment Layer Item) : Bool :=
  a.ret.any fun pair => (backend.layer pair.1).type = .primary

-- The first of the sorted layers for which the primary layer has to fit in between the previous and the next one.
def findPlace (primary : OutputLayer) (zpos : Layer → Int) (previous : Option Layer) : List Layer → Option Layer
  | [] => none
  | layer :: rest =>
    if previous.any (primary.maxZpos < zpos ·) then
      findPlace primary zpos (some layer) rest
    else if rest.head?.any (primary.minZpos > zpos ·) then
      findPlace primary zpos (some layer) rest
    else
      some layer

def swapIn (a : Assignment Layer Item) (primary place : Layer) : Option (Assignment Layer Item) :=
  let layer := backend.layer primary
  -- This is `std::clamp`.
  let a := a.setZpos primary (max layer.minZpos (min (a.zpos place) layer.maxZpos))
  (a.item? place).map fun item => (a.erase place).assign primary item

-- The `zpos` of all layers is kept between the calls.
def assignLayers (items : List Item) (layers : List Layer) (zpos : Layer → Int) : Option (Assignment Layer Item) :=
  match layers, items with
  | [], _ => none
  | _, [] => none
  | first :: _, _ :: _ => do
    let a ← assignTopDown backend sceneView items layers (backend.layer first).maxZpos { zpos }
    if primaryUsed backend a then
      return a
    let primary ← findLayer backend layers .primary
    let place ← findPlace (backend.layer primary) a.zpos none a.sortedLayers
    swapIn backend a primary place

end

end KWin
