import PlasmaModel.Tiles.CustomTile

namespace KWin

-- Tiles that were taken out of the layout of an output. They are to be deleted.
structure RemovedTile (Output Desktop Window : Type) where
  output  : Output
  desktop : Desktop
  tiles   : Tiles Window

-- The tile managers of all outputs.
structure TileManagers (Output Desktop Window : Type) where
  rootTile      : Output → Desktop → Tiles Window
  quickRootTile : Output → Desktop → Tiles Window
  removed       : List (RemovedTile Output Desktop Window) := []

inductive TileAt (Output Desktop : Type)
  | custom (output : Output) (desktop : Desktop) (path : List Nat)
  | quick (output : Output) (desktop : Desktop) (path : List Nat)
  | removed (index : Nat) (path : List Nat)

-- What the windows are like, and how far from the center of a tile they are. A tile that does not contain the
-- center of the window is farther off.
structure WindowSystem (Output Desktop Window : Type) where
  isResizable   : Window → Bool
  isAppletPopup : Window → Bool
  isOnDesktop   : Window → Desktop → Bool
  distance      : TileManagers Output Desktop Window → Output → RectF → Window → ℚ

variable {Output Desktop Window : Type} [DecidableEq Output] [DecidableEq Desktop] [DecidableEq Window]

namespace TileManagers

def setRootTile (tm : TileManagers Output Desktop Window) (output : Output) (desktop : Desktop) (t : Tiles Window) :
    TileManagers Output Desktop Window :=
  { tm with rootTile := fun o d => if o = output ∧ d = desktop then t else tm.rootTile o d }

omit [DecidableEq Window] in
@[simp] theorem rootTile_setRootTile {tm : TileManagers Output Desktop Window} {output : Output} {desktop : Desktop}
    {t : Tiles Window} : (tm.setRootTile output desktop t).rootTile output desktop = t :=
  if_pos ⟨rfl, rfl⟩

def tile? (tm : TileManagers Output Desktop Window) : TileAt Output Desktop → Option (Desktop × Tile Window)
  | .custom output desktop p => (RoseTree.value? (tm.rootTile output desktop) p).map (desktop, ·)
  | .quick output desktop p => (RoseTree.value? (tm.quickRootTile output desktop) p).map (desktop, ·)
  | .removed i p => tm.removed[i]?.bind fun r => (RoseTree.value? r.tiles p).map (r.desktop, ·)

def setWindows (tm : TileManagers Output Desktop Window) (f : List Window → List Window) :
    TileAt Output Desktop → TileManagers Output Desktop Window
  | .custom output desktop p =>
    tm.setRootTile output desktop
      ((tm.rootTile output desktop).modifyValue (fun tile => { tile with windows := f tile.windows }) p)
  | .quick output desktop p =>
    { tm with
      quickRootTile := fun o d =>
        if o = output ∧ d = desktop then
          (tm.quickRootTile o d).modifyValue (fun tile => { tile with windows := f tile.windows }) p
        else
          tm.quickRootTile o d
    }
  | .removed i p =>
    { tm with
      removed := tm.removed.modify i fun r =>
        { r with tiles := r.tiles.modifyValue (fun tile => { tile with windows := f tile.windows }) p }
    }

-- Makes the tiles of a desktop forget a window, on all outputs.
def evacuate (tm : TileManagers Output Desktop Window) (desktop : Desktop) (window : Window) :
    TileManagers Output Desktop Window :=
  let remove := RoseTree.map fun tile : Tile Window => { tile with windows := tile.windows.erase window }
  { tm with
    rootTile := fun o d => if d = desktop then remove (tm.rootTile o d) else tm.rootTile o d
    quickRootTile := fun o d => if d = desktop then remove (tm.quickRootTile o d) else tm.quickRootTile o d
  }

-- There can be only one window owner per root tile.
def manage (system : WindowSystem Output Desktop Window) (tm : TileManagers Output Desktop Window)
    (tile : TileAt Output Desktop) (window : Window) : TileManagers Output Desktop Window :=
  match tm.tile? tile with
  | none => tm
  | some (desktop, { windows, .. }) =>
    if !system.isResizable window || system.isAppletPopup window then
      tm
    else if window ∈ windows then
      tm
    else if !system.isOnDesktop window desktop then
      tm
    else
      (tm.evacuate desktop window).setWindows (· ++ [window]) tile

def unmanage (tm : TileManagers Output Desktop Window) (tile : TileAt Output Desktop) (window : Window) :
    TileManagers Output Desktop Window :=
  tm.setWindows (·.erase window) tile

def forget (tm : TileManagers Output Desktop Window) (tile : TileAt Output Desktop) (window : Window) :
    TileManagers Output Desktop Window :=
  tm.setWindows (·.erase window) tile

-- The nearest tile that is no layout, and the first of these.
def nearest (distance : RectF → ℚ) (t : Tiles Window) : Option (List Nat) :=
  (t.paths.filter (t.childCount · = 0)).foldl
    (fun nearest p =>
      match nearest with
      | none => some p
      | some q => if distance (t.relativeGeometry p) < distance (t.relativeGeometry q) then some p else some q)
    none

def pick (system : WindowSystem Output Desktop Window) (tm : TileManagers Output Desktop Window) (output : Output)
    (desktop : Desktop) (window : Window) : Option (TileAt Output Desktop) :=
  (nearest (system.distance tm output · window) (tm.rootTile output desktop)).map (.custom output desktop)

-- Windows of a tile that is a layout now go to the tiles in the layout.
def moveWindows (system : WindowSystem Output Desktop Window) (output : Output) (desktop : Desktop) (p : List Nat) :
    List Window → TileManagers Output Desktop Window → TileManagers Output Desktop Window
  | [], tm => tm
  | window :: windows, tm =>
    let tile := tm.pick system output desktop window
    let tm := tm.unmanage (.custom output desktop p) window
    moveWindows system output desktop p windows (tile.elim tm (tm.manage system · window))

-- Windows of a tile that is gone.
def adoptWindows (system : WindowSystem Output Desktop Window) (output : Output) (desktop : Desktop) :
    List Window → TileManagers Output Desktop Window → TileManagers Output Desktop Window
  | [], tm => tm
  | window :: windows, tm =>
    adoptWindows system output desktop windows
      ((tm.pick system output desktop window).elim tm (tm.manage system · window))

def createChildAt (system : WindowSystem Output Desktop Window) (fuel : Nat) (tm : TileManagers Output Desktop Window)
    (output : Output) (desktop : Desktop) (p : List Nat) (relativeGeometry : RectF) (layoutDirection : LayoutDirection)
    (position : Nat) : Option (TileManagers Output Desktop Window) := do
  let t := tm.rootTile output desktop
  let wasEmpty := t.childCount p = 0
  let tm := tm.setRootTile output desktop (← t.createChildAt fuel p relativeGeometry layoutDirection position)
  some (if wasEmpty then moveWindows system output desktop p (t.windows p) tm else tm)

-- The part of a floating geometry in its layout.
def clipped (geom layout : RectF) : RectF where
  left   := max geom.left layout.left
  top    := max geom.top layout.top
  right  := min geom.right layout.right
  bottom := min geom.bottom layout.bottom

-- Next to a tile, in the layout the tile is in.
def splitLayout (system : WindowSystem Output Desktop Window) (fuel : Nat) (tm : TileManagers Output Desktop Window)
    (output : Output) (desktop : Desktop) (row : Nat) (parent : List Nat) (newDirection : LayoutDirection) :
    Option (TileManagers Output Desktop Window) :=
  -- Add a new cell to the current layout
  let t := (tm.rootTile output desktop).setLayoutDirection (row :: parent) newDirection
  let geom := t.relativeGeometry (row :: parent)
  match newDirection with
  | .floating =>
    let newGeo := clipped (.ofSize (geom.left + 1 / 10) (geom.top + 1 / 10) (3 / 10) (2 / 10)) (t.relativeGeometry parent)
    (tm.setRootTile output desktop t).createChildAt system fuel output desktop parent newGeo newDirection (row + 1)
  | .horizontal =>
    let newGeo := geom.setWidth (geom.width / 2)
    (tm.setRootTile output desktop (t.setTileGeometry (row :: parent) newGeo)).createChildAt system fuel output desktop
      parent (newGeo.moveLeft (newGeo.left + newGeo.width)) newDirection (row + 1)
  | .vertical =>
    let newGeo := geom.setHeight (geom.height / 2)
    (tm.setRootTile output desktop (t.setTileGeometry (row :: parent) newGeo)).createChildAt system fuel output desktop
      parent (newGeo.moveTop (newGeo.top + newGeo.height)) newDirection (row + 1)

-- Inside of a tile, which is a new layout then.
def splitTile (system : WindowSystem Output Desktop Window) (fuel : Nat) (tm : TileManagers Output Desktop Window)
    (output : Output) (desktop : Desktop) (p : List Nat) (newDirection : LayoutDirection) :
    Option (TileManagers Output Desktop Window) :=
  let t := (tm.rootTile output desktop).setLayoutDirection p newDirection
  let geom := t.relativeGeometry p
  let createLast (tm : TileManagers Output Desktop Window) (newGeo : RectF) : Option (TileManagers Output Desktop Window) :=
    tm.createChildAt system fuel output desktop p newGeo newDirection ((tm.rootTile output desktop).childCount p)
  match newDirection with
  | .floating =>
    -- Do a new layout with one floating tile inside
    let startGeom := if t.childCount p = 0 then geom else t.relativeGeometry ((t.childCount p - 1) :: p)
    createLast (tm.setRootTile output desktop t)
      (clipped (.ofSize (startGeom.left + 5 / 100) (startGeom.top + 5 / 100) (3 / 10) (25 / 100)) geom)
  | .horizontal => do
    -- Do a new layout with 2 cells inside this one
    let newGeo := geom.setWidth (geom.width / 2)
    createLast (← createLast (tm.setRootTile output desktop t) newGeo) (newGeo.moveLeft (newGeo.left + newGeo.width))
  | .vertical => do
    let newGeo := geom.setHeight (geom.height / 2)
    createLast (← createLast (tm.setRootTile output desktop t) newGeo) (newGeo.moveTop (newGeo.top + newGeo.height))

-- A root tile always gets children, not siblings.
def split (system : WindowSystem Output Desktop Window) (fuel : Nat) (tm : TileManagers Output Desktop Window)
    (output : Output) (desktop : Desktop) (p : List Nat) (newDirection : LayoutDirection) :
    Option (TileManagers Output Desktop Window) :=
  match p with
  | [] => tm.splitTile system fuel output desktop [] newDirection
  | row :: parent =>
    let t := tm.rootTile output desktop
    if t.childCount parent < 2 ∨ t.layoutDirection parent = newDirection then
      tm.splitLayout system fuel output desktop row parent newDirection
    else
      tm.splitTile system fuel output desktop (row :: parent) newDirection

-- The neighbours of a tile that was removed from this row share its area.
def fillGap (fuel : Nat) (t : Tiles Window) (parent : List Nat) (row : Nat) (geom : RectF) (start : Edge) :
    Option (Tiles Window) :=
  let resize (t : Tiles Window) (row : Nat) (edge : Edge) (v : ℚ) : Option (Tiles Window) :=
    t.setRelativeGeometry fuel (row :: parent) ((t.relativeGeometry (row :: parent)).setEdge edge v)
  if 0 < row ∧ row < t.childCount parent then do
    let t ← resize t (row - 1) start.opposite (geom.center start)
    resize t row start (geom.center start)
  else if 0 < row then
    resize t (row - 1) start.opposite (geom.edge start.opposite)
  else if row < t.childCount parent then
    resize t row start (geom.edge start)
  else
    some t

-- Takes a tile out of the tree.
def takeTile (fuel : Nat) (t : Tiles Window) (row : Nat) (parent : List Nat) : Option (Tiles Window) :=
  let geom := t.relativeGeometry (row :: parent)
  let t : Tiles Window := t.modify (fun n => .node n.value (n.children.eraseIdx row)) parent
  match t.layoutDirection parent with
  | .horizontal => fillGap fuel t parent row geom .left
  | .vertical => fillGap fuel t parent row geom .top
  | .floating => some t

def addRemoved (tm : TileManagers Output Desktop Window) (output : Output) (desktop : Desktop) (tile : Tiles Window) :
    TileManagers Output Desktop Window :=
  { tm with
    removed := tm.removed.concat { output, desktop, tiles := .node { tile.value with windows := [] } tile.children }
  }

-- On linear layouts remove the last one and promote the layout as leaf. The last tile has no neighbours.
def removeLast (system : WindowSystem Output Desktop Window) (tm : TileManagers Output Desktop Window)
    (output : Output) (desktop : Desktop) (parent : List Nat) : TileManagers Output Desktop Window :=
  let t := tm.rootTile output desktop
  match t.subtree? (0 :: parent) with
  | none => tm
  | some tile =>
    if parent ≠ [] ∧ t.childCount parent = 1 ∧ t.layoutDirection parent ≠ .floating ∧ tile.children.length = 0 then
      ((tm.setRootTile output desktop (t.modify (fun n => .node n.value (n.children.eraseIdx 0)) parent)).adoptWindows
        system output desktop tile.value.windows).addRemoved output desktop tile
    else
      tm

def remove (system : WindowSystem Output Desktop Window) (fuel : Nat) (tm : TileManagers Output Desktop Window)
    (output : Output) (desktop : Desktop) (p : List Nat) : Option (TileManagers Output Desktop Window) :=
  match p with
  | [] => some tm
  | row :: parent =>
    match (tm.rootTile output desktop).subtree? (row :: parent) with
    | none => some tm
    | some tile => do
      let t ← takeTile fuel (tm.rootTile output desktop) row parent
      let tm := (tm.setRootTile output desktop t).removeLast system output desktop parent
      some ((tm.adoptWindows system output desktop tile.value.windows).addRemoved output desktop tile)

-- A removed tile is deleted at last, and the tiles in it are.
def delete (system : WindowSystem Output Desktop Window) (tm : TileManagers Output Desktop Window) (i : Nat) :
    TileManagers Output Desktop Window :=
  match tm.removed[i]? with
  | none => tm
  | some r =>
    { tm with removed := tm.removed.eraseIdx i }.adoptWindows system r.output r.desktop
      (r.tiles.preorder.flatMap Tile.windows)

end TileManagers

inductive TileEvent (Output Desktop Window : Type)
  | manage (tile : TileAt Output Desktop) (window : Window)
  | unmanage (tile : TileAt Output Desktop) (window : Window)
  | forget (tile : TileAt Output Desktop) (window : Window)
  | split (output : Output) (desktop : Desktop) (path : List Nat) (newDirection : LayoutDirection)
  | remove (output : Output) (desktop : Desktop) (path : List Nat)
  | delete (index : Nat)

namespace TileManagers

-- An event at a time when the windows are like in `system`.
def handle (system : WindowSystem Output Desktop Window) (fuel : Nat) (tm : TileManagers Output Desktop Window) :
    TileEvent Output Desktop Window → Option (TileManagers Output Desktop Window)
  | .manage tile window => some (tm.manage system tile window)
  | .unmanage tile window => some (tm.unmanage tile window)
  | .forget tile window => some (tm.forget tile window)
  | .split output desktop p newDirection => tm.split system fuel output desktop p newDirection
  | .remove output desktop p => tm.remove system fuel output desktop p
  | .delete i => some (tm.delete system i)

-- The tile managers there are after a sequence of events that satisfy `P`. Meanwhile the windows change.
inductive Reachable (init : TileManagers Output Desktop Window → Prop)
    (P : TileManagers Output Desktop Window → TileEvent Output Desktop Window → Prop) :
    TileManagers Output Desktop Window → Prop
  | init {tm} : init tm → Reachable init P tm
  | handle {tm tm' event system fuel} : Reachable init P tm → P tm event → tm.handle system fuel event = some tm' →
      Reachable init P tm'

-- There are layouts, but no windows yet.
def NoWindows (tm : TileManagers Output Desktop Window) : Prop :=
  tm.removed = [] ∧ ∀ output desktop, (∀ tile ∈ (tm.rootTile output desktop).preorder, tile.windows = []) ∧
    ∀ tile ∈ (tm.quickRootTile output desktop).preorder, tile.windows = []

end TileManagers
end KWin
