import PlasmaModel.Tiles.CustomTile

namespace KWin

-- Numbers are exact.
inductive Json
  | double (d : ℚ)
  | string (s : String)
  | array (values : List Json)
  | object (fields : List (String × Json))

namespace Json

-- The field of an object, if it is one and has it.
def value? (key : String) : Json → Option Json
  | object fields => fields.lookup key
  | _ => none

theorem sizeOf_lt_of_lookup {key : String} {v : Json} : ∀ {fields : List (String × Json)}, fields.lookup key = some v →
    sizeOf v < sizeOf fields
  | (k, w) :: fields, h => by
    rw [List.lookup_cons] at h
    split at h
    case h_1 =>
      cases h
      simp only [List.cons.sizeOf_spec, Prod.mk.sizeOf_spec]
      omega
    case h_2 =>
      have := sizeOf_lt_of_lookup h
      simp only [List.cons.sizeOf_spec]
      omega

def double? (key : String) (val : Json) : Option ℚ :=
  match val.value? key with
  | some (double d) => some d
  | _ => none

def string? (key : String) (val : Json) : String :=
  match val.value? key with
  | some (string s) => s
  | _ => ""

end Json

namespace LayoutDirection

def toString : LayoutDirection → String
  | horizontal => "horizontal"
  | vertical => "vertical"
  | floating => "floating"

end LayoutDirection

def strToLayoutDirection (dir : String) : LayoutDirection :=
  if dir = "horizontal" then .horizontal else if dir = "vertical" then .vertical else .floating

namespace Tiles

variable {Window : Type}

-- The size of a tile in the layout of its parent.
def sizeToJSon (geom : RectF) : Option LayoutDirection → List (String × Json)
  | none => []
  | some .horizontal => [("width", .double geom.width)]
  | some .vertical => [("height", .double geom.height)]
  | some .floating =>
    [("x", .double geom.left), ("y", .double geom.top), ("width", .double geom.width), ("height", .double geom.height)]

mutual

def tileToJSon (parent : Option LayoutDirection) : Tiles Window → Json
  | .node tile children =>
    .object (sizeToJSon tile.relativeGeometry parent ++
      if children.isEmpty && parent.isSome then
        []
      else
        [("layoutDirection", .string tile.layoutDirection.toString),
          ("tiles", .array (tilesToJSon tile.layoutDirection children))])

def tilesToJSon (parent : LayoutDirection) : List (Tiles Window) → List Json
  | [] => []
  | tile :: tiles => tileToJSon (some parent) tile :: tilesToJSon parent tiles

end

-- The area of a tile in the layout of its parent, out of what is left there.
def parseGeometry (val : Json) (availableArea : RectF) : LayoutDirection → RectF
  | .horizontal =>
    match val.double? "width" with
    | some width => availableArea.setWidth (min width availableArea.width)
    | none => availableArea
  | .vertical =>
    match val.double? "height" with
    | some height => availableArea.setHeight (min height availableArea.height)
    | none => availableArea
  | .floating =>
    .ofSize ((val.double? "x").getD 0) ((val.double? "y").getD 0) ((val.double? "width").getD 0)
      ((val.double? "height").getD 0)

-- What is left for the next tile.
def remainingArea (avail geom : RectF) : LayoutDirection → RectF
  | .horizontal => { avail with left := geom.right }
  | .vertical => { avail with top := geom.bottom }
  | .floating => avail

-- Makes sure the children fill exactly the parent, eventually enlarging the last.
def enlargeLast (fuel : Nat) (t : Tiles Window) (parentTile : List Nat) : Option (Tiles Window) :=
  if t.layoutDirection parentTile = .floating || t.childCount parentTile = 0 then
    some t
  else
    let last := (t.childCount parentTile - 1) :: parentTile
    setRelativeGeometry fuel t last { t.relativeGeometry last with right := (t.relativeGeometry parentTile).right }

mutual

-- Returns the created tile, too.
def parseTilingJSon (fuel : Nat) (val : Json) (availableArea : RectF) (t : Tiles Window) (parentTile : List Nat) :
    Option (Tiles Window × Option (List Nat)) :=
  if availableArea.isEmpty then
    some (t, none)
  else
    match val with
    | .object fields => do
      let rect := parseGeometry (.object fields) availableArea (t.layoutDirection parentTile)
      if rect.isEmpty then
        some (t, none)
      else
        let createdTile := t.childCount parentTile :: parentTile
        let t ← createChildAt fuel t parentTile rect (t.layoutDirection parentTile) (t.childCount parentTile)
        -- It's a layout
        match h : fields.lookup "tiles" with
        | some (.array arr) =>
          if arr.isEmpty then
            some (t, some createdTile)
          else
            let t := setLayoutDirection t createdTile
              (strToLayoutDirection (Json.string? "layoutDirection" (.object fields)))
            let t ← parseTiles fuel arr (relativeGeometry t createdTile) t createdTile
            some (t, some createdTile)
        | _ => some (t, some createdTile)
    | .array arr => do
      let t ← parseTiles fuel arr availableArea t parentTile
      some (t, none)
    | _ => some (t, none)
termination_by (sizeOf val, 0)
decreasing_by
  · have := Json.sizeOf_lt_of_lookup h
    simp only [Json.object.sizeOf_spec, Json.array.sizeOf_spec] at this ⊢
    exact .left _ _ (by omega)
  · simp only [Json.array.sizeOf_spec]
    exact .left _ _ (by omega)

def parseTiles (fuel : Nat) (arr : List Json) (avail : RectF) (t : Tiles Window) (parentTile : List Nat) :
    Option (Tiles Window) := do
  match arr with
  | [] => enlargeLast fuel t parentTile
  | .object fields :: arr =>
    let (t, tile) ← parseTilingJSon fuel (.object fields) avail t parentTile
    let avail := tile.elim avail fun tile => remainingArea avail (relativeGeometry t tile) (layoutDirection t parentTile)
    parseTiles fuel arr avail t parentTile
  | _ :: arr => parseTiles fuel arr avail t parentTile
termination_by (sizeOf arr, 1)

end

-- Restores the tiles of a root tile from saved settings.
def readSettings (fuel : Nat) (doc : Json) (rootTile : Tiles Window) : Option (Tiles Window) :=
  match doc.value? "tiles" with
  | some (.array arr) =>
    if arr.isEmpty then
      some rootTile
    else do
      let rootTile := rootTile.setLayoutDirection [] (strToLayoutDirection (doc.string? "layoutDirection"))
      let (rootTile, _) ← parseTilingJSon fuel (.array arr) screen rootTile []
      some rootTile
  | _ => some rootTile

end Tiles
end KWin
