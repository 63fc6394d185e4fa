import Mathlib.Logic.Function.Basic
import PlasmaModel.Lib.Line
import PlasmaModel.Lib.Runs

namespace KWin

structure VirtualDesktopGrid where
  width  : Nat
  height : Nat
  grid   : List (List Nat)

namespace VirtualDesktopGrid

-- Every row takes its desktops from those the rows above have left.
def gridRows (width : Nat) : Nat → List Nat → List (List Nat)
  | 0, _               => []
  | height + 1, desktops => desktops.take width :: gridRows width height (desktops.drop width)

def update (width height : Nat) (desktops : List Nat) : VirtualDesktopGrid :=
  ⟨width, height, gridRows width height desktops⟩

def at? (g : VirtualDesktopGrid) (x y : Nat) : Option Nat :=
  g.grid[y]?.bind (·[x]?)

end VirtualDesktopGrid

-- The virtual desktops are named by the order in which they have been created. The outputs are those of the workspace.
structure VirtualDesktopManager where
  desktops                 : List Nat := []
  id                       : Nat → String := fun _ => ""
  x11DesktopNumber         : Nat → Nat := fun _ => 0
  nextDesktop              : Nat := 0
  rows                     : Nat := 2
  grid                     : VirtualDesktopGrid := ⟨1, 2, [[], []]⟩
  perOutputVirtualDesktops : Bool := false
  currentDesktops          : List (Nat × Option Nat) := []
  outputs                  : List Nat := []
  activeOutput             : Nat := 0

-- `newId` generates the identifiers of new desktops, `lastDesktop` is what the activities know of the outputs, and
-- `first` is where the entry a hash lists first is found.
inductive DesktopEvent
  | createVirtualDesktop (position : Nat) (newId : String)
  | removeVirtualDesktop (desktop : Nat)
  | removeVirtualDesktopId (id : String)
  | moveVirtualDesktop (desktop : Nat) (position : Int)
  | setCount (count : Nat) (newId : Nat → String)
  | setRows (rows : Nat)
  | setCurrent (desktop : Nat) (output : Option Nat)
  | setCurrentNumber (desktop : Nat) (output : Option Nat)
  | setPerOutputVirtualDesktops (enabled : Bool) (lastDesktop : Option String) (first : Nat)
  | setActiveOutput (output : Nat)
  | updateOutputs (outputs : List Nat) (lastDesktop : Nat → Option String) (first : Nat → Nat)

namespace VirtualDesktopManager

def maximum : Nat := 25

def count (s : VirtualDesktopManager) : Nat :=
  s.desktops.length

def desktopForId (s : VirtualDesktopManager) (id : String) : Option Nat :=
  s.desktops.find? fun desktop => s.id desktop == id

def desktopForX11Id (s : VirtualDesktopManager) (id : Nat) : Option Nat :=
  if id = 0 ∨ s.count < id then none else s.desktops[id - 1]?

def updateLayout (s : VirtualDesktopManager) : VirtualDesktopManager :=
  let rows := min s.rows s.count
  let columns := s.count / rows + if 0 < s.count % rows then 1 else 0
  { s with rows, grid := VirtualDesktopGrid.update columns rows s.desktops }

def renumber (x11DesktopNumber : Nat → Nat) (i : Nat) : List Nat → Nat → Nat
  | []                  => x11DesktopNumber
  | desktop :: desktops => renumber (Function.update x11DesktopNumber desktop (i + 1)) (i + 1) desktops

def createVirtualDesktop (s : VirtualDesktopManager) (position : Nat) (newId : String) : VirtualDesktopManager :=
  if s.count = maximum then
    s
  else
    let position := min position s.count
    let vd := s.nextDesktop
    let desktops := s.desktops.insertIdx position vd
    let x11DesktopNumber := Function.update s.x11DesktopNumber vd (position + 1)
    updateLayout { s with
      desktops
      id               := Function.update s.id vd newId
      x11DesktopNumber := renumber x11DesktopNumber (position + 1) (desktops.drop (position + 1))
      nextDesktop      := vd + 1 }

def removeVirtualDesktop (s : VirtualDesktopManager) (desktop : Nat) : VirtualDesktopManager :=
  if s.count = 1 then
    s
  else
    let i := s.desktops.idxOf desktop
    let desktops := s.desktops.eraseIdx i
    let newDesktop := if i < desktops.length then desktops[i]? else desktops.getLast?
    updateLayout { s with
      desktops
      x11DesktopNumber := renumber s.x11DesktopNumber i (desktops.drop i)
      currentDesktops  := s.currentDesktops.map fun (output, currentDesktop) =>
        (output, if currentDesktop = some desktop then newDesktop else currentDesktop) }

def moveVirtualDesktop (s : VirtualDesktopManager) (desktop : Nat) (position : Int) : VirtualDesktopManager :=
  let sourcePosition := s.desktops.idxOf desktop
  if desktop ∉ s.desktops then
    s
  else if position < 0 ∨ s.count ≤ position then
    s
  else if sourcePosition = position.toNat then
    s
  else
    let desktops := (s.desktops.eraseIdx sourcePosition).insertIdx position.toNat desktop
    updateLayout { s with
      desktops
      x11DesktopNumber := renumber s.x11DesktopNumber 0 desktops }

def appendDesktops (newId : Nat → String) : Nat → VirtualDesktopManager → VirtualDesktopManager
  | 0, s     => s
  | n + 1, s =>
    let vd := s.nextDesktop
    let x11Number := s.count + 1
    appendDesktops newId n { s with
      desktops         := s.desktops ++ [vd]
      id               := Function.update s.id vd (newId x11Number)
      x11DesktopNumber := Function.update s.x11DesktopNumber vd x11Number
      nextDesktop      := vd + 1 }

def setCount (s : VirtualDesktopManager) (count : Nat) (newId : Nat → String) : VirtualDesktopManager :=
  let count := max 1 (min count maximum)
  if count = s.count then
    s
  else if count < s.count then
    let desktopsToRemove := s.desktops.drop count
    let desktops := s.desktops.take count
    updateLayout { s with
      desktops
      currentDesktops := s.currentDesktops.map fun (output, currentDesktop) =>
        (output, if currentDesktop.any (· ∈ desktopsToRemove) then desktops.getLast? else currentDesktop) }
  else
    updateLayout (appendDesktops newId (count - s.count) s)

def setRows (s : VirtualDesktopManager) (rows : Nat) : VirtualDesktopManager :=
  if rows = 0 ∨ s.count < rows ∨ rows = s.rows then
    s
  else
    updateLayout { s with rows }

def initialDesktopForNewOutput (s : VirtualDesktopManager) (lastDesktop : Option String) (first : Nat) : Option Nat :=
  if !s.perOutputVirtualDesktops && !s.currentDesktops.isEmpty then
    s.currentDesktops[first % s.currentDesktops.length]?.bind (·.2)
  else
    match lastDesktop.bind s.desktopForId with
    | some desktop => some desktop
    | none         => s.desktops.head?

-- The entry of the output, which the lookup creates if there is none.
def entry (s : VirtualDesktopManager) (output : Nat) : VirtualDesktopManager :=
  if (s.currentDesktops.lookup output).isSome then
    s
  else
    { s with currentDesktops := s.currentDesktops ++ [(output, none)] }

def setEntry (s : VirtualDesktopManager) (output : Nat) (desktop : Option Nat) : VirtualDesktopManager :=
  { s.entry output with
    currentDesktops := (s.entry output).currentDesktops.map fun (other, currentDesktop) =>
      (other, if other = output then desktop else currentDesktop) }

def initCurrentDesktopForOutput (s : VirtualDesktopManager) (output : Nat) (lastDesktop : Option String) (first : Nat) :
    VirtualDesktopManager :=
  match s.currentDesktops.lookup output with
  | some (some _) => s
  | _             => s.setEntry output (s.initialDesktopForNewOutput lastDesktop first)

def setCurrent (s : VirtualDesktopManager) (newDesktop output : Nat) : VirtualDesktopManager :=
  let s := s.entry output
  if s.currentDesktops.lookup output = some (some newDesktop) then
    s
  else if s.perOutputVirtualDesktops then
    s.setEntry output (some newDesktop)
  else
    { s with currentDesktops := s.currentDesktops.map fun (output, _) => (output, some newDesktop) }

def currentDesktop (s : VirtualDesktopManager) (output : Nat) (lastDesktop : Option String) (first : Nat) : Option Nat :=
  (s.currentDesktops.lookup output).getD (s.initialDesktopForNewOutput lastDesktop first)

def setPerOutputVirtualDesktops (s : VirtualDesktopManager) (enabled : Bool) (lastDesktop : Option String)
    (first : Nat) : VirtualDesktopManager :=
  if enabled = s.perOutputVirtualDesktops then
    s
  else
    let s := { s with perOutputVirtualDesktops := enabled }
    if enabled then
      s
    else
      (s.currentDesktop s.activeOutput lastDesktop first).elim s fun newDesktop =>
        s.outputs.foldl (fun s output => s.setCurrent newDesktop output) s

def removeOutput (s : VirtualDesktopManager) (output : Nat) : VirtualDesktopManager :=
  { s with currentDesktops := s.currentDesktops.filter (·.1 ≠ output) }

-- New outputs are announced before removed ones are.
def updateOutputs (s : VirtualDesktopManager) (outputs : List Nat) (lastDesktop : Nat → Option String)
    (first : Nat → Nat) : VirtualDesktopManager :=
  let added := outputs.filter (· ∉ s.outputs)
  let removed := s.outputs.filter (· ∉ outputs)
  let s := { s with outputs }
  let s := added.foldl (fun s output => s.initCurrentDesktopForOutput output (lastDesktop output) (first output)) s
  let s := removed.foldl removeOutput s
  if s.activeOutput ∈ outputs then s else { s with activeOutput := outputs.headD 0 }

-- The desktops and the outputs that are handed to the manager are those that exist.
def step (s : VirtualDesktopManager) : DesktopEvent → Option VirtualDesktopManager
  | .createVirtualDesktop position newId => some (s.createVirtualDesktop position newId)
  | .removeVirtualDesktop desktop        =>
    if desktop ∈ s.desktops then some (s.removeVirtualDesktop desktop) else none
  | .removeVirtualDesktopId id           => some ((s.desktopForId id).elim s s.removeVirtualDesktop)
  | .moveVirtualDesktop desktop position => some (s.moveVirtualDesktop desktop position)
  | .setCount count newId                => some (s.setCount count newId)
  | .setRows rows                        => some (s.setRows rows)
  | .setCurrent desktop output           =>
    if desktop ∈ s.desktops ∧ output.getD s.activeOutput ∈ s.outputs then
      some (s.setCurrent desktop (output.getD s.activeOutput))
    else
      none
  | .setCurrentNumber desktop output     =>
    if output.getD s.activeOutput ∈ s.outputs then
      some ((s.desktopForX11Id desktop).elim s (s.setCurrent · (output.getD s.activeOutput)))
    else
      none
  | .setPerOutputVirtualDesktops enabled lastDesktop first =>
    some (s.setPerOutputVirtualDesktops enabled lastDesktop first)
  | .setActiveOutput output              => if output ∈ s.outputs then some { s with activeOutput := output } else none
  | .updateOutputs outputs lastDesktop first =>
    if outputs = [] ∨ ¬outputs.Nodup then none else some (s.updateOutputs outputs lastDesktop first)

-- Leaves the list of the desktops if the configuration names too many of them.
def load (s : VirtualDesktopManager) (n : Nat) (ids : Nat → String) (rows : Int) : Option VirtualDesktopManager :=
  if n = 0 ∨ maximum < n then
    none
  else
    some { s.setCount n ids with rows := (max 1 (min rows n)).toNat }

-- The workspace loads the desktops, and then the outputs get theirs.
def start (perOutputVirtualDesktops : Bool) (n : Nat) (ids : Nat → String) (rows : Int) (outputs : List Nat)
    (lastDesktop : Nat → Option String) (first : Nat → Nat) : Option VirtualDesktopManager :=
  (load { perOutputVirtualDesktops } n ids rows).bind fun s =>
    s.updateLayout.step (.updateOutputs outputs lastDesktop first)

def Reachable (s : VirtualDesktopManager) : Prop :=
  ∃ s₀ perOutputVirtualDesktops n ids rows outputs lastDesktop first,
    start perOutputVirtualDesktops n ids rows outputs lastDesktop first = some s₀ ∧
      Machine.Reaches step (fun _ _ => True) s₀ s

end VirtualDesktopManager
end KWin

-- How the desktops are loaded whatever the configuration says.
namespace KWin

-- The entries of the group "Desktops". Where there is no identifier for a desktop it is empty.
structure DesktopsGroup where
  number : Int32 := 1
  rows   : Int32 := 2
  id     : Nat → String := fun _ => ""

-- What the behaviour of is undefined: an access to the list behind its end, and `std::clamp` with an empty interval.
inductive LoadFault
  | outOfRange
  | emptyInterval

abbrev DesktopId :=
  { id : String // id ≠ "" }

namespace VirtualDesktopManager

variable (s : VirtualDesktopManager) (group : DesktopsGroup) (generateDesktopId : Nat → DesktopId)

def loadDesktop (s : VirtualDesktopManager) (i : Nat) : Except LoadFault VirtualDesktopManager :=
  match s.desktops[i - 1]? with
  | none => .error .outOfRange
  | some desktop =>
    if s.id desktop = "" then
      .ok { s with
        id := Function.update s.id desktop (if group.id i = "" then (generateDesktopId i).val else group.id i) }
    else
      .ok s

def clamp (value low high : Int) : Except LoadFault Int :=
  if high < low then .error .emptyInterval else .ok (max low (min value high))

-- While the settings are loaded, new desktops get no identifier from `setCount`.
def loadGroup : Except LoadFault VirtualDesktopManager := do
  let n := group.number
  let s := s.setCount n.toUInt32.toNat fun _ => ""
  let s ← (List.range' 1 n.toInt.toNat).foldlM (loadDesktop group generateDesktopId) s
  let rows ← clamp group.rows.toInt 1 n.toInt
  return { s with rows := rows.toNat }

end VirtualDesktopManager

namespace VirtualDesktopGrid

variable (g : VirtualDesktopGrid)

-- The coordinates of the first cell with the desktop, in the rows from `y` on.
def coordsFrom (vd : Nat) (y : Nat) : List (List Nat) → Option (Nat × Nat)
  | [] => none
  | row :: rows =>
    match row.idxOf? vd with
    | some x => some (x, y)
    | none   => coordsFrom vd (y + 1) rows

def gridCoords? (vd : Nat) : Option (Nat × Nat) :=
  coordsFrom vd 0 g.grid

end VirtualDesktopGrid

namespace VirtualDesktopManager

variable (s : VirtualDesktopManager) (desktop : Nat) (wrap : Bool) (fuel : Nat)

-- The loops are given up when the fuel has run out.
def above : Option Nat :=
  (s.grid.gridCoords? desktop).bind fun (x, y) =>
    Line.search (fun y => s.grid.at? x y) (Line.down s.grid.height wrap) desktop fuel y

def toRight : Option Nat :=
  (s.grid.gridCoords? desktop).bind fun (x, y) =>
    Line.search (fun x => s.grid.at? x y) (Line.up s.grid.width wrap) desktop fuel x

def below : Option Nat :=
  (s.grid.gridCoords? desktop).bind fun (x, y) =>
    Line.search (fun y => s.grid.at? x y) (Line.up s.grid.height wrap) desktop fuel y

def toLeft : Option Nat :=
  (s.grid.gridCoords? desktop).bind fun (x, y) =>
    Line.search (fun x => s.grid.at? x y) (Line.down s.grid.width wrap) desktop fuel x

end VirtualDesktopManager

end KWin
