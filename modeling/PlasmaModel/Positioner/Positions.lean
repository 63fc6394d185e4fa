import Mathlib.Data.List.AList

-- The positioner of the folder view: a proxy model that gives every row of a folder model a cell.
namespace Folder

-- As in Qt, a key that is inserted again gets the new value. The order of the entries means nothing.
abbrev QHash (α β : Type) := AList fun _ : α => β

-- The order in which an iteration comes across the entries of a hash.
structure Iteration where
  order : ∀ {α β : Type}, List (Sigma fun _ : α => β) → List (Sigma fun _ : α => β)
  perm  : ∀ {α β : Type} (entries : List (Sigma fun _ : α => β)), (order entries).Perm entries

structure GridPosition where
  stripe : Int
  pos    : Int
deriving DecidableEq

structure PositionsHeader where
  numStripes : Int := 0
  perStripe  : Int := 0

structure ChangedPosition where
  visitedResolutions : List String
  gridPosition       : GridPosition

-- The rows by their urls. A directory lists every url once.
structure FolderModel where
  urls        : List String
  nodup       : urls.Nodup
  listing     : Bool := false
  screenUsed  : Bool := true
  -- The rows of `m_dragIndexes`.
  dragIndexes : List Int := []

namespace FolderModel

def rowCount (m : FolderModel) : Int :=
  m.urls.length

def url (m : FolderModel) (row : Int) : String :=
  if row < 0 then "" else m.urls.getD row.toNat ""

-- Invalid indexes are blank, since they're not created yet and will be created when needed.
def isBlank (m : FolderModel) (row : Int) : Bool :=
  if row < 0 || m.rowCount ≤ row then true else row ∈ m.dragIndexes

end FolderModel

-- What a view of the positioner is told about its rows. A view counts the rows again after a reset.
inductive Signal
  | beginInsertRows (first last : Int)
  | endInsertRows
  | beginRemoveRows (first last : Int)
  | endRemoveRows
  | beginResetModel
  | endResetModel (rowCount : Int)
deriving DecidableEq

structure Positioner where
  enabled                      : Bool := true
  folderModel                  : FolderModel
  perStripe                    : Int := 0
  optimalStripes               : Int := 0
  resolution                   : String := ""
  -- The saved positions by their resolutions, if there is an applet to save them in.
  config                       : Option (QHash String (List String)) := none
  pendingChanges               : List Int := []
  ignoreNextTransaction        : Bool := false
  positionsHeader              : Option PositionsHeader := none
  positions                    : QHash String GridPosition := ∅
  deferApplyPositions          : Bool := false
  deferRestoreChangedPositions : Bool := false
  deferMovePositions           : List (Int × Int) := []
  changedPositions             : QHash String (Option ChangedPosition) := ∅
  proxyToSource                : QHash Int Int := ∅
  sourceToProxy                : QHash Int Int := ∅
  beginInsertRowsCalled        : Bool := false
  -- History.
  signals                      : List Signal := []

-- The values of a loop from `first` up to and including `last`.
def rows (first last : Int) : List Int :=
  (List.range (last + 1 - first).toNat).map fun (i : Nat) => first + i

namespace Positioner

def screenInUse (s : Positioner) : Bool :=
  s.folderModel.screenUsed

def lastRow (s : Positioner) : Int :=
  s.proxyToSource.keys.max?.getD 0

def rowCount (s : Positioner) : Int :=
  if s.enabled then s.lastRow + 1 else s.folderModel.rowCount

def firstFreeRow (s : Positioner) : Int :=
  if s.proxyToSource.keys.isEmpty then -1 else ((rows 0 s.lastRow).find? (· ∉ s.proxyToSource)).getD (-1)

def isBlank (s : Positioner) (row : Int) : Bool :=
  if !s.enabled then
    s.folderModel.isBlank row
  else
    match s.proxyToSource.lookup row with
    | some sourceRow => s.folderModel.isBlank sourceRow
    | none => true

-- The url of a row of the positioner.
def url (s : Positioner) (row : Int) : String :=
  match s.proxyToSource.lookup row with
  | some sourceRow => s.folderModel.url sourceRow
  | none => ""

def emit (s : Positioner) (signal : Signal) : Positioner :=
  { s with signals := s.signals ++ [signal] }

def updateMaps (s : Positioner) (proxyIndex sourceIndex : Int) : Positioner :=
  { s with
    proxyToSource := s.proxyToSource.insert proxyIndex sourceIndex
    sourceToProxy := s.sourceToProxy.insert sourceIndex proxyIndex }

def clearMaps (s : Positioner) : Positioner :=
  { s with proxyToSource := ∅, sourceToProxy := ∅ }

def initMaps (s : Positioner) (size : Int) : Positioner :=
  (rows 0 (size - 1)).foldl (fun s i => s.updateMaps i i) s.clearMaps

end Positioner
end Folder

namespace Folder.Positioner

variable (it : Iteration)

-- The list ends early where a row has no url.
def recordPositions (perStripe : Int) : List (Sigma fun _ : Int => Int) → Positioner → Positioner
  | [], s => s
  | ⟨cell, row⟩ :: entries, s =>
    let name := s.folderModel.url row
    if name = "" then
      s
    else
      recordPositions perStripe entries { s with
        positions := s.positions.insert name {
          stripe := max 0 (cell.tdiv perStripe)
          pos    := max 0 (cell.tmod perStripe)
        }
      }

def updatePositionsList (s : Positioner) (perStripeForPositions : Int) : Positioner :=
  if s.enabled && s.screenInUse && 0 < s.perStripe then
    let perStripeForPositions := if perStripeForPositions ≤ 0 then s.perStripe else perStripeForPositions
    recordPositions perStripeForPositions (it.order s.proxyToSource.entries) { s with
      positionsHeader := some {
        numStripes := 1 + (s.rowCount - 1).tdiv s.perStripe
        perStripe  := s.perStripe
      }
    }
  else
    s

def positionsList (s : Positioner) : List String :=
  match s.positionsHeader with
  | some header =>
    header.numStripes.repr :: header.perStripe.repr ::
      (it.order s.positions.entries).flatMap fun ⟨filename, gridPos⟩ =>
        [filename, gridPos.stripe.repr, gridPos.pos.repr]
  | none => []

def sourceIndices (m : FolderModel) : QHash String Int :=
  (rows 0 (m.rowCount - 1)).foldl (fun indices i => indices.insert (m.url i) i) ∅

-- Restore positions for items that still fit.
def restorePosition (maps : Positioner × QHash String Int) (entry : Sigma fun _ : String => GridPosition) :
    Positioner × QHash String Int :=
  let ⟨s, sourceIndices⟩ := maps
  let ⟨name, gridPos⟩ := entry
  if gridPos.pos ≤ s.perStripe then
    match sourceIndices.lookup name with
    | none => maps
    | some sourceIndex =>
      let index := gridPos.stripe * s.perStripe + gridPos.pos
      if index ∈ s.proxyToSource then maps else (s.updateMaps index sourceIndex, sourceIndices.erase name)
  else
    maps

def placeInFreeRow (s : Positioner) (sourceIndex : Int) : Positioner :=
  let free := s.firstFreeRow
  s.updateMaps (if free = -1 then s.lastRow + 1 else free) sourceIndex

-- Find new positions for items that didn't fit.
def replacePosition (maps : Positioner × QHash String Int) (entry : Sigma fun _ : String => GridPosition) :
    Positioner × QHash String Int :=
  let ⟨s, sourceIndices⟩ := maps
  let ⟨name, gridPos⟩ := entry
  if s.perStripe < gridPos.pos then
    match sourceIndices.lookup name with
    | none => maps
    | some sourceIndex => (s.placeInFreeRow sourceIndex, sourceIndices.erase name)
  else
    maps

def applyPositions (s : Positioner) : Positioner :=
  let maps := (s.clearMaps, sourceIndices s.folderModel)
  let maps := (it.order s.positions.entries).foldl restorePosition maps
  let maps := (it.order s.positions.entries).foldl replacePosition maps
  -- Find positions for new source items we don't have records for.
  (it.order maps.2.entries).foldl (fun s entry => s.placeInFreeRow entry.2) maps.1

def convertFolderModelData (s : Positioner) : Positioner :=
  let s := { s with deferApplyPositions := s.folderModel.listing }
  if !s.screenInUse || s.positions.entries.isEmpty || s.deferApplyPositions then
    s
  else
    let s := (s.emit .beginResetModel).applyPositions it
    s.emit (.endResetModel s.rowCount)

-- Of every bucket, the numbers have to be numbers.
def readBuckets (positions : QHash String GridPosition) : List String → QHash String GridPosition
  | name :: stripe :: pos :: buckets =>
    match stripe.toInt?, pos.toInt? with
    | some stripe, some pos =>
      if name = "" then readBuckets positions buckets else readBuckets (positions.insert name { stripe, pos }) buckets
    | _, _ => readBuckets positions buckets
  | _ => positions

def readPositions (s : Positioner) : List String → Positioner
  | numStripes :: perStripe :: buckets =>
    match numStripes.toInt?, perStripe.toInt? with
    | some numStripes, some perStripe =>
      if buckets.length % 3 = 0 then
        { s with positionsHeader := some { numStripes, perStripe }, positions := readBuckets ∅ buckets }
      else
        { s with positionsHeader := none, positions := ∅ }
    | _, _ => { s with positionsHeader := none, positions := ∅ }
  | _ => { s with positionsHeader := none, positions := ∅ }

def loadAndApplyPositionsConfig (s : Positioner) : Positioner :=
  match s.config with
  | some config =>
    if s.enabled && s.screenInUse && s.resolution ≠ "" then
      let s := s.readPositions ((config.lookup s.resolution).getD [])
      if s.positions.entries.isEmpty then s else s.convertFolderModelData it
    else
      s
  | none => s

-- Fills the positions of files which are tracked only recently, and forgets disappeared files.
def prepareChangedPositions (s : Positioner) : QHash String (Option ChangedPosition) :=
  s.changedPositions.entries.foldl (fun changed ⟨filename, changedPosition⟩ =>
    match s.positions.lookup filename with
    | some gridPosition =>
      changed.insert filename
        (some (changedPosition.getD { visitedResolutions := [s.resolution], gridPosition }))
    | none => changed.erase filename) s.changedPositions

def savePositionsConfig (s : Positioner) : Positioner :=
  match s.config with
  | some config =>
    if s.enabled && s.screenInUse && s.resolution ≠ "" then
      { s with
        config := some (config.insert s.resolution (s.positionsList it))
        changedPositions := s.prepareChangedPositions }
    else
      s
  | none => s

def getOptimalStripes (s : Positioner) : Int :=
  max s.optimalStripes (s.positionsHeader.getD {}).numStripes

-- The new position as it is clipped to the grid, if it may be taken.
def updatedGridPos (s : Positioner) (optimalStripes : Int) (curr new : GridPosition) : Option GridPosition :=
  if curr = new then
    none
  else
    let clippedPos := if s.perStripe ≤ new.pos then (if 0 < s.perStripe then s.perStripe - 1 else curr.pos) else new.pos
    let clippedStripe :=
      if optimalStripes ≤ new.stripe then (if 0 < optimalStripes then optimalStripes - 1 else curr.stripe) else new.stripe
    let clipped := { stripe := clippedStripe, pos := clippedPos }
    if (s.perStripe ≤ new.pos || optimalStripes ≤ new.stripe) && curr = clipped then
      none
    else if s.positions.entries.any (·.2 = clipped) then
      none
    else
      some clipped

def restoreChangedPosition (optimalStripes : Int) (r : Positioner × Bool × Bool)
    (entry : Sigma fun _ : String => Option ChangedPosition) : Positioner × Bool × Bool :=
  let ⟨s, visited, restored⟩ := r
  let ⟨filename, changedPosition⟩ := entry
  match changedPosition with
  | none => r
  | some changed =>
    if s.resolution ∈ changed.visitedResolutions then
      r
    else
      let newGridPos := (s.positions.lookup filename).bind (s.updatedGridPos optimalStripes · changed.gridPosition)
      let positions := newGridPos.elim s.positions (s.positions.insert filename ·)
      let changed := { changed with visitedResolutions := s.resolution :: changed.visitedResolutions }
      ({ s with positions, changedPositions := s.changedPositions.insert filename (some changed) },
        true, restored || newGridPos.isSome)

def restoreChangedPositions (s : Positioner) : Positioner × Bool × Bool :=
  (it.order s.changedPositions.entries).foldl (restoreChangedPosition s.getOptimalStripes) (s, false, false)

def maybeRestoreAndApplyChangedPositions (s : Positioner) (forceConvertAndSave : Bool) : Positioner :=
  let ⟨s, visited, restored⟩ := s.restoreChangedPositions it
  let s :=
    if forceConvertAndSave || restored then
      (s.convertFolderModelData it).savePositionsConfig it
    else if visited then
      s.savePositionsConfig it
    else
      s
  { s with deferRestoreChangedPositions := false }

end Folder.Positioner
