import PlasmaModel.Positioner.Positions

namespace Folder.Positioner

variable (it : Iteration)

-- Gives the new rows the free cells, as long as there are any. Returns the rows that are left.
def fillFreeRows : List Int → Positioner → Positioner × List Int
  | [], s => (s, [])
  | i :: rest, s =>
    let free := s.firstFreeRow
    if free ≠ -1 then
      let s := s.updateMaps free i
      fillFreeRows rest { s with pendingChanges := s.pendingChanges ++ [free] }
    else
      (s, i :: rest)

def shiftSourceRows (s : Positioner) (start count : Int) : Positioner :=
  let shift (row : Int) : Int := if start ≤ row then row + count else row
  { s with
    proxyToSource := ⟨s.proxyToSource.entries.map fun e => ⟨e.1, shift e.2⟩, by
      have h := s.proxyToSource.nodupKeys
      rw [List.NodupKeys, List.keys] at h ⊢
      rwa [List.map_map]⟩
    sourceToProxy := (it.order s.proxyToSource.entries).foldl (fun m e => m.insert (shift e.2) e.1) ∅ }

def sourceRowsAboutToBeInserted (s : Positioner) (start stop : Int) : Positioner :=
  if s.enabled then
    if s.deferApplyPositions then
      s
    else if s.proxyToSource.entries.isEmpty then
      { s.emit (.beginInsertRows start stop) with beginInsertRowsCalled := true }.initMaps (stop + 1)
    else
      let s := s.shiftSourceRows it start (stop - start + 1)
      match s.fillFreeRows (rows start stop) with
      | (s, []) => { s with ignoreNextTransaction := true }
      | (s, rest :: _) =>
        let firstNew := s.lastRow + 1
        let remainder := stop - rest
        let s := { s.emit (.beginInsertRows firstNew (firstNew + remainder)) with beginInsertRowsCalled := true }
        (rows 0 remainder).foldl (fun s i => s.updateMaps (firstNew + i) (rest + i)) s
  else
    { s.emit (.beginInsertRows start stop) with beginInsertRowsCalled := true }

-- Starts tracking the new files.
def flushPendingChanges (s : Positioner) (inserted : Bool) : Positioner :=
  let last := s.lastRow
  let changed := s.pendingChanges.filter (· ≤ last)
  { s with
    changedPositions :=
      if inserted then changed.foldl (fun m row => m.insert (s.url row) none) s.changedPositions
      else s.changedPositions
    pendingChanges := [] }

def sourceRowsInserted (s : Positioner) : Positioner :=
  let s :=
    if !s.ignoreNextTransaction then
      if s.beginInsertRowsCalled then { s.emit .endInsertRows with beginInsertRowsCalled := false } else s
    else
      { s with ignoreNextTransaction := false }
  let s := s.flushPendingChanges true
  -- Don't generate new positions data if we're waiting for listing to complete to apply initial
  -- positions.
  if !s.deferApplyPositions && s.screenInUse then
    let s := s.loadAndApplyPositionsConfig it
    let s := s.updatePositionsList it 0
    if s.deferRestoreChangedPositions then s.maybeRestoreAndApplyChangedPositions it false else s
  else
    s

-- Don't touch the proxy rows yet, as the signal was not emitted yet.
def takeSourceRow (s : Positioner) (i : Int) : Positioner :=
  let proxyRow := (s.sourceToProxy.lookup i).getD 0
  { s with sourceToProxy := s.sourceToProxy.erase i, pendingChanges := s.pendingChanges ++ [proxyRow] }

def sourceRowsAboutToBeRemoved (s : Positioner) (first last : Int) : Positioner :=
  if s.enabled then
    let oldLast := s.lastRow
    let s := (rows first last).foldl takeSourceRow s
    let delta : Int := (first - last).natAbs + 1
    let shift (row : Int) : Int := if last < row then row - delta else row
    let entries := it.order s.sourceToProxy.entries
    let newProxyToSource := entries.foldl (fun (m : QHash Int Int) e => m.insert e.2 (shift e.1)) ∅
    let newSourceToProxy := entries.foldl (fun (m : QHash Int Int) e => m.insert (shift e.1) e.2) ∅
    let newLast := newProxyToSource.keys.max?.getD 0
    let s :=
      if newLast < oldLast then
        s.emit (.beginRemoveRows (oldLast - (oldLast - newLast) + 1) oldLast)
      else
        { s with ignoreNextTransaction := true }
    { s with proxyToSource := newProxyToSource, sourceToProxy := newSourceToProxy }
  else
    s.emit (.beginRemoveRows first last)

def sourceRowsRemoved (s : Positioner) : Positioner :=
  let s := if !s.ignoreNextTransaction then s.emit .endRemoveRows else { s with ignoreNextTransaction := false }
  let s := s.flushPendingChanges false
  if s.screenInUse then
    (s.loadAndApplyPositionsConfig it).updatePositionsList it 0
  else
    s

structure RowMove where
  fromRow   : Int
  toRow     : Int
  sourceRow : Int

-- The first value from `v` on for which the loop condition does not hold. It holds for at most `fuel`
-- values.
def increaseWhile (condition : Int → Bool) : Nat → Int → Int
  | 0, v => v
  | fuel + 1, v => if condition v then increaseWhile condition fuel (v + 1) else v

-- If the to position is taken by something different than ourself, take a new to position.
def nextToIndex (toIndices : List Int) (move : Int × Int) : List Int :=
  toIndices ++ [increaseWhile (fun v => v ∈ toIndices && move.1 ≠ v) toIndices.length move.2]

-- The move as it is tried first to know if there would be rows insertions or removals.
structure Trial where
  toIndices   : List Int
  newEnd      : Int
  maxTo       : Int := -1
  toBeRemoved : List Int := []
  actualMoves : List RowMove := []

-- Where a move ends that does not name a cell.
def freeToIndex (s : Positioner) : Int :=
  let free := s.firstFreeRow
  if free = -1 then s.lastRow + 1 else free

-- Find the next blank space. We won't be happy if we're moving two icons to the same place.
def blankToIndex (s : Positioner) (fromIndices toIndices : List Int) (fromRow toRow : Int) : Int :=
  if toRow ∉ fromIndices && !s.isBlank toRow then
    increaseWhile (fun v => (!s.isBlank v && fromRow ≠ v) || v ∈ toIndices)
      (s.proxyToSource.entries.length + toIndices.length) toRow
  else
    toRow

-- The last row of the trailing ones which are blank or moved away.
def trimmedEnd (s : Positioner) (toBeRemoved : List Int) (oldCount newEnd : Int) : Int :=
  ((rows 0 (oldCount - 1)).reverse.takeWhile fun i => s.isBlank i || i ∈ toBeRemoved).getLast?.getD newEnd

def tryMove (s : Positioner) (fromIndices : List Int) (t : Trial) (i : Nat) (fromRow sourceRow : Int) : Trial :=
  let toRow := t.toIndices.getD i 0
  if sourceRow = -1 || fromRow = toRow then
    t
  else
    let toRow := if toRow = -1 then s.freeToIndex else toRow
    let toRow := s.blankToIndex fromIndices t.toIndices fromRow toRow
    let toBeRemoved := t.toBeRemoved.filter (· ≠ toRow)
    let trimmed := s.trimmedEnd toBeRemoved s.rowCount t.newEnd
    let newEnd := if fromRow = t.newEnd then trimmed else t.newEnd
    let maxTo := max t.maxTo toRow
    { toIndices   := t.toIndices.set i toRow
      newEnd      := max newEnd maxTo
      maxTo
      toBeRemoved := if fromRow = t.newEnd then trimmed :: toBeRemoved else toBeRemoved
      actualMoves := t.actualMoves ++ [{ fromRow, toRow, sourceRow }] }

-- The indices `i` of the moves from `from` on.
def tryMoves (s : Positioner) (fromIndices : List Int) : Nat → List Int → Trial → Trial
  | _, [], t => t
  | i, fromRow :: rest, t =>
    tryMoves s fromIndices (i + 1) rest
      (s.tryMove fromIndices t i fromRow ((s.proxyToSource.lookup fromRow).getD (-1)))

def applyMove (toIndices : List Int) (s : Positioner) (move : RowMove) : Positioner :=
  let s := if move.fromRow ∉ toIndices then { s with proxyToSource := s.proxyToSource.erase move.fromRow } else s
  let s := s.updateMaps move.toRow move.sourceRow
  -- Start tracking moved file
  { s with changedPositions := s.changedPositions.insert (s.folderModel.url move.sourceRow) none }

def move (s : Positioner) (moves : List (Int × Int)) (save : Bool) : Positioner :=
  -- Don't allow moves while listing.
  if s.folderModel.listing then
    { s with deferMovePositions := s.deferMovePositions ++ moves }
  else
    let fromIndices := moves.map Prod.fst
    let oldCount := s.rowCount
    let t := s.tryMoves fromIndices 0 fromIndices
      { toIndices := moves.foldl nextToIndex [], newEnd := oldCount - 1 }
    let s :=
      if t.newEnd < oldCount - 1 then
        s.emit (.beginRemoveRows (t.newEnd + 1) (oldCount - 1))
      else if oldCount - 1 < t.newEnd && !s.beginInsertRowsCalled then
        s.emit (.beginInsertRows oldCount t.newEnd)
      else
        s
    let s := t.actualMoves.foldl (applyMove t.toIndices) s
    let s :=
      if t.newEnd < oldCount - 1 then
        s.emit .endRemoveRows
      else if oldCount - 1 < t.newEnd then
        { s.emit .endInsertRows with beginInsertRowsCalled := false }
      else
        s
    let s := s.updatePositionsList it 0
    if save then s.savePositionsConfig it else s

inductive Event
  -- The urls get the rows from `start` on.
  | rowsInserted (start : Nat) (urls : List String)
  | rowsRemoved (first last : Nat)
  | convertFolderModelData (positions : QHash String GridPosition)
  -- The cells of the moves, from and to.
  | move (moves : List (Int × Int)) (save : Bool)

def insertUrls (urls : List String) (start : Nat) (new : List String) : List String :=
  urls.take start ++ new ++ urls.drop start

def removeUrls (urls : List String) (first last : Nat) : List String :=
  urls.take first ++ urls.drop (last + 1)

theorem removeUrls_sublist {urls : List String} {first last : Nat} (h : first ≤ last) :
    (removeUrls urls first last).Sublist urls := by
  conv_rhs => rw [← List.take_append_drop first urls]
  exact (List.Sublist.refl _).append (List.drop_sublist_drop_left urls (by omega))

-- What the source model does to its rows, between the two signals that it emits.
inductive Step (it : Iteration) (s : Positioner) : Event → Positioner → Prop
  | rowsInserted {start : Nat} {urls : List String} (hs : start ≤ s.folderModel.urls.length) (hu : urls ≠ [])
      (hn : (insertUrls s.folderModel.urls start urls).Nodup) :
      Step it s (.rowsInserted start urls)
        ({ s.sourceRowsAboutToBeInserted it start (start + urls.length - 1) with
            folderModel := { s.folderModel with urls := insertUrls s.folderModel.urls start urls, nodup := hn }
          }.sourceRowsInserted it)
  | rowsRemoved {first last : Nat} (hf : first ≤ last) (hl : last < s.folderModel.urls.length) :
      Step it s (.rowsRemoved first last)
        ({ s.sourceRowsAboutToBeRemoved it first last with
            folderModel := { s.folderModel with
              urls  := removeUrls s.folderModel.urls first last
              nodup := (removeUrls_sublist hf).nodup s.folderModel.nodup }
          }.sourceRowsRemoved it)
  | convertFolderModelData {positions : QHash String GridPosition} :
      Step it s (.convertFolderModelData positions) ({ s with positions }.convertFolderModelData it)
  | move {moves : List (Int × Int)} {save : Bool} :
      Step it s (.move moves save) (s.move it moves save)

end Folder.Positioner
