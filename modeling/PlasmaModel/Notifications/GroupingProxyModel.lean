import Mathlib.Data.List.Basic

namespace NotificationManager

-- The roles of a source row that decide its group.
structure Application where
  applicationName : String := ""
  desktopEntry    : String := ""
  originName      : String := ""

def appsMatch (a b : Application) : Bool :=
  a.applicationName ≠ "" ∧ a.applicationName = b.applicationName ∧ a.desktopEntry = b.desktopEntry ∧
    a.originName = b.originName

-- A child is told by the row of its parent and its own row there.
inductive ProxyIndex
  | invalid
  | item (row : Nat)
  | child (parent row : Nat)

inductive Signal
  | beginResetModel
  | endResetModel
  | beginInsertRows (parent : ProxyIndex) (first last : Nat)
  | endInsertRows
  | beginRemoveRows (parent : ProxyIndex) (first last : Nat)
  | endRemoveRows
  | dataChanged (topLeft bottomRight : ProxyIndex)

abbrev RowMap := List (List Nat)

def isGroup (rows : List Nat) : Bool :=
  1 < rows.length

def rowCount (m : RowMap) : ProxyIndex → Nat
  | .invalid => m.length
  | .item row =>
    match m[row]? with
    | some rows => if rows.length = 1 then 0 else rows.length
    | none => 0
  | .child _ _ => 0

-- Each signal is kept with the rows that there were when it was emitted.
structure NotificationGroupingProxyModel where
  sourceModel : List Application := []
  rowMap      : RowMap := []
  signals     : List (Signal × RowMap) := []

namespace NotificationGroupingProxyModel

def application (s : NotificationGroupingProxyModel) (row : Nat) : Application :=
  s.sourceModel[row]?.getD {}

def emit (signal : Signal) (s : NotificationGroupingProxyModel) : NotificationGroupingProxyModel :=
  { s with signals := s.signals ++ [(signal, s.rowMap)] }

-- The index of a row below another one, or else at the top level.
def index (s : NotificationGroupingProxyModel) (row : Nat) (parent : Option Nat) : ProxyIndex :=
  match parent with
  | some j =>
    if s.rowMap[j]?.any (row < ·.length) then .child j row
    else if row < s.rowMap.length then .item row
    else .invalid
  | none => if row < s.rowMap.length then .item row else .invalid

-- The row does not match with itself.
def matchesRow (s : NotificationGroupingProxyModel) (row : Nat) (rows : List Nat) : Bool :=
  rows.head? ≠ some row && rows.head?.any fun groupRep => appsMatch (s.application row) (s.application groupRep)

def tryToGroup (row : Nat) (silent : Bool) (s : NotificationGroupingProxyModel) :
    Option NotificationGroupingProxyModel :=
  match s.rowMap.findIdx? (s.matchesRow row) with
  | none => none
  | some i =>
    let parent := s.index i none
    let newIndex := (s.rowMap[i]?.getD []).length
    let s :=
      if silent then s
      else s.emit (if newIndex = 1 then .beginInsertRows parent 0 1 else .beginInsertRows parent newIndex newIndex)
    let s := { s with rowMap := s.rowMap.modify i (· ++ [row]) }
    some (if silent then s else (s.emit .endInsertRows).emit (.dataChanged parent parent))

def adjustMap (anchor : Nat) (delta : Int) (s : NotificationGroupingProxyModel) : NotificationGroupingProxyModel :=
  { s with rowMap := s.rowMap.map (·.map fun row => if anchor ≤ row then (row + delta).toNat else row) }

def removeRow (i : Nat) (s : NotificationGroupingProxyModel) : NotificationGroupingProxyModel :=
  { s.emit (.beginRemoveRows .invalid i i) with rowMap := s.rowMap.eraseIdx i }.emit .endRemoveRows

def checkRow (silent : Bool) (i : Nat) (s : NotificationGroupingProxyModel) : NotificationGroupingProxyModel :=
  match s.rowMap[i]? with
  | none => s
  | some rows =>
    if isGroup rows then
      s
    else
      match rows.head?.bind (s.tryToGroup · silent) with
      | none => s
      | some s => s.removeRow i

-- The loop goes backwards from the row before `i`.
def checkRows (silent : Bool) : Nat → NotificationGroupingProxyModel → NotificationGroupingProxyModel
  | 0, s => s
  | i + 1, s => checkRows silent i (s.checkRow silent i)

def checkGrouping (silent : Bool) (s : NotificationGroupingProxyModel) : NotificationGroupingProxyModel :=
  s.checkRows silent s.rowMap.length

def rebuildMap (s : NotificationGroupingProxyModel) : NotificationGroupingProxyModel :=
  { s with rowMap := (List.range s.sourceModel.length).map ([·]) }.checkGrouping true

def insertSourceRow (s : NotificationGroupingProxyModel) (i : Nat) : NotificationGroupingProxyModel :=
  match s.tryToGroup i false with
  | some s => s
  | none =>
    let count := s.rowMap.length
    { s.emit (.beginInsertRows .invalid count count) with rowMap := s.rowMap ++ [[i]] }.emit .endInsertRows

def rowsInserted (start count : Nat) (s : NotificationGroupingProxyModel) : NotificationGroupingProxyModel :=
  ((List.range' start count).foldl insertSourceRow (s.adjustMap start count)).checkGrouping false

-- The children from a row to another one of a parent, where the count of the rows of the top level is taken for the
-- second one.
def childrenChanged (j : Nat) (s : NotificationGroupingProxyModel) : NotificationGroupingProxyModel :=
  s.emit (.dataChanged (s.index 0 (some j)) (s.index (s.rowMap.length - 1) (some j)))

def removeSourceRow (s : NotificationGroupingProxyModel) (i : Nat) : NotificationGroupingProxyModel :=
  match s.rowMap.findIdx? (i ∈ ·) with
  | none => s
  | some j =>
    let sourceRows := s.rowMap[j]?.getD []
    let mapIndex := sourceRows.idxOf i
    let parent := s.index j none
    if sourceRows.length = 1 then
      s.removeRow j
    else if sourceRows.length = 2 then
      let s := { s.emit (.beginRemoveRows parent 0 1) with rowMap := s.rowMap.modify j (·.eraseIdx mapIndex) }
      (s.emit .endRemoveRows).emit (.dataChanged parent parent)
    else
      let s :=
        { s.emit (.beginRemoveRows parent mapIndex mapIndex) with rowMap := s.rowMap.modify j (·.eraseIdx mapIndex) }
      ((s.emit .endRemoveRows).emit (.dataChanged parent parent)).childrenChanged j

def rowsAboutToBeRemoved (first count : Nat) (s : NotificationGroupingProxyModel) : NotificationGroupingProxyModel :=
  (List.range' first count).foldl removeSourceRow s

def rowsRemoved (start count : Nat) (s : NotificationGroupingProxyModel) : NotificationGroupingProxyModel :=
  (s.adjustMap (start + 1) (-count)).checkGrouping false

-- What the source does, with the handlers of its signals. A new source is set in the same way as one is reset.
def resetSource (applications : List Application) (s : NotificationGroupingProxyModel) :
    NotificationGroupingProxyModel :=
  ({ s.emit .beginResetModel with sourceModel := applications }.rebuildMap).emit .endResetModel

def insertRows (start : Nat) (applications : List Application) (s : NotificationGroupingProxyModel) :
    NotificationGroupingProxyModel :=
  { s with sourceModel := s.sourceModel.take start ++ applications ++ s.sourceModel.drop start }.rowsInserted start
    applications.length

def removeRows (first count : Nat) (s : NotificationGroupingProxyModel) : NotificationGroupingProxyModel :=
  let s := s.rowsAboutToBeRemoved first count
  { s with sourceModel := s.sourceModel.take first ++ s.sourceModel.drop (first + count) }.rowsRemoved first count

end NotificationGroupingProxyModel

end NotificationManager
