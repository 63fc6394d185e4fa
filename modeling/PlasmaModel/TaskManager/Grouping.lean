import PlasmaModel.Lib.QSet

namespace TaskManager

-- What the grouping asks of URLs. The `empty` URL is the one of an index that is not valid, and `toString` leaves the
-- query out.
structure QUrls (QUrl : Type) where
  empty             : QUrl
  isValid           : QUrl → Bool
  toString          : QUrl → String
  not_isValid_empty : isValid empty = false

-- The roles of a source row that decide its group.
structure Task (QUrl : Type) where
  isWindow               : Bool
  isDemandingAttention   : Bool
  appId                  : String
  launcherUrlWithoutIcon : QUrl

inductive Role
  | isDemandingAttention
  | other (role : Nat)
  deriving DecidableEq

inductive GroupMode
  | groupDisabled
  | groupApplications
  deriving DecidableEq

inductive QModelIndex
  | invalid
  | item (row : Nat)
  | child (parent row : Nat)

def QModelIndex.topLevel : QModelIndex → QModelIndex
  | child parent _ => item parent
  | index => index

-- The source rows of each row of the proxy: a task of its own, or the members of a group.
structure TaskGroupingProxyModel (QUrl : Type) where
  sourceModel             : List (Task QUrl) := []
  groupMode               : GroupMode := .groupApplications
  groupDemandingAttention : Bool := false
  windowTasksThreshold    : Int := -1
  rowMap                  : List (List Nat) := []
  blacklistedAppIds       : QSet String := ∅
  blacklistedLauncherUrls : QSet String := ∅

variable {QUrl : Type} (urls : QUrls QUrl)

def Task.invalid : Task QUrl where
  isWindow := false
  isDemandingAttention := false
  appId := ""
  launcherUrlWithoutIcon := urls.empty

def Task.launcherUrlString (task : Task QUrl) : String :=
  urls.toString task.launcherUrlWithoutIcon

def appsMatch [DecidableEq QUrl] (a b : Task QUrl) : Bool :=
  !a.appId.isEmpty && a.appId = b.appId ||
    urls.isValid a.launcherUrlWithoutIcon && a.launcherUrlWithoutIcon = b.launcherUrlWithoutIcon

def isGroup (rows : List Nat) : Bool :=
  1 < rows.length

namespace TaskGroupingProxyModel

def task (s : TaskGroupingProxyModel QUrl) (row : Nat) : Task QUrl :=
  s.sourceModel[row]?.getD (.invalid urls)

def rep (s : TaskGroupingProxyModel QUrl) (rows : List Nat) : Task QUrl :=
  (rows.head?.map (s.task urls)).getD (.invalid urls)

def Contains (s : TaskGroupingProxyModel QUrl) : QModelIndex → Prop
  | .invalid => True
  | .item row => row < s.rowMap.length
  | .child parent row => ∃ rows ∈ s.rowMap[parent]?, row < rows.length

instance (s : TaskGroupingProxyModel QUrl) (index : QModelIndex) : Decidable (s.Contains index) := by
  cases index <;> rw [Contains] <;> infer_instance

def mapFromSource (s : TaskGroupingProxyModel QUrl) (sourceRow : Nat) : QModelIndex :=
  match s.rowMap.findIdx? (sourceRow ∈ ·) with
  | none => .invalid
  | some i =>
    let sourceRows := s.rowMap[i]?.getD []
    let childIndex := sourceRows.idxOf sourceRow
    if childIndex = 0 && !isGroup sourceRows then .item i else .child i childIndex

def mapToSource (s : TaskGroupingProxyModel QUrl) : QModelIndex → Option Nat
  | .invalid => none
  | .item row => (s.rowMap[row]?.bind (·[0]?)).filter (· < s.sourceModel.length)
  | .child parent row => (s.rowMap[parent]?.bind (·[row]?)).filter (· < s.sourceModel.length)

def data (s : TaskGroupingProxyModel QUrl) (index : QModelIndex) : Task QUrl :=
  ((s.mapToSource index).map (s.task urls)).getD (.invalid urls)

def isBlacklisted (s : TaskGroupingProxyModel QUrl) (task : Task QUrl) : Bool :=
  task.appId ∈ s.blacklistedAppIds || task.launcherUrlString urls ∈ s.blacklistedLauncherUrls

def shouldGroupTasks (s : TaskGroupingProxyModel QUrl) : Bool :=
  if s.groupMode = .groupDisabled then
    false
  else if s.windowTasksThreshold ≠ -1 then
    s.windowTasksThreshold < s.sourceModel.countP (·.isWindow)
  else
    true

def adjustMap (s : TaskGroupingProxyModel QUrl) (adjust : Nat → Nat) : TaskGroupingProxyModel QUrl :=
  { s with rowMap := s.rowMap.map (·.map adjust) }

-- The first child will move up to the top level.
def breakGroupFor (s : TaskGroupingProxyModel QUrl) (row : Nat) : TaskGroupingProxyModel QUrl :=
  match s.rowMap[row]? with
  | none => s
  | some rows =>
    if isGroup rows then
      { s with rowMap := s.rowMap.set row (rows.take 1) ++ (rows.drop 1).map ([·]) }
    else
      s

-- The loops that break groups go backwards from the row before `i`.
def breakGroups (s : TaskGroupingProxyModel QUrl) (breaks : List Nat → Bool) : Nat → TaskGroupingProxyModel QUrl
  | 0 => s
  | i + 1 => breakGroups (if s.rowMap[i]?.any breaks then s.breakGroupFor i else s) breaks i

variable [DecidableEq QUrl]

def tryToGroup (s : TaskGroupingProxyModel QUrl) (row : Nat) : Option (TaskGroupingProxyModel QUrl) :=
  if !(s.task urls row).isWindow then
    none
  else if !s.groupDemandingAttention && (s.task urls row).isDemandingAttention then
    none
  else if s.isBlacklisted urls (s.task urls row) then
    none
  else
    (s.rowMap.findIdx? fun rows => rows.head? ≠ some row && (s.rep urls rows).isWindow &&
      appsMatch urls (s.task urls row) (s.rep urls rows)).map fun i =>
        { s with rowMap := s.rowMap.modify i (· ++ [row]) }

def groupRow (s : TaskGroupingProxyModel QUrl) (skips : List Nat → Bool) (i : Nat) : TaskGroupingProxyModel QUrl :=
  match s.rowMap[i]? with
  | none => s
  | some rows =>
    if skips rows then
      s
    else
      match rows.head?.bind (s.tryToGroup urls) with
      | none => s
      | some s' => { s' with rowMap := s'.rowMap.eraseIdx i }

-- The loops that form groups go backwards from the row before `i`.
def groupRows (s : TaskGroupingProxyModel QUrl) (skips : List Nat → Bool) : Nat → TaskGroupingProxyModel QUrl
  | 0 => s
  | i + 1 => groupRows (s.groupRow urls skips i) skips i

def checkGrouping (s : TaskGroupingProxyModel QUrl) : TaskGroupingProxyModel QUrl :=
  if s.shouldGroupTasks then
    s.groupRows urls isGroup s.rowMap.length
  else
    s.breakGroups (fun _ => true) s.rowMap.length

-- Unlike `checkGrouping`, this does not skip the rows that are groups.
def formGroupFor (s : TaskGroupingProxyModel QUrl) (index : QModelIndex) : TaskGroupingProxyModel QUrl :=
  let form := s.groupRows urls (fun rows => !appsMatch urls (s.data urls index) (s.rep urls rows)) s.rowMap.length
  match index with
  | .child _ _ => s
  | .item row => if s.rowMap[row]?.any isGroup then s else form
  | .invalid => form

def insertRow (shouldGroup : Bool) (s : TaskGroupingProxyModel QUrl) (i : Nat) : TaskGroupingProxyModel QUrl :=
  match if shouldGroup then s.tryToGroup urls i else none with
  | some s' => s'
  | none => { s with rowMap := s.rowMap ++ [[i]] }

def sourceRowsInserted (s : TaskGroupingProxyModel QUrl) (start : Nat) (tasks : List (Task QUrl)) :
    TaskGroupingProxyModel QUrl :=
  let s := { s with sourceModel := s.sourceModel.take start ++ tasks ++ s.sourceModel.drop start }
  let s := s.adjustMap fun row => if start ≤ row then row + tasks.length else row
  ((List.range' start tasks.length).foldl (insertRow urls s.shouldGroupTasks) s).checkGrouping urls

def removeRow (s : TaskGroupingProxyModel QUrl) (i : Nat) : TaskGroupingProxyModel QUrl :=
  match s.rowMap.findIdx? (i ∈ ·) with
  | none => s
  | some j =>
    if s.rowMap[j]?.any (·.length = 1) then
      { s with rowMap := s.rowMap.eraseIdx j }
    else
      { s with rowMap := s.rowMap.modify j (·.erase i) }

def sourceRowsRemoved (s : TaskGroupingProxyModel QUrl) (start count : Nat) : TaskGroupingProxyModel QUrl :=
  let s := (List.range' start count).foldl removeRow s
  let s := { s with sourceModel := s.sourceModel.take start ++ s.sourceModel.drop (start + count) }
  (s.adjustMap fun row => if start + 1 ≤ row then row - count else row).checkGrouping urls

def rebuildMap (s : TaskGroupingProxyModel QUrl) (tasks : List (Task QUrl)) : TaskGroupingProxyModel QUrl :=
  { s with sourceModel := tasks, rowMap := (List.range tasks.length).map ([·]) }.checkGrouping urls

def dataChangedRow (roles : List Role) (s : TaskGroupingProxyModel QUrl) (i : Nat) : TaskGroupingProxyModel QUrl :=
  match s.mapFromSource i with
  | .item row =>
    if !s.groupDemandingAttention && .isDemandingAttention ∈ roles && !(s.task urls i).isDemandingAttention then
      match if s.shouldGroupTasks then s.tryToGroup urls i else none with
      | some s' => { s' with rowMap := s'.rowMap.eraseIdx row }
      | none => s
    else
      s
  | _ => s

def sourceDataChanged (s : TaskGroupingProxyModel QUrl) (topLeft : Nat) (tasks : List (Task QUrl))
    (roles : List Role) : TaskGroupingProxyModel QUrl :=
  let s :=
    { s with sourceModel := s.sourceModel.take topLeft ++ tasks ++ s.sourceModel.drop (topLeft + tasks.length) }
  (List.range' topLeft tasks.length).foldl (dataChangedRow urls roles) s

def setGroupMode (s : TaskGroupingProxyModel QUrl) (mode : GroupMode) : TaskGroupingProxyModel QUrl :=
  if s.groupMode ≠ mode then { s with groupMode := mode }.checkGrouping urls else s

def setGroupDemandingAttention (s : TaskGroupingProxyModel QUrl) (group : Bool) : TaskGroupingProxyModel QUrl :=
  if s.groupDemandingAttention ≠ group then { s with groupDemandingAttention := group }.checkGrouping urls else s

def setWindowTasksThreshold (s : TaskGroupingProxyModel QUrl) (threshold : Int) : TaskGroupingProxyModel QUrl :=
  if s.windowTasksThreshold ≠ threshold then { s with windowTasksThreshold := threshold }.checkGrouping urls else s

def setBlacklistedAppIds (s : TaskGroupingProxyModel QUrl) (list : List String) : TaskGroupingProxyModel QUrl :=
  let set := QSet.ofList list
  if !s.blacklistedAppIds.isSame set then
    let s := { s with blacklistedAppIds := set }.checkGrouping urls
    s.breakGroups (fun rows => isGroup rows && (s.rep urls rows).appId ∈ set) s.rowMap.length
  else
    s

def setBlacklistedLauncherUrls (s : TaskGroupingProxyModel QUrl) (list : List String) : TaskGroupingProxyModel QUrl :=
  let set := QSet.ofList list
  if !s.blacklistedLauncherUrls.isSame set then
    let s := { s with blacklistedLauncherUrls := set }.checkGrouping urls
    s.breakGroups (fun rows => isGroup rows && (s.rep urls rows).launcherUrlString urls ∈ set) s.rowMap.length
  else
    s

-- Whether a toggle is to turn the grouping on again.
def togglesOn (s : TaskGroupingProxyModel QUrl) (index : QModelIndex) : Bool :=
  s.isBlacklisted urls (s.data urls index)

def unblacklist (s : TaskGroupingProxyModel QUrl) (index : QModelIndex) : TaskGroupingProxyModel QUrl :=
  { s with
    blacklistedAppIds := s.blacklistedAppIds.remove (s.data urls index).appId
    blacklistedLauncherUrls := s.blacklistedLauncherUrls.remove ((s.data urls index).launcherUrlString urls) }

def blacklist (s : TaskGroupingProxyModel QUrl) (index : QModelIndex) : TaskGroupingProxyModel QUrl :=
  { s with
    blacklistedAppIds := s.blacklistedAppIds.insert (s.data urls index).appId
    blacklistedLauncherUrls := s.blacklistedLauncherUrls.insert ((s.data urls index).launcherUrlString urls) }

def requestToggleGrouping (s : TaskGroupingProxyModel QUrl) (index : QModelIndex) : TaskGroupingProxyModel QUrl :=
  if s.togglesOn urls index then
    let s := s.unblacklist urls index
    if s.groupMode ≠ .groupDisabled then s.formGroupFor urls index.topLevel else s
  else
    let s := s.blacklist urls index
    if s.groupMode ≠ .groupDisabled then
      match index.topLevel with
      | .item row => s.breakGroupFor row
      | _ => s
    else
      s

inductive Event (QUrl : Type)
  | sourceRowsInserted (start : Nat) (tasks : List (Task QUrl))
  | sourceRowsRemoved (start count : Nat)
  | sourceDataChanged (topLeft : Nat) (tasks : List (Task QUrl)) (roles : List Role)
  | sourceModelReset (tasks : List (Task QUrl))
  | sourceLayoutChanged (tasks : List (Task QUrl))
  | setGroupMode (mode : GroupMode)
  | setGroupDemandingAttention (group : Bool)
  | setWindowTasksThreshold (threshold : Int)
  | setBlacklistedAppIds (list : List String)
  | setBlacklistedLauncherUrls (list : List String)
  | requestToggleGrouping (index : QModelIndex)

-- The source model changes rows it has, and requests are for indices of the proxy.
def step (s : TaskGroupingProxyModel QUrl) : Event QUrl → Option (TaskGroupingProxyModel QUrl)
  | .sourceRowsInserted start tasks =>
    if start ≤ s.sourceModel.length then s.sourceRowsInserted urls start tasks else none
  | .sourceRowsRemoved start count =>
    if start + count ≤ s.sourceModel.length then s.sourceRowsRemoved urls start count else none
  | .sourceDataChanged topLeft tasks roles =>
    if topLeft + tasks.length ≤ s.sourceModel.length then s.sourceDataChanged urls topLeft tasks roles else none
  | .sourceModelReset tasks | .sourceLayoutChanged tasks => s.rebuildMap urls tasks
  | .setGroupMode mode => s.setGroupMode urls mode
  | .setGroupDemandingAttention group => s.setGroupDemandingAttention urls group
  | .setWindowTasksThreshold threshold => s.setWindowTasksThreshold urls threshold
  | .setBlacklistedAppIds list => s.setBlacklistedAppIds urls list
  | .setBlacklistedLauncherUrls list => s.setBlacklistedLauncherUrls urls list
  | .requestToggleGrouping index => if s.Contains index then s.requestToggleGrouping urls index else none

end TaskGroupingProxyModel
end TaskManager
