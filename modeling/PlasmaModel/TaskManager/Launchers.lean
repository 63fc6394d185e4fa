import PlasmaModel.Lib.ListMove
import PlasmaModel.Lib.QSet

namespace TaskManager

-- What the desktop knows of URLs and applications. The `menuId` of a URL is empty unless it is a desktop file of a
-- service that has one, and `appUrl` is the URL of the application data that a launcher resolves to.
structure System (QUrl : Type) where
  url                : String → QUrl
  toString           : QUrl → String
  isEmpty            : QUrl → Bool
  isValid            : QUrl → Bool
  isLocalFile        : QUrl → Bool
  scheme             : QUrl → String
  removeQuery        : QUrl → QUrl
  menuId             : QUrl → String
  defaultApplication : QUrl → String
  appUrl             : QUrl → QUrl

abbrev ActivitiesSet := QSet String

def nullUuid : String := "00000000-0000-0000-0000-000000000000"

-- The activities that exist, of which the null UUID is none.
structure Activities where
  ids     : List String
  notNull : nullUuid ∉ ids := by decide

def isOnAllActivities (activities : List String) : Bool :=
  activities.isEmpty || nullUuid ∈ activities

section

variable {QUrl : Type} (system : System QUrl)

def isValidLauncherUrl (url : QUrl) : Bool :=
  if system.isEmpty url || !system.isValid url then
    false
  else if system.scheme url = "preferred" then
    system.defaultApplication url ≠ ""
  else
    system.isLocalFile url || system.scheme url = "applications" || system.scheme url = "preferred"

-- Desktop files are resolved to the URLs of their menu entries if possible.
def tryResolveToApplicationsUrl (url : QUrl) : QUrl :=
  if system.isLocalFile url ∧ system.menuId url ≠ "" then
    system.url ("applications:" ++ system.menuId url)
  else
    url

-- With the query items ignored.
def launcherUrlsMatch [DecidableEq QUrl] (a b : QUrl) : Bool :=
  tryResolveToApplicationsUrl system (system.removeQuery a) = tryResolveToApplicationsUrl system (system.removeQuery b)

-- The text before and after the first end of the activities.
def splitActivities : List Char → Option (List Char × List Char)
  | ']' :: '\n' :: rest => some ([], rest)
  | c :: rest => (splitActivities rest).map fun (activities, url) => (c :: activities, url)
  | [] => none

-- Launchers without activities are on all activities.
def deserializeLauncher (serializedLauncher : String) : QUrl × List String :=
  let old := (system.url serializedLauncher, [nullUuid])
  match serializedLauncher.toList with
  | '[' :: rest =>
    match splitActivities rest with
    | some (block, url) =>
      match (block.splitOn ',').filter (· ≠ []) with
      | [] => old
      | activities => (system.url (.ofList url), activities.map .ofList)
    | none => old
  | _ => old

end

structure LauncherTasksModel (QUrl : Type) where
  launchersOrder        : List QUrl := []
  activitiesForLauncher : AList (fun _ : QUrl => ActivitiesSet) := ∅

namespace LauncherTasksModel

variable {QUrl : Type} [DecidableEq QUrl] (system : System QUrl) (all : Activities)

-- Reading the activities of a launcher that has none adds an empty set.
def activities (s : LauncherTasksModel QUrl) (url : QUrl) : ActivitiesSet × LauncherTasksModel QUrl :=
  match s.activitiesForLauncher.lookup url with
  | some activities => (activities, s)
  | none => (∅, { s with activitiesForLauncher := s.activitiesForLauncher.insert url ∅ })

-- As many activities as there are count as all of them.
def collapse (activities : ActivitiesSet) : ActivitiesSet :=
  if activities.size = all.ids.length then {nullUuid} else activities

def setActivitiesForLauncher (s : LauncherTasksModel QUrl) (url : QUrl) (activities : ActivitiesSet) :
    LauncherTasksModel QUrl :=
  { s with activitiesForLauncher := s.activitiesForLauncher.insert url (collapse all activities) }

-- The activities of a launcher that is to be on some more.
def newActivities (activities : ActivitiesSet) : Option ActivitiesSet → ActivitiesSet
  | none => activities
  | some current =>
    if isOnAllActivities activities.values then
      {nullUuid}
    else if isOnAllActivities current.values then
      activities
    else
      activities.union current

def requestAddLauncherToActivities (s : LauncherTasksModel QUrl) (url : QUrl) (activities : List String) :
    Bool × LauncherTasksModel QUrl :=
  if !isValidLauncherUrl system url then
    (false, s)
  else
    let activities := QSet.ofList activities
    let url := tryResolveToApplicationsUrl system url
    match s.launchersOrder.find? fun launcher => launcherUrlsMatch system url launcher with
    | some launcher =>
      let newActivities := newActivities activities (s.activitiesForLauncher.lookup launcher)
      let (current, s) := s.activities launcher
      if newActivities.isSame current then
        (false, s)
      else
        (true, s.setActivitiesForLauncher all launcher newActivities)
    | none =>
      let s := s.setActivitiesForLauncher all url activities
      (true, { s with launchersOrder := s.launchersOrder ++ [url] })

inductive Change
  | keep
  | remove
  | update (newActivities : ActivitiesSet)

-- What becomes of a launcher that is to leave some activities.
def changeOf (currentActivities : ActivitiesSet) (activities : List String) : Change :=
  if isOnAllActivities currentActivities.values then
    if isOnAllActivities activities then
      .remove
    else if all.ids.any (· ∈ activities) then
      .update (.ofList (all.ids.filter (· ∉ activities)))
    else
      .keep
  else if isOnAllActivities activities then
    .remove
  else
    let newActivities := currentActivities.filter (· ∉ activities)
    if newActivities.isEmpty then .remove else .update newActivities

def rowMatches (url launcher : QUrl) : Bool :=
  launcherUrlsMatch system url launcher || launcherUrlsMatch system url (system.appUrl launcher)

-- The launchers are those from the row on.
def requestRemoveFromRow (url : QUrl) (activities : List String) (row : Nat) :
    List QUrl → LauncherTasksModel QUrl → Bool × LauncherTasksModel QUrl
  | [], s => (false, s)
  | launcher :: launchers, s =>
    if rowMatches system url launcher then
      let (currentActivities, s) := s.activities url
      match changeOf all currentActivities activities with
      | .remove =>
        (true, {
          launchersOrder := s.launchersOrder.eraseIdx row
          activitiesForLauncher := s.activitiesForLauncher.erase url })
      | .update newActivities => (true, s.setActivitiesForLauncher all url newActivities)
      | .keep => requestRemoveFromRow url activities (row + 1) launchers s
    else
      requestRemoveFromRow url activities (row + 1) launchers s

def requestRemoveLauncherFromActivities (s : LauncherTasksModel QUrl) (url : QUrl) (activities : List String) :
    Bool × LauncherTasksModel QUrl :=
  requestRemoveFromRow system all url activities 0 s.launchersOrder s

def requestAddLauncher (s : LauncherTasksModel QUrl) (url : QUrl) : Bool × LauncherTasksModel QUrl :=
  s.requestAddLauncherToActivities system all url [nullUuid]

def requestRemoveLauncher (s : LauncherTasksModel QUrl) (url : QUrl) : Bool × LauncherTasksModel QUrl :=
  s.requestRemoveLauncherFromActivities system all url [nullUuid]

def requestAddLauncherToActivity (s : LauncherTasksModel QUrl) (url : QUrl) (activity : String) :
    Bool × LauncherTasksModel QUrl :=
  s.requestAddLauncherToActivities system all url [activity]

def requestRemoveLauncherFromActivity (s : LauncherTasksModel QUrl) (url : QUrl) (activity : String) :
    Bool × LauncherTasksModel QUrl :=
  s.requestRemoveLauncherFromActivities system all url [activity]

def serializeLauncher (s : LauncherTasksModel QUrl) (launcher : QUrl) : String :=
  let activities := (s.activitiesForLauncher.lookup launcher).getD ∅
  if isOnAllActivities activities.values then
    system.toString launcher
  else
    "[" ++ String.intercalate "," activities.values ++ "]\n" ++ system.toString launcher

def launcherList (s : LauncherTasksModel QUrl) : List String :=
  s.launchersOrder.map (s.serializeLauncher system)

-- The activities of a launcher that is read, or none if it is on activities of which none exists.
def readActivities (activities : List String) : Option ActivitiesSet :=
  if isOnAllActivities activities then
    some {nullUuid}
  else
    let validActivities := QSet.ofList (activities.filter (· ∈ all.ids))
    if validActivities.isEmpty then none else some validActivities

def addActivities (s : LauncherTasksModel QUrl) (url : QUrl) (activities : ActivitiesSet) : LauncherTasksModel QUrl :=
  match s.activitiesForLauncher.lookup url with
  | none => { s with activitiesForLauncher := s.activitiesForLauncher.insert url activities }
  | some current =>
    if nullUuid ∈ current then
      s
    else if nullUuid ∈ activities then
      { s with activitiesForLauncher := s.activitiesForLauncher.insert url {nullUuid} }
    else
      { s with activitiesForLauncher := s.activitiesForLauncher.insert url (current.union activities) }

def readLauncher (s : LauncherTasksModel QUrl) (serializedLauncher : String) : LauncherTasksModel QUrl :=
  let (url, activities) := deserializeLauncher system serializedLauncher
  if !isValidLauncherUrl system url then
    s
  else
    match readActivities all activities with
    | none => s
    | some activities =>
      match s.launchersOrder.find? fun item => launcherUrlsMatch system url item with
      | some item => s.addActivities item activities
      | none => { s with launchersOrder := s.launchersOrder ++ [url] }.addActivities url activities

-- The rows move one by one to where they belong.
def moveRows : List QUrl → Nat → List QUrl → List QUrl
  | [], _, launchersOrder => launchersOrder
  | url :: launchers, i, launchersOrder =>
    moveRows launchers (i + 1) (ListMove.moveTo launchersOrder url i)

def sameActivities (s new : LauncherTasksModel QUrl) : Bool :=
  s.activitiesForLauncher.keys.length = new.activitiesForLauncher.keys.length &&
    s.activitiesForLauncher.entries.all fun entry =>
      match new.activitiesForLauncher.lookup entry.1 with
      | some activities => entry.2.isSame activities
      | none => false

def updateActivities (new s : LauncherTasksModel QUrl) (url : QUrl) : LauncherTasksModel QUrl :=
  let (activities, s) := s.activities url
  let newActivities := (new.activities url).1
  if activities.isSame newActivities then
    s
  else
    { s with activitiesForLauncher := s.activitiesForLauncher.insert url newActivities }

def setLauncherList (s : LauncherTasksModel QUrl) (serializedLaunchers : List String) : LauncherTasksModel QUrl :=
  let new := serializedLaunchers.foldl (readLauncher system all) {}
  if new.launchersOrder ≠ s.launchersOrder then
    let isOrderChanged :=
      new.launchersOrder.all (· ∈ s.launchersOrder) && new.launchersOrder.length = s.launchersOrder.length
    if isOrderChanged then
      { s with launchersOrder := moveRows new.launchersOrder 0 s.launchersOrder }
    else
      let s := if s.launchersOrder = [] then s else {}
      if new.launchersOrder = [] then s else new
  else if !s.sameActivities new then
    s.launchersOrder.foldl (updateActivities new) s
  else
    s

end LauncherTasksModel

-- The visible rows are listed with their launcher URLs without icons. The moves of rows set `launcherSortingDirty`.
structure TasksModel (QUrl : Type) where
  launcherTasksModel   : Option (LauncherTasksModel QUrl)
  launcherSortingDirty : Bool := false
  rows                 : List QUrl

namespace TasksModel

variable {QUrl : Type} [DecidableEq QUrl] (system : System QUrl)

-- The first row that shows the launcher.
def rowOf (rows : List QUrl) (launcherUrl : QUrl) : Option Nat :=
  rows.findIdx? fun rowLauncherUrl => launcherUrlsMatch system (system.appUrl launcherUrl) rowLauncherUrl

-- The launchers that are shown, by their rows, and those that are hidden.
structure SortedLaunchers where
  sortedShownLaunchers  : AList (fun _ : Nat => String) := ∅
  sortedHiddenLaunchers : List String := []

def sortLauncher (rows : List QUrl) (sorted : SortedLaunchers) (launcherUrlStr : String) : SortedLaunchers :=
  let (launcherUrl, _) := deserializeLauncher system launcherUrlStr
  match rowOf system rows launcherUrl with
  | some row => { sorted with sortedShownLaunchers := sorted.sortedShownLaunchers.insert row launcherUrlStr }
  | none => { sorted with sortedHiddenLaunchers := sorted.sortedHiddenLaunchers ++ [launcherUrlStr] }

-- In the order of their rows.
def SortedLaunchers.values (sorted : SortedLaunchers) (rowCount : Nat) : List String :=
  (List.range rowCount).filterMap sorted.sortedShownLaunchers.lookup ++ sorted.sortedHiddenLaunchers

def syncLaunchers (all : Activities) (s : TasksModel QUrl) : TasksModel QUrl :=
  match s.launcherTasksModel, s.launcherSortingDirty with
  | some launcherTasksModel, true =>
    let sorted := (launcherTasksModel.launcherList system).foldl (sortLauncher system s.rows) {}
    { s with
      launcherTasksModel := some (launcherTasksModel.setLauncherList system all (sorted.values s.rows.length))
      launcherSortingDirty := false }
  | _, _ => s

end TasksModel
end TaskManager
