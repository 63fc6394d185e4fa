import PlasmaModel.Lib.QSet

abbrev Activity := String

-- Items and folders are found by their URLs, of which only equality and the text are used.
structure ScreenMapper (QUrl : Type) where
  screenItemMap             : AList (fun _ : QUrl × Activity => Int) := ∅
  itemsOnDisabledScreensMap : AList (fun _ : Int × Activity => QSet QUrl) := ∅
  screensPerPath            : AList (fun _ : QUrl => List (Int × Activity)) := ∅
  availableScreens          : List (Int × Activity) := []

namespace ScreenMapper

def maxMappingCount : Nat := 4096

variable {QUrl : Type} [DecidableEq QUrl]

def addMapping (s : ScreenMapper QUrl) (url : QUrl) (screen : Int) (activity : Activity) : ScreenMapper QUrl :=
  if maxMappingCount < s.screenItemMap.keys.length then
    s
  else
    { s with screenItemMap := s.screenItemMap.insert (url, activity) screen }

def addMappings (s : ScreenMapper QUrl) (screen : Int) (activity : Activity) (urls : List QUrl) : ScreenMapper QUrl :=
  urls.foldl (fun s url => s.addMapping url screen activity) s

-- The items that are stored for a screen of an activity.
def itemsOn (map : AList fun _ : Int × Activity => QSet QUrl) (pair : Int × Activity) : QSet QUrl :=
  (map.lookup pair).getD ∅

-- The set of a screen is created with its first item.
def insertItem (pair : Int × Activity) (map : AList fun _ : Int × Activity => QSet QUrl) (url : QUrl) :
    AList fun _ : Int × Activity => QSet QUrl :=
  map.insert pair ((itemsOn map pair).insert url)

-- Whether the item is stored for some screen of some activity.
def OnDisabledScreen (map : AList fun _ : Int × Activity => QSet QUrl) (url : QUrl) : Prop :=
  ∃ entry ∈ map.entries, url ∈ entry.2

instance {map : AList fun _ : Int × Activity => QSet QUrl} {url : QUrl} : Decidable (OnDisabledScreen map url) :=
  inferInstanceAs (Decidable (∃ entry ∈ _, _))

def maybeMoveToDisabledScreens (s : ScreenMapper QUrl) (url : QUrl) (activity : Activity) : ScreenMapper QUrl :=
  match s.screenItemMap.lookup (url, activity) with
  | some screen =>
    if screen > -1 then
      { s with
        itemsOnDisabledScreensMap := insertItem (screen, activity) s.itemsOnDisabledScreensMap url
        screenItemMap := s.screenItemMap.erase (url, activity) }
    else
      s
  | none => s

def removeItemFromDisabledScreen (s : ScreenMapper QUrl) (url : QUrl) : ScreenMapper QUrl :=
  { s with
    itemsOnDisabledScreensMap :=
      ⟨s.itemsOnDisabledScreensMap.entries.map fun entry => ⟨entry.1, entry.2.remove url⟩, by
        rw [List.NodupKeys, List.keys, List.map_map]
        exact s.itemsOnDisabledScreensMap.nodupKeys⟩ }

section

variable [ToString QUrl]

def startsWith (url screenUrl : QUrl) : Bool :=
  (toString screenUrl).toList.isPrefixOf (toString url).toList

def urlsToRemoveFromMapping (s : ScreenMapper QUrl) (screenId : Int) (activity : Activity) (screenUrl : QUrl) :
    List QUrl :=
  s.screenItemMap.entries.filterMap fun entry =>
    if entry.2 = screenId ∧ startsWith entry.1.1 screenUrl ∧ entry.1.2 = activity then some entry.1.1 else none

def removeScreen (s : ScreenMapper QUrl) (screenId : Int) (activity : Activity) (screenUrl : QUrl) :
    ScreenMapper QUrl :=
  let pair := (screenId, activity)
  if screenId < 0 ∨ pair ∉ s.availableScreens then
    s
  else
    let urls := s.urlsToRemoveFromMapping screenId activity screenUrl
    let s := { s with
      -- An item that some disabled screen has already is not stored again.
      itemsOnDisabledScreensMap := urls.foldl
        (fun map url => if OnDisabledScreen map url then map else insertItem pair map url) s.itemsOnDisabledScreensMap
      screenItemMap := urls.foldl (fun map url => map.erase (url, activity)) s.screenItemMap
      availableScreens := s.availableScreens.filter (· != pair) }
    match s.screensPerPath.lookup screenUrl with
    | some (screen :: screens) =>
      { s with
        screensPerPath := s.screensPerPath.insert screenUrl ((screen :: screens).filter (· != pair)) }
    | _ =>
      if toString screenUrl = "" then
        { s with
          screensPerPath := ⟨s.screensPerPath.entries.map fun entry => ⟨entry.1, entry.2.filter (· != pair)⟩, by
            rw [List.NodupKeys, List.keys, List.map_map]
            exact s.screensPerPath.nodupKeys⟩ }
      else
        s

-- Items below the path of the screen go back to it, the others stay stored.
def restoreItems (s : ScreenMapper QUrl) (screenId : Int) (activity : Activity) (screenUrl : QUrl) :
    ScreenMapper QUrl :=
  let pair := (screenId, activity)
  match s.itemsOnDisabledScreensMap.lookup pair with
  | some items =>
    let restored := items.filter fun url => startsWith url screenUrl
    let s := s.addMappings screenId activity restored.values
    let items := items.filter fun url => !startsWith url screenUrl
    if items.isEmpty then
      { s with itemsOnDisabledScreensMap := s.itemsOnDisabledScreensMap.erase pair }
    else
      { s with itemsOnDisabledScreensMap := s.itemsOnDisabledScreensMap.insert pair items }
  | none => s

def addScreen (s : ScreenMapper QUrl) (screenId : Int) (activity : Activity) (screenUrl : QUrl) :
    ScreenMapper QUrl :=
  let pair := (screenId, activity)
  if screenId < 0 ∨ pair ∈ s.availableScreens then
    s
  else
    let s := s.restoreItems screenId activity screenUrl
    let s := { s with availableScreens := s.availableScreens ++ [pair] }
    if toString screenUrl = "" then
      s
    else
      let screens := (s.screensPerPath.lookup screenUrl).getD []
      { s with screensPerPath := s.screensPerPath.insert screenUrl (screens ++ [pair]) }

-- The item, the screen and the activity of every mapping.
def screenMapping (s : ScreenMapper QUrl) : List String :=
  (s.screenItemMap.entries.take maxMappingCount).flatMap fun entry =>
    [toString entry.1.1, toString entry.2, entry.1.2]

-- The screen, the activity, the number of items and the items of every disabled screen.
def disabledScreensMap (s : ScreenMapper QUrl) : List String :=
  (s.itemsOnDisabledScreensMap.entries.take maxMappingCount).flatMap fun entry =>
    [toString entry.1.1, entry.1.2, toString entry.2.size] ++ entry.2.values.map toString

end

-- Text that is no number reads as 0.
def toInt (entry : String) : Int :=
  entry.toInt?.getD 0

section

variable (stringToUrl : String → QUrl)

-- Only whole groups of three are read.
def readMappings (newMap : AList fun _ : QUrl × Activity => Int) : List String → AList fun _ : QUrl × Activity => Int
  | url :: screen :: activity :: mapping =>
    readMappings (newMap.insert (stringToUrl url, activity) (toInt screen)) mapping
  | _ => newMap

def setScreenMapping (s : ScreenMapper QUrl) (mapping : List String) : ScreenMapper QUrl :=
  { s with screenItemMap := readMappings stringToUrl ∅ (mapping.take (maxMappingCount * 3)) }

structure Reader (QUrl : Type) where
  itemsOnDisabledScreensMap : AList (fun _ : Int × Activity => QSet QUrl) := ∅
  readingScreenId           : Bool := true
  readingActivityId         : Bool := true
  vectorSize                : Int := -1
  screenId                  : Int := -1
  activityId                : Activity := ""
  vectorCounter             : Int := 0

def Reader.read (r : Reader QUrl) (entry : String) : Reader QUrl :=
  if r.readingScreenId then
    { r with screenId := toInt entry, readingScreenId := false }
  else if r.readingActivityId then
    { r with activityId := entry, readingActivityId := false }
  else if r.vectorSize = -1 then
    { r with vectorSize := toInt entry }
  else
    let pair := (r.screenId, r.activityId)
    let r := { r with
      itemsOnDisabledScreensMap := insertItem pair r.itemsOnDisabledScreensMap (stringToUrl entry)
      vectorCounter := r.vectorCounter + 1 }
    if r.vectorCounter = r.vectorSize then
      { r with
        readingScreenId := true
        readingActivityId := true
        screenId := -1
        vectorCounter := 0
        vectorSize := -1 }
    else
      r

def readDisabledScreensMap (s : ScreenMapper QUrl) (serializedMap : List String) : ScreenMapper QUrl :=
  { s with
    itemsOnDisabledScreensMap := (serializedMap.foldl (Reader.read stringToUrl) {}).itemsOnDisabledScreensMap }

end

end ScreenMapper
