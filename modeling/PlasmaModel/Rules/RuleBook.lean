import Mathlib
import PlasmaModel.Rules.Rules

namespace KWin

-- The flags of the properties that are remembered.
inductive RememberFlag
  | position
  | size
  | desktops
  | screen
  | activity
  | maximizeVert
  | maximizeHoriz
  | minimize
  | skipTaskbar
  | skipPager
  | skipSwitcher
  | above
  | below
  | fullscreen
  | noBorder
  | desktopFile
  deriving DecidableEq

namespace Rules

-- The state of a window that is remembered, with its geometry in whole pixels and the index of its output.
structure Window where
  pos                : QPoint
  size               : QSize
  maximizeVertical   : Bool
  maximizeHorizontal : Bool
  isFullScreen       : Bool
  desktopIds         : List String
  output             : Int
  activities         : List String
  isMinimized        : Bool
  skipTaskbar        : Bool
  skipPager          : Bool
  skipSwitcher       : Bool
  keepAbove          : Bool
  keepBelow          : Bool
  noBorder           : Bool
  desktopFileName    : String

-- The position in the direction which is maximized is not used.
def newPosition (c : Window) (position : QPoint) : QPoint :=
  if c.isFullScreen then
    position
  else
    { x := if c.maximizeHorizontal then position.x else c.pos.x
      y := if c.maximizeVertical then position.y else c.pos.y }

def newSize (c : Window) (size : QSize) : QSize :=
  if c.isFullScreen then
    size
  else
    { width := if c.maximizeHorizontal then size.width else c.size.width
      height := if c.maximizeVertical then size.height else c.size.height }

def nowRemember {α : Type} (selected : Bool) (property : SetProperty α) (value : α → α) : SetProperty α :=
  if selected && property.rule = .remember then { property with value := value property.value } else property

def update (r : Rules) (c : Window) (selection : RememberFlag → Bool) : Rules :=
  { r with
    position := nowRemember (selection .position) r.position (newPosition c)
    size := nowRemember (selection .size) r.size (newSize c)
    desktops := nowRemember (selection .desktops) r.desktops fun _ => c.desktopIds
    screen := nowRemember (selection .screen) r.screen fun _ => c.output
    activity := nowRemember (selection .activity) r.activity fun _ => c.activities
    maximizevert := nowRemember (selection .maximizeVert) r.maximizevert fun _ => c.maximizeVertical
    maximizehoriz := nowRemember (selection .maximizeHoriz) r.maximizehoriz fun _ => c.maximizeHorizontal
    minimize := nowRemember (selection .minimize) r.minimize fun _ => c.isMinimized
    skiptaskbar := nowRemember (selection .skipTaskbar) r.skiptaskbar fun _ => c.skipTaskbar
    skippager := nowRemember (selection .skipPager) r.skippager fun _ => c.skipPager
    skipswitcher := nowRemember (selection .skipSwitcher) r.skipswitcher fun _ => c.skipSwitcher
    above := nowRemember (selection .above) r.above fun _ => c.keepAbove
    below := nowRemember (selection .below) r.below fun _ => c.keepBelow
    fullscreen := nowRemember (selection .fullscreen) r.fullscreen fun _ => c.isFullScreen
    noborder := nowRemember (selection .noBorder) r.noborder fun _ => c.noBorder
    desktopfile := nowRemember (selection .desktopFile) r.desktopfile fun _ => c.desktopFileName }

end Rules

section

variable {α : Type} (withdrawn : Bool)

def SetProperty.isUsed (property : SetProperty α) : Bool :=
  property.rule = .applyNow || withdrawn && property.rule = .forceTemporarily

def ForceProperty.isUsed (property : ForceProperty α) : Bool :=
  withdrawn && property.rule = .forceTemporarily

def SetProperty.discardUsed (property : SetProperty α) : SetProperty α :=
  if property.isUsed withdrawn then { property with rule := .unused } else property

def ForceProperty.discardUsed (property : ForceProperty α) : ForceProperty α :=
  if property.isUsed withdrawn then { property with rule := .unused } else property

def SetProperty.isUnused (property : SetProperty α) : Bool :=
  property.rule = .unused

def ForceProperty.isUnused (property : ForceProperty α) : Bool :=
  property.rule = .unused

end

namespace Rules

-- Whether it doesn't affect anything.
def isEmpty (r : Rules) : Bool :=
  r.placement.isUnused && r.position.isUnused && r.size.isUnused && r.minsize.isUnused && r.maxsize.isUnused &&
    r.opacityactive.isUnused && r.opacityinactive.isUnused && r.ignoregeometry.isUnused && r.desktops.isUnused &&
    r.screen.isUnused && r.activity.isUnused && r.maximizevert.isUnused && r.maximizehoriz.isUnused &&
    r.minimize.isUnused && r.skiptaskbar.isUnused && r.skippager.isUnused && r.skipswitcher.isUnused &&
    r.above.isUnused && r.below.isUnused && r.fullscreen.isUnused && r.noborder.isUnused && r.decocolor.isUnused &&
    r.blockcompositing.isUnused && r.fsplevel.isUnused && r.fpplevel.isUnused && r.acceptfocus.isUnused &&
    r.closeable.isUnused && r.autogroup.isUnused && r.autogroupfg.isUnused && r.autogroupid.isUnused &&
    r.strictgeometry.isUnused && r.shortcut.isUnused && r.disableglobalshortcuts.isUnused &&
    r.desktopfile.isUnused && r.layer.isUnused && r.adaptivesync.isUnused && r.tearing.isUnused &&
    r.excludefromcapture.isUnused

def discardUsed (r : Rules) (withdrawn : Bool) : Rules :=
  { r with
    placement := r.placement.discardUsed withdrawn
    position := r.position.discardUsed withdrawn
    size := r.size.discardUsed withdrawn
    minsize := r.minsize.discardUsed withdrawn
    maxsize := r.maxsize.discardUsed withdrawn
    opacityactive := r.opacityactive.discardUsed withdrawn
    opacityinactive := r.opacityinactive.discardUsed withdrawn
    ignoregeometry := r.ignoregeometry.discardUsed withdrawn
    desktops := r.desktops.discardUsed withdrawn
    screen := r.screen.discardUsed withdrawn
    activity := r.activity.discardUsed withdrawn
    maximizevert := r.maximizevert.discardUsed withdrawn
    maximizehoriz := r.maximizehoriz.discardUsed withdrawn
    minimize := r.minimize.discardUsed withdrawn
    skiptaskbar := r.skiptaskbar.discardUsed withdrawn
    skippager := r.skippager.discardUsed withdrawn
    skipswitcher := r.skipswitcher.discardUsed withdrawn
    above := r.above.discardUsed withdrawn
    below := r.below.discardUsed withdrawn
    fullscreen := r.fullscreen.discardUsed withdrawn
    noborder := r.noborder.discardUsed withdrawn
    decocolor := r.decocolor.discardUsed withdrawn
    blockcompositing := r.blockcompositing.discardUsed withdrawn
    fsplevel := r.fsplevel.discardUsed withdrawn
    fpplevel := r.fpplevel.discardUsed withdrawn
    acceptfocus := r.acceptfocus.discardUsed withdrawn
    closeable := r.closeable.discardUsed withdrawn
    autogroup := r.autogroup.discardUsed withdrawn
    autogroupfg := r.autogroupfg.discardUsed withdrawn
    autogroupid := r.autogroupid.discardUsed withdrawn
    strictgeometry := r.strictgeometry.discardUsed withdrawn
    shortcut := r.shortcut.discardUsed withdrawn
    disableglobalshortcuts := r.disableglobalshortcuts.discardUsed withdrawn
    desktopfile := r.desktopfile.discardUsed withdrawn
    layer := r.layer.discardUsed withdrawn
    adaptivesync := r.adaptivesync.discardUsed withdrawn
    tearing := r.tearing.discardUsed withdrawn
    excludefromcapture := r.excludefromcapture.discardUsed withdrawn }

-- A property is discarded by a change of its rule.
def discardsUsed (r : Rules) (withdrawn : Bool) : Bool :=
  r.discardUsed withdrawn ≠ r

end Rules

-- The list of the groups of the rules, whose names are made to differ, and what the groups hold. Files from before there
-- was a list have only the count.
structure RuleConfig where
  count         : Nat := 0
  ruleGroupList : List String
  nodup         : ruleGroupList.Nodup
  groups        : AList fun _ : String => RuleSettings := ∅

structure RuleBookSettings where
  list         : List RuleSettings
  nodup        : (list.map (·.currentGroup)).Nodup
  storedGroups : List String

structure RuleBook where
  config : RuleConfig
  book   : Option RuleBookSettings := none
  rules  : List Rules := []

def legacyGroups (count : Nat) : List String :=
  (List.range count).map fun i => (i + 1).repr

theorem legacyGroups_nodup (count : Nat) : (legacyGroups count).Nodup :=
  List.nodup_range.map fun i j h => by simpa using Nat.repr_inj.mp h

-- Each settings object writes its group, and the deleted groups are removed.
def usrSave (groups : AList fun _ : String => RuleSettings) (list : List RuleSettings)
    (ruleGroupList storedGroups : List String) : AList fun _ : String => RuleSettings :=
  (storedGroups.filter (· ∉ ruleGroupList)).foldl (fun groups groupName => groups.erase groupName)
    (list.foldl (fun groups settings => groups.insert settings.currentGroup settings) groups)

def RuleConfig.ruleSettings (config : RuleConfig) (groupName : String) : RuleSettings :=
  { (config.groups.lookup groupName).getD { currentGroup := groupName } with currentGroup := groupName }

-- Legacy path for backwards compatibility with older config files without a rules list.
def RuleConfig.readRuleGroupList (config : RuleConfig) (storedGroups : List String) : RuleConfig :=
  if config.ruleGroupList = [] && 0 < config.count then
    { config with
      ruleGroupList := legacyGroups config.count
      nodup := legacyGroups_nodup config.count
      groups := usrSave config.groups [] (legacyGroups config.count) storedGroups }
  else
    config

namespace RuleBookSettings

def ruleGroupList (book : RuleBookSettings) : List String :=
  book.list.map (·.currentGroup)

def rules (locale : Locale) (book : RuleBookSettings) : List Rules :=
  (book.list.filter (·.enabled)).map (Rules.readFromSettings locale)

def usrRead (config : RuleConfig) : RuleBookSettings where
  list := config.ruleGroupList.map config.ruleSettings
  nodup := by simpa [Function.comp_def, RuleConfig.ruleSettings] using config.nodup
  storedGroups := config.ruleGroupList

def indexForId (book : RuleBookSettings) (id : String) : Option Nat :=
  book.list.findIdx? (·.currentGroup = id)

theorem map_modify_write (list : List RuleSettings) (row : Nat) (r : Rules) :
    (list.modify row r.write).map (·.currentGroup) = list.map (·.currentGroup) := by
  induction list generalizing row
  case nil => simp
  case cons settings list ih => cases row <;> simp [ih, Rules.write]

def writeRuleSettingsAt (book : RuleBookSettings) (row : Nat) (r : Rules) : RuleBookSettings where
  list := book.list.modify row r.write
  nodup := map_modify_write book.list row r ▸ book.nodup
  storedGroups := book.storedGroups

def removeRuleSettingsAt (book : RuleBookSettings) (row : Nat) : RuleBookSettings where
  list := book.list.eraseIdx row
  nodup := book.nodup.sublist ((List.eraseIdx_sublist book.list row).map _)
  storedGroups := book.storedGroups

end RuleBookSettings

namespace RuleBook

def load (locale : Locale) (b : RuleBook) : RuleBook :=
  let config := b.config.readRuleGroupList (b.book.elim [] (·.storedGroups))
  { config := config
    book := some (.usrRead config)
    rules := (RuleBookSettings.usrRead config).rules locale }

def save (b : RuleBook) : RuleBook :=
  match b.book with
  | none => b
  | some book =>
    { b with
      config :=
        { count := book.list.length
          ruleGroupList := book.ruleGroupList
          nodup := book.nodup
          groups := usrSave b.config.groups book.list book.ruleGroupList book.storedGroups }
      book := some { book with storedGroups := book.ruleGroupList } }

-- The rules of a window are given by their ids.
def discardRule (ids : List String) (withdrawn : Bool) (kept : RuleBookSettings × List Rules) (r : Rules) :
    RuleBookSettings × List Rules :=
  if r.id ∈ ids then
    let index := kept.1.indexForId r.id
    let book := if r.discardsUsed withdrawn then
        index.elim kept.1 fun row => kept.1.writeRuleSettingsAt row (r.discardUsed withdrawn)
      else
        kept.1
    if (r.discardUsed withdrawn).isEmpty then
      (index.elim book book.removeRuleSettingsAt, kept.2)
    else
      (book, kept.2 ++ [r.discardUsed withdrawn])
  else
    (kept.1, kept.2 ++ [r])

def discardUsed (ids : List String) (withdrawn : Bool) (b : RuleBook) : RuleBook :=
  match b.book with
  | none => b
  | some book =>
    let kept := b.rules.foldl (discardRule ids withdrawn) (book, [])
    { b with book := some kept.1, rules := kept.2 }

structure Update where
  window    : Rules.Window
  ids       : List String
  selection : RememberFlag → Bool

def update (b : RuleBook) (u : Update) : RuleBook :=
  { b with rules := b.rules.map fun r => if r.id ∈ u.ids then r.update u.window u.selection else r }

inductive Event
  | load
  | save
  | discardUsed (ids : List String) (withdrawn : Bool)
  | update (u : Update)

def step (locale : Locale) (b : RuleBook) : Event → RuleBook
  | .load => b.load locale
  | .save => b.save
  | .discardUsed ids withdrawn => b.discardUsed ids withdrawn
  | .update u => b.update u

end RuleBook
end KWin
