import PlasmaModel.Outputs.Store
import PlasmaModel.Stacking.Basic

namespace KWin

inductive SetRule
  | unused
  | dontAffect
  | force
  | apply
  | remember
  | applyNow
  | forceTemporarily
  deriving DecidableEq

inductive ForceRule
  | unused
  | dontAffect
  | force
  | forceTemporarily
  deriving DecidableEq

inductive StringMatch
  | unimportant
  | exact
  | substring
  | regExp
  deriving DecidableEq

inductive BoolMatch
  | unimportant
  | exact
  deriving DecidableEq

inductive PlacementPolicy
  | none
  | default
  | unknown
  | random
  | smart
  | centered
  | zeroCornered
  | underMouse
  | onMainWindow
  | maximizing
  deriving DecidableEq

inductive FocusStealingPreventionLevel
  | none
  | low
  | medium
  | high
  | extreme
  deriving DecidableEq

def SetRule.toInt : SetRule → Int
  | unused => 0
  | dontAffect => 1
  | force => 2
  | apply => 3
  | remember => 4
  | applyNow => 5
  | forceTemporarily => 6

def SetRule.ofInt : Int → SetRule
  | 1 => dontAffect
  | 2 => force
  | 3 => apply
  | 4 => remember
  | 5 => applyNow
  | 6 => forceTemporarily
  | _ => unused

def ForceRule.toInt : ForceRule → Int
  | unused => 0
  | dontAffect => 1
  | force => 2
  | forceTemporarily => 6

def convertForceRule : Int → ForceRule
  | 1 => .dontAffect
  | 2 => .force
  | 6 => .forceTemporarily
  | _ => .unused

def StringMatch.toInt : StringMatch → Int
  | unimportant => 0
  | exact => 1
  | substring => 2
  | regExp => 3

def StringMatch.ofInt : Int → StringMatch
  | 1 => exact
  | 2 => substring
  | 3 => regExp
  | _ => unimportant

def BoolMatch.toInt : BoolMatch → Int
  | unimportant => 0
  | exact => 1

def BoolMatch.ofInt : Int → BoolMatch
  | 1 => exact
  | _ => unimportant

def FocusStealingPreventionLevel.toInt : FocusStealingPreventionLevel → Int
  | none => 0
  | low => 1
  | medium => 2
  | high => 3
  | extreme => 4

def FocusStealingPreventionLevel.ofInt : Int → FocusStealingPreventionLevel
  | 1 => low
  | 2 => medium
  | 3 => high
  | 4 => extreme
  | _ => none

def QSize.isEmpty (size : QSize) : Bool :=
  size.width < 1 || size.height < 1

def QSize.isValid (size : QSize) : Bool :=
  0 ≤ size.width && 0 ≤ size.height

def invalidPoint : QPoint where
  x := -2147483648
  y := -2147483648

-- The entries of the settings that have a minimum and a maximum keep to them.
structure Bounded (min max : Int) where
  value : Int
  ge    : min ≤ value
  le    : value ≤ max

def Bounded.set (min max v : Int) (h : min ≤ max := by exact Int.zero_le_ofNat _) : Bounded min max :=
  if hmin : v < min then
    ⟨min, Int.le_refl _, h⟩
  else if hmax : max < v then
    ⟨max, h, Int.le_refl _⟩
  else
    ⟨v, Int.not_lt.mp hmin, Int.not_lt.mp hmax⟩

structure MatchString where
  string : String
  type   : StringMatch
  deriving DecidableEq

structure Property (Rule α : Type) where
  rule  : Rule
  value : α
  deriving DecidableEq

abbrev SetProperty := Property SetRule

abbrev ForceProperty := Property ForceRule

structure MatchSetting where
  string : String := ""
  type   : Bounded 0 3 := .set 0 3 0

structure SetSetting (α : Type) where
  value : α
  rule  : Bounded 0 6 := .set 0 6 0

structure ForceSetting (α : Type) where
  value : α
  rule  : Int := 0

structure RuleSettings where
  currentGroup            : String
  description             : String := ""
  descriptionLegacy       : String := ""
  enabled                 : Bool := true
  wmclass                 : MatchSetting := {}
  wmclasscomplete         : Bool := false
  windowrole              : MatchSetting := {}
  title                   : MatchSetting := {}
  clientmachine           : MatchSetting := {}
  tag                     : MatchSetting := {}
  hastransientparent      : Bool := false
  hastransientparentmatch : Bounded 0 1 := .set 0 1 0
  types                   : UInt32 := 0xffffffff
  placement               : ForceSetting PlacementPolicy := { value := .centered }
  position                : SetSetting QPoint := { value := invalidPoint }
  size                    : SetSetting QSize := { value := ⟨-1, -1⟩ }
  minsize                 : ForceSetting QSize := { value := ⟨-1, -1⟩ }
  maxsize                 : ForceSetting QSize := { value := ⟨-1, -1⟩ }
  opacityactive           : ForceSetting (Bounded 0 100) := { value := .set 0 100 100 }
  opacityinactive         : ForceSetting (Bounded 0 100) := { value := .set 0 100 100 }
  ignoregeometry          : SetSetting Bool := { value := false }
  desktops                : SetSetting (List String) := { value := [] }
  screen                  : SetSetting Int := { value := 0 }
  activity                : SetSetting (List String) := { value := [] }
  maximizevert            : SetSetting Bool := { value := false }
  maximizehoriz           : SetSetting Bool := { value := false }
  minimize                : SetSetting Bool := { value := false }
  skiptaskbar             : SetSetting Bool := { value := false }
  skippager               : SetSetting Bool := { value := false }
  skipswitcher            : SetSetting Bool := { value := false }
  above                   : SetSetting Bool := { value := false }
  below                   : SetSetting Bool := { value := false }
  fullscreen              : SetSetting Bool := { value := false }
  noborder                : SetSetting Bool := { value := false }
  decocolor               : ForceSetting String := { value := "" }
  blockcompositing        : ForceSetting Bool := { value := false }
  fsplevel                : ForceSetting (Bounded 0 4) := { value := .set 0 4 0 }
  fpplevel                : ForceSetting (Bounded 0 4) := { value := .set 0 4 0 }
  acceptfocus             : ForceSetting Bool := { value := false }
  closeable               : ForceSetting Bool := { value := false }
  autogroup               : ForceSetting Bool := { value := false }
  autogroupfg             : ForceSetting Bool := { value := true }
  autogroupid             : ForceSetting String := { value := "" }
  strictgeometry          : ForceSetting Bool := { value := false }
  shortcut                : SetSetting String := { value := "" }
  disableglobalshortcuts  : ForceSetting Bool := { value := false }
  desktopfile             : SetSetting String := { value := "" }
  layer                   : ForceSetting Layer := { value := .normal }
  adaptivesync            : ForceSetting Bool := { value := true }
  tearing                 : ForceSetting Bool := { value := true }
  excludefromcapture      : SetSetting Bool := { value := false }

structure Rules where
  id                      : String
  enabled                 : Bool
  description             : String
  wmclass                 : MatchString
  wmclasscomplete         : Bool
  windowrole              : MatchString
  title                   : MatchString
  clientmachine           : MatchString
  tag                     : MatchString
  hastransientparent      : Bool
  hastransientparentmatch : BoolMatch
  types                   : UInt32
  placement               : ForceProperty PlacementPolicy
  position                : SetProperty QPoint
  size                    : SetProperty QSize
  minsize                 : ForceProperty QSize
  maxsize                 : ForceProperty QSize
  opacityactive           : ForceProperty Int
  opacityinactive         : ForceProperty Int
  ignoregeometry          : SetProperty Bool
  desktops                : SetProperty (List String)
  screen                  : SetProperty Int
  activity                : SetProperty (List String)
  maximizevert            : SetProperty Bool
  maximizehoriz           : SetProperty Bool
  minimize                : SetProperty Bool
  skiptaskbar             : SetProperty Bool
  skippager               : SetProperty Bool
  skipswitcher            : SetProperty Bool
  above                   : SetProperty Bool
  below                   : SetProperty Bool
  fullscreen              : SetProperty Bool
  noborder                : SetProperty Bool
  decocolor               : ForceProperty String
  blockcompositing        : ForceProperty Bool
  fsplevel                : ForceProperty FocusStealingPreventionLevel
  fpplevel                : ForceProperty FocusStealingPreventionLevel
  acceptfocus             : ForceProperty Bool
  closeable               : ForceProperty Bool
  autogroup               : ForceProperty Bool
  autogroupfg             : ForceProperty Bool
  autogroupid             : ForceProperty String
  strictgeometry          : ForceProperty Bool
  shortcut                : SetProperty String
  disableglobalshortcuts  : ForceProperty Bool
  desktopfile             : SetProperty String
  layer                   : ForceProperty Layer
  adaptivesync            : ForceProperty Bool
  tearing                 : ForceProperty Bool
  excludefromcapture      : SetProperty Bool
  deriving DecidableEq

-- The colour schemes are found in the data directories, by the names of their themes.
structure Locale where
  toLower         : String → String
  locate          : String → String
  toLower_toLower : ∀ s, toLower (toLower s) = toLower s

def getDecoColor (locale : Locale) (themeName : String) : String :=
  if themeName.isEmpty then "" else locale.locate themeName

def MatchSetting.readWith (setting : MatchSetting) (func : String → String) : MatchString where
  string := func setting.string
  type := .ofInt setting.type.value

def MatchSetting.read (setting : MatchSetting) : MatchString :=
  setting.readWith id

def SetSetting.read {α : Type} (setting : SetSetting α) : SetProperty α where
  rule := .ofInt setting.rule.value
  value := setting.value

def ForceSetting.readWith {α β : Type} (setting : ForceSetting β) (func : β → α) : ForceProperty α where
  rule := convertForceRule setting.rule
  value := func setting.value

def ForceSetting.read {α : Type} (setting : ForceSetting α) : ForceProperty α :=
  setting.readWith id

namespace Rules

def readSize (size : SetProperty QSize) : SetProperty QSize :=
  if size.value.isEmpty && size.rule ≠ .remember then { size with rule := .unused } else size

def readMinsize (minsize : ForceProperty QSize) : ForceProperty QSize :=
  if !minsize.value.isValid then { minsize with value := ⟨1, 1⟩ } else minsize

def readMaxsize (maxsize : ForceProperty QSize) : ForceProperty QSize :=
  if maxsize.value.isEmpty then { maxsize with value := ⟨32767, 32767⟩ } else maxsize

def readDecocolor (decocolor : ForceProperty String) : ForceProperty String :=
  if decocolor.value.isEmpty then { decocolor with rule := .unused } else decocolor

def readFromSettings (locale : Locale) (settings : RuleSettings) : Rules where
  id := settings.currentGroup
  enabled := settings.enabled
  description := if settings.description.isEmpty then settings.descriptionLegacy else settings.description
  wmclass := settings.wmclass.read
  wmclasscomplete := settings.wmclasscomplete
  windowrole := settings.windowrole.read
  title := settings.title.read
  clientmachine := settings.clientmachine.readWith locale.toLower
  tag := settings.tag.read
  hastransientparent := settings.hastransientparent
  hastransientparentmatch := .ofInt settings.hastransientparentmatch.value
  types := settings.types
  placement := settings.placement.read
  position := settings.position.read
  size := readSize settings.size.read
  minsize := readMinsize settings.minsize.read
  maxsize := readMaxsize settings.maxsize.read
  opacityactive := settings.opacityactive.readWith (·.value)
  opacityinactive := settings.opacityinactive.readWith (·.value)
  ignoregeometry := settings.ignoregeometry.read
  desktops := settings.desktops.read
  screen := settings.screen.read
  activity := settings.activity.read
  maximizevert := settings.maximizevert.read
  maximizehoriz := settings.maximizehoriz.read
  minimize := settings.minimize.read
  skiptaskbar := settings.skiptaskbar.read
  skippager := settings.skippager.read
  skipswitcher := settings.skipswitcher.read
  above := settings.above.read
  below := settings.below.read
  fullscreen := settings.fullscreen.read
  noborder := settings.noborder.read
  decocolor := readDecocolor (settings.decocolor.readWith (getDecoColor locale))
  blockcompositing := settings.blockcompositing.read
  fsplevel := settings.fsplevel.readWith (.ofInt ·.value)
  fpplevel := settings.fpplevel.readWith (.ofInt ·.value)
  acceptfocus := settings.acceptfocus.read
  closeable := settings.closeable.read
  autogroup := settings.autogroup.read
  autogroupfg := settings.autogroupfg.read
  autogroupid := settings.autogroupid.read
  strictgeometry := settings.strictgeometry.read
  shortcut := settings.shortcut.read
  disableglobalshortcuts := settings.disableglobalshortcuts.read
  desktopfile := settings.desktopfile.read
  layer := settings.layer.read
  adaptivesync := settings.adaptivesync.read
  tearing := settings.tearing.read
  excludefromcapture := settings.excludefromcapture.read

end Rules

def MatchSetting.write (setting : MatchSetting) (criterion : MatchString) (force : Bool) : MatchSetting where
  string := if !criterion.string.isEmpty || force then criterion.string else setting.string
  type := .set 0 3 criterion.type.toInt

def SetSetting.write {α : Type} (setting : SetSetting α) (property : SetProperty α) : SetSetting α where
  value := if property.rule ≠ .unused then property.value else setting.value
  rule := .set 0 6 property.rule.toInt

def ForceSetting.writeWith {α β : Type} (setting : ForceSetting β) (property : ForceProperty α) (func : α → β) :
    ForceSetting β where
  value := if property.rule ≠ .unused then func property.value else setting.value
  rule := property.rule.toInt

def ForceSetting.write {α : Type} (setting : ForceSetting α) (property : ForceProperty α) : ForceSetting α :=
  setting.writeWith property id

-- The part of a file name up to its first dot.
def baseName (path : String) : String :=
  .ofList ((path.toList.reverse.takeWhile (· ≠ '/')).reverse.takeWhile (· ≠ '.'))

def colorToString (value : String) : String :=
  if ".colors".toList.isSuffixOf value.toList then baseName value else value

namespace Rules

-- The rules of tearing and of the exclusion from captures are not written.
def write (r : Rules) (settings : RuleSettings) : RuleSettings :=
  let defaults : RuleSettings := { currentGroup := settings.currentGroup }
  { defaults with
    enabled := r.enabled
    description := r.description
    wmclass := defaults.wmclass.write r.wmclass true
    wmclasscomplete := r.wmclasscomplete
    windowrole := defaults.windowrole.write r.windowrole false
    title := defaults.title.write r.title false
    clientmachine := defaults.clientmachine.write r.clientmachine false
    tag := defaults.tag.write r.tag false
    hastransientparentmatch := .set 0 1 r.hastransientparentmatch.toInt
    hastransientparent :=
      if r.hastransientparentmatch ≠ .unimportant then r.hastransientparent else defaults.hastransientparent
    types := r.types
    placement := defaults.placement.write r.placement
    position := defaults.position.write r.position
    size := defaults.size.write r.size
    minsize := defaults.minsize.write r.minsize
    maxsize := defaults.maxsize.write r.maxsize
    opacityactive := defaults.opacityactive.writeWith r.opacityactive (.set 0 100 ·)
    opacityinactive := defaults.opacityinactive.writeWith r.opacityinactive (.set 0 100 ·)
    ignoregeometry := defaults.ignoregeometry.write r.ignoregeometry
    desktops := defaults.desktops.write r.desktops
    screen := defaults.screen.write r.screen
    activity := defaults.activity.write r.activity
    maximizevert := defaults.maximizevert.write r.maximizevert
    maximizehoriz := defaults.maximizehoriz.write r.maximizehoriz
    minimize := defaults.minimize.write r.minimize
    skiptaskbar := defaults.skiptaskbar.write r.skiptaskbar
    skippager := defaults.skippager.write r.skippager
    skipswitcher := defaults.skipswitcher.write r.skipswitcher
    above := defaults.above.write r.above
    below := defaults.below.write r.below
    fullscreen := defaults.fullscreen.write r.fullscreen
    noborder := defaults.noborder.write r.noborder
    decocolor := defaults.decocolor.writeWith r.decocolor colorToString
    blockcompositing := defaults.blockcompositing.write r.blockcompositing
    fsplevel := defaults.fsplevel.writeWith r.fsplevel (.set 0 4 ·.toInt)
    fpplevel := defaults.fpplevel.writeWith r.fpplevel (.set 0 4 ·.toInt)
    acceptfocus := defaults.acceptfocus.write r.acceptfocus
    closeable := defaults.closeable.write r.closeable
    autogroup := defaults.autogroup.write r.autogroup
    autogroupfg := defaults.autogroupfg.write r.autogroupfg
    autogroupid := defaults.autogroupid.write r.autogroupid
    strictgeometry := defaults.strictgeometry.write r.strictgeometry
    shortcut := defaults.shortcut.write r.shortcut
    disableglobalshortcuts := defaults.disableglobalshortcuts.write r.disableglobalshortcuts
    desktopfile := defaults.desktopfile.write r.desktopfile
    layer := defaults.layer.write r.layer
    adaptivesync := defaults.adaptivesync.write r.adaptivesync }

end Rules
end KWin
