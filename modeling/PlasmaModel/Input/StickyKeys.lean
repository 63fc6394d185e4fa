import PlasmaModel.Lib.Runs

namespace KWin

inductive Key
  | keyShift
  | keyControl
  | keyAlt
  | keyAltGr
  | keyMeta
  | other (code : Nat)
deriving DecidableEq

namespace Xkb

inductive Modifier
  | noModifier
  | shift
  | lock
  | control
  | mod1
  | num
  | mod3
  | mod4
  | mod5
deriving DecidableEq

-- The keymap has no index for the other two.
def Modifier.hasIndex : Modifier → Bool
  | noModifier | mod3 => false
  | _ => true

end Xkb

-- The bits of `m_modifierState` that belong to the modifiers. The depressed ones are those of the keyboard itself.
structure Xkb where
  latched : Xkb.Modifier → Bool := fun _ => false
  locked  : Xkb.Modifier → Bool := fun _ => false

namespace Xkb

def setModifierLatched (xkb : Xkb) (mod : Modifier) (latched : Bool) : Xkb :=
  if mod.hasIndex then { xkb with latched := fun m => if m = mod then latched else xkb.latched m } else xkb

def setModifierLocked (xkb : Xkb) (mod : Modifier) (locked : Bool) : Xkb :=
  if mod.hasIndex then { xkb with locked := fun m => if m = mod then locked else xkb.locked m } else xkb

end Xkb

structure KConfigGroup where
  entry : String → Option Bool := fun _ => none

def KConfigGroup.readEntry (group : KConfigGroup) (key : String) (default : Bool) : Bool :=
  (group.entry key).getD default

inductive KeyboardKeyState
  | released
  | pressed
  | repeated
deriving DecidableEq

inductive PointerButtonState
  | released
  | pressed
deriving DecidableEq

inductive KeyState
  | none
  | latched
  | locked
deriving DecidableEq

def keyToModifier : Key → Xkb.Modifier
  | .keyShift => .shift
  | .keyAlt => .mod1
  | .keyControl => .control
  | .keyAltGr => .mod5
  | .keyMeta => .mod4
  | .other _ => .noModifier

-- What the filter asks for besides the changes of the flags. The bell rings if there is an effect for it.
inductive StickyKeysFilter.Output
  | systemBell
  | modifierLocked (key : Key)
  | forwardModifiers
  | delayedForwardModifiers
  | modifierStateChanged

-- The loops over `keyStates` do not depend on the order of the entries. The flags of the keyboard's state are `xkb`.
structure StickyKeysFilter where
  keyStates                     : List (Key × KeyState) := []
  lockKeys                      : Bool := false
  showNotificationForLockedKeys : Bool := false
  disableOnTwoKeys              : Bool := false
  pressedModifiers              : List Key := []
  ringBell                      : Bool := false
  installed                     : Bool := false
  xkb                           : Xkb := {}
  outputs                       : List StickyKeysFilter.Output := []

namespace StickyKeysFilter

def modifiers : List Key :=
  [.keyShift, .keyControl, .keyAlt, .keyAltGr, .keyMeta]

def keyState (s : StickyKeysFilter) (key : Key) : Option KeyState :=
  s.keyStates.lookup key

def emit (s : StickyKeysFilter) (outputs : List Output) : StickyKeysFilter :=
  { s with outputs := s.outputs ++ outputs }

def setKeyState (s : StickyKeysFilter) (key : Key) (state : KeyState) : StickyKeysFilter :=
  { s with keyStates := s.keyStates.map fun entry => (entry.1, if entry.1 = key then state else entry.2) }

-- One of the loops that set all states with a property to none and tell the keyboard of each.
def resetStates (s : StickyKeysFilter) (resets : KeyState → Bool) (tell : Xkb → Xkb.Modifier → Xkb) :
    StickyKeysFilter :=
  { s with
    keyStates := s.keyStates.map fun entry => (entry.1, if resets entry.2 then .none else entry.2)
    xkb := (s.keyStates.filter (resets ·.2)).foldl (fun xkb entry => tell xkb (keyToModifier entry.1)) s.xkb }

def anyState (s : StickyKeysFilter) (resets : KeyState → Bool) : Bool :=
  s.keyStates.any (resets ·.2)

def unlatch (xkb : Xkb) (mod : Xkb.Modifier) : Xkb :=
  xkb.setModifierLatched mod false

def unlock (xkb : Xkb) (mod : Xkb.Modifier) : Xkb :=
  xkb.setModifierLocked mod false

def readConfig (s : StickyKeysFilter) (group : KConfigGroup) : StickyKeysFilter :=
  { s with
    installed := false
    lockKeys := group.readEntry "StickyKeysLatch" true
    showNotificationForLockedKeys := group.readEntry "kNotifyModifiers" false
    disableOnTwoKeys := group.readEntry "StickyKeysAutoOff" false
    ringBell := group.readEntry "StickyKeysBeep" false }

def unlockKeys (s : StickyKeysFilter) : StickyKeysFilter :=
  if s.lockKeys then s else s.resetStates (· = .locked) unlock

def loadConfig (s : StickyKeysFilter) (group : KConfigGroup) : StickyKeysFilter :=
  let s := s.readConfig group
  let unlocked := s.unlockKeys
  let enabled := group.readEntry "StickyKeys" false
  let loaded := if enabled then { unlocked with installed := true } else unlocked.resetStates (· ≠ .none) unlatch
  let changed := (!s.lockKeys && s.anyState (· = .locked)) || (!enabled && unlocked.anyState (· ≠ .none))
  loaded.emit (if changed then [.forwardModifiers, .modifierStateChanged] else [])

def construct (group : KConfigGroup) : StickyKeysFilter :=
  { loadConfig {} group with keyStates := modifiers.map (·, .none) }

def disableStickyKeys (s : StickyKeysFilter) : StickyKeysFilter :=
  { s.resetStates (fun _ => true) (fun xkb mod => unlock (unlatch xkb mod) mod) with installed := false }

def pressModifier (s : StickyKeysFilter) (key : Key) : StickyKeysFilter :=
  match s.keyState key with
  | some .none =>
    { s.setKeyState key .latched with xkb := s.xkb.setModifierLatched (keyToModifier key) true }.emit
      [.modifierStateChanged]
  | some .latched =>
    if s.lockKeys then
      { s.setKeyState key .locked with
        xkb := (unlatch s.xkb (keyToModifier key)).setModifierLocked (keyToModifier key) true }.emit
        (if s.showNotificationForLockedKeys then [.modifierLocked key, .modifierStateChanged] else [.modifierStateChanged])
    else
      s
  | some .locked =>
    if s.lockKeys then
      { s.setKeyState key .none with xkb := unlock s.xkb (keyToModifier key) }.emit [.modifierStateChanged]
    else
      s
  | none => s

def keyboardKey (s : StickyKeysFilter) (key : Key) (state : KeyboardKeyState) : StickyKeysFilter :=
  if key ∈ modifiers then
    if state = .released then
      { s with pressedModifiers := s.pressedModifiers.filter (· ≠ key) }.emit (if s.ringBell then [.systemBell] else [])
    else
      { s with pressedModifiers := s.pressedModifiers.insert key }.pressModifier key
  else if state = .released then
    s
  else
    let disables := s.pressedModifiers ≠ [] ∧ s.disableOnTwoKeys
    let s := if disables then s.disableStickyKeys else s
    (s.resetStates (· ≠ .locked) unlatch).emit
      (if disables ∨ s.anyState (· ≠ .locked) then [.modifierStateChanged] else [])

-- The modifiers are forwarded for each state that is reset, after the client has the event.
def pointerButton (s : StickyKeysFilter) (state : PointerButtonState) : StickyKeysFilter :=
  if state = .released then
    (s.resetStates (· ≠ .locked) unlatch).emit
      ((s.keyStates.filter (·.2 ≠ .locked)).map fun _ => .delayedForwardModifiers)
  else
    s

inductive Event
  | key (key : Key) (state : KeyboardKeyState)
  | pointerButton (state : PointerButtonState)
  | configChanged (name : String) (group : KConfigGroup)

-- A filter that is not installed is not asked about the events of the input devices.
def step (s : StickyKeysFilter) : Event → Option StickyKeysFilter
  | .key key state => some (if s.installed then s.keyboardKey key state else s)
  | .pointerButton state => some (if s.installed then s.pointerButton state else s)
  | .configChanged name group => some (if name = "Keyboard" then s.loadConfig group else s)

end StickyKeysFilter
end KWin
