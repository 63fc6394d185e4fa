import Mathlib.Logic.Function.Basic
import PlasmaModel.Lib.Runs

namespace KWin

inductive FocusedKind
  | x11
  | wayland
  | internal
deriving DecidableEq

-- What the chains ask of the windows, at one moment. `related` is what is tested of two windows of the same kind, and
-- `client` is the client of the surface of a window.
structure FocusWindows where
  kind           : Nat → FocusedKind
  related        : Nat → Nat → Bool
  client         : Nat → Option Nat
  isDeleted      : Nat → Bool
  wantsTabFocus  : Nat → Bool
  desktops       : Nat → List Nat
  currentDesktop : Nat → Option Nat
  surface        : ∀ window, kind window = .wayland → isDeleted window = false → (client window).isSome

namespace FocusWindows

variable (windows : FocusWindows)

def isOnAllDesktops (window : Nat) : Bool :=
  (windows.desktops window).isEmpty

def isOnDesktop (window desktop : Nat) : Bool :=
  windows.isOnAllDesktops window || decide (desktop ∈ windows.desktops window)

def belongToSameApplication (c₁ c₂ : Nat) : Bool :=
  match windows.kind c₁ with
  | .wayland =>
    match windows.client c₂ with
    | some client => windows.client c₁ = some client
    | none        => false
  | kind =>
    if windows.kind c₂ = kind then
      if c₁ = c₂ then true else windows.related c₁ c₂
    else
      false

end FocusWindows

inductive FocusChange
  | makeFirst
  | makeLast
  | update
deriving DecidableEq

structure FocusChain where
  mostRecentlyUsed   : List Nat := []
  desktopFocusChains : Nat → Option (List Nat) := fun _ => none
  activeWindow       : Option Nat := none

inductive FocusEvent
  | update (windows : FocusWindows) (window : Nat) (change : FocusChange)
  | moveAfterWindow (windows : FocusWindows) (window reference : Nat)
  | moveBeforeWindow (windows : FocusWindows) (window reference : Nat)
  | remove (window : Nat)
  | addDesktop (desktop : Nat)
  | removeDesktop (desktop : Nat)
  | setActiveWindow (window : Option Nat)

namespace FocusChain

variable (s : FocusChain) (windows : FocusWindows) (window reference : Nat) (change : FocusChange)

def removeAll (chain : List Nat) : List Nat :=
  chain.filter (· ≠ window)

def makeFirstInChain (chain : List Nat) : List Nat :=
  if windows.isDeleted window then chain else removeAll window chain ++ [window]

def makeLastInChain (chain : List Nat) : List Nat :=
  if windows.isDeleted window then chain else window :: removeAll window chain

def insertWindowIntoChain (chain : List Nat) : List Nat :=
  if windows.isDeleted window then
    chain
  else if window ∈ chain then
    chain
  else if s.activeWindow.isSome ∧ s.activeWindow ≠ some window ∧ chain ≠ [] ∧ chain.getLast? = s.activeWindow then
    chain.insertIdx (chain.length - 1) window
  else
    chain ++ [window]

def updateWindowInChain (chain : List Nat) : List Nat :=
  match change with
  | .makeFirst => makeFirstInChain windows window chain
  | .makeLast  => makeLastInChain windows window chain
  | .update    => s.insertWindowIntoChain windows window chain

-- The first of the positions at which there is a window of the application of the reference.
def positionOf (chain : List Nat) (positions : List Nat) : Option Nat :=
  positions.find? fun i => chain[i]?.any (windows.belongToSameApplication reference)

def moveAfterWindowInChain (chain : List Nat) : List Nat :=
  if windows.isDeleted window then
    chain
  else if reference ∉ chain then
    chain
  else
    let others := removeAll window chain
    if windows.belongToSameApplication reference window then
      others.insertIdx (others.idxOf reference) window
    else
      match positionOf windows reference others (List.range others.length) with
      | some i => others.insertIdx i window
      | none   => others

def moveBeforeWindowInChain (chain : List Nat) : List Nat :=
  if windows.isDeleted window then
    chain
  else if reference ∉ chain then
    chain
  else
    let others := removeAll window chain
    if windows.belongToSameApplication reference window then
      others.insertIdx (others.idxOf reference + 1) window
    else
      match positionOf windows reference others (List.range others.length).reverse with
      | some i => others.insertIdx (i + 1) window
      | none   => others

-- Changes the chain of every desktop.
def mapChains (f : Nat → List Nat → List Nat) : Nat → Option (List Nat) :=
  fun desktop => (s.desktopFocusChains desktop).map (f desktop)

def remove : FocusChain :=
  { s with
    desktopFocusChains := s.mapChains fun _ => removeAll window
    mostRecentlyUsed   := removeAll window s.mostRecentlyUsed }

def addDesktop (desktop : Nat) : FocusChain :=
  { s with desktopFocusChains := Function.update s.desktopFocusChains desktop (some []) }

def removeDesktop (desktop : Nat) : FocusChain :=
  { s with desktopFocusChains := Function.update s.desktopFocusChains desktop none }

-- Making a window the first or the last one works only on the current desktop.
def updateOnAllDesktops (desktop : Nat) (chain : List Nat) : List Nat :=
  if windows.currentDesktop window = some desktop ∧ (change = .makeFirst ∨ change = .makeLast) then
    if change = .makeFirst then makeFirstInChain windows window chain else makeLastInChain windows window chain
  else
    s.insertWindowIntoChain windows window chain

def updateOnDesktop (desktop : Nat) (chain : List Nat) : List Nat :=
  if windows.isOnDesktop window desktop then
    s.updateWindowInChain windows window change chain
  else
    removeAll window chain

def update : FocusChain :=
  if !windows.wantsTabFocus window then
    s.remove window
  else
    { s with
      desktopFocusChains :=
        if windows.isOnAllDesktops window then
          s.mapChains (s.updateOnAllDesktops windows window change)
        else
          s.mapChains (s.updateOnDesktop windows window change)
      mostRecentlyUsed := s.updateWindowInChain windows window change s.mostRecentlyUsed }

-- `moveInChain` is one of the two functions above.
def moveWindow (moveInChain : List Nat → List Nat) : FocusChain :=
  if windows.isDeleted window then
    s
  else if !windows.wantsTabFocus window then
    s
  else if reference = window then
    s
  else
    { s with
      desktopFocusChains := s.mapChains fun desktop chain =>
        if windows.isOnDesktop window desktop then moveInChain chain else chain
      mostRecentlyUsed   := moveInChain s.mostRecentlyUsed }

def moveAfterWindow : FocusChain :=
  s.moveWindow windows window reference (moveAfterWindowInChain windows window reference)

def moveBeforeWindow : FocusChain :=
  s.moveWindow windows window reference (moveBeforeWindowInChain windows window reference)

def nextMostRecentlyUsed : Option Nat :=
  match s.mostRecentlyUsed.idxOf? reference with
  | none         => s.mostRecentlyUsed.head?
  | some 0       => s.mostRecentlyUsed.getLast?
  | some (i + 1) => s.mostRecentlyUsed[i]?

-- The references are windows that exist.
def step : FocusEvent → Option FocusChain
  | .update windows window change => some (s.update windows window change)
  | .moveAfterWindow windows window reference =>
    if windows.isDeleted reference then none else some (s.moveAfterWindow windows window reference)
  | .moveBeforeWindow windows window reference =>
    if windows.isDeleted reference then none else some (s.moveBeforeWindow windows window reference)
  | .remove window           => some (s.remove window)
  | .addDesktop desktop      => some (s.addDesktop desktop)
  | .removeDesktop desktop   => some (s.removeDesktop desktop)
  | .setActiveWindow window  => some { s with activeWindow := window }

end FocusChain

end KWin
