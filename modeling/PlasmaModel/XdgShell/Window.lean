import PlasmaModel.Lib.Runs
import PlasmaModel.Region.Rect

namespace KWin

namespace Size

def isEmpty (size : Size) : Bool :=
  size.width ≤ 0 || size.height ≤ 0

def shrunkBy (size : Size) (margins : Margins) : Size where
  width  := size.width - margins.left - margins.right
  height := size.height - margins.top - margins.bottom

def grownBy (size : Size) (margins : Margins) : Size where
  width  := size.width + margins.left + margins.right
  height := size.height + margins.top + margins.bottom

end Size

namespace Rect

def moveLeft (r : Rect) (left : Int) : Rect :=
  { r with left, right := r.right + (left - r.left) }

def moveTop (r : Rect) (top : Int) : Rect :=
  { r with top, bottom := r.bottom + (top - r.top) }

def moveRight (r : Rect) (right : Int) : Rect :=
  { r with right, left := r.left + (right - r.right) }

def moveBottom (r : Rect) (bottom : Int) : Rect :=
  { r with bottom, top := r.top + (bottom - r.bottom) }

end Rect

def Gravity.apply (gravity : Gravity) (rect bounds : Rect) : Rect :=
  match gravity with
  | topLeft => (rect.moveRight bounds.right).moveBottom bounds.bottom
  | top | topRight => (rect.moveLeft bounds.left).moveBottom bounds.bottom
  | right | bottomRight | bottom | none => (rect.moveLeft bounds.left).moveTop bounds.top
  | bottomLeft | left => (rect.moveRight bounds.right).moveTop bounds.top

inductive MoveResizeMode
  | move | resize | moveResize
deriving DecidableEq

-- `flags` tells whether the only flag, `ConfigurePosition`, is set.
structure XdgSurfaceConfigure where
  bounds  : Rect
  gravity : Gravity
  serial  : UInt32
  flags   : Bool

-- The window of a toplevel, with the state of its `xdg_surface` and the serial of the display. All geometry is
-- on whole pixels, where snapping changes nothing.
structure XdgSurfaceWindow where
  displaySerial                   : UInt32
  buffer                          : Bool := false
  firstBufferAttached             : Bool := false
  isConfigured                    : Bool := false
  isInitialized                   : Bool := false
  pendingAcknowledgedConfigure    : Option UInt32 := .none
  -- The effective window geometry of the committed surface tree.
  windowGeometry                  : Size := ⟨0, 0⟩
  haveNextWindowGeometry          : Bool := false
  configureTimer                  : Bool := false
  configureFlags                  : Bool := false
  configureEvents                 : List XdgSurfaceConfigure := []
  lastAcknowledgedConfigure       : Option XdgSurfaceConfigure := .none
  lastAcknowledgedConfigureSerial : Option UInt32 := .none
  nextGravity                     : Gravity := .none
  borders                         : Margins := {}
  frameGeometry                   : Rect := default
  moveResizeGeometry              : Rect := default

namespace XdgSurfaceWindow

def pos (w : XdgSurfaceWindow) : Point :=
  w.frameGeometry.topLeft

def frameSizeToClientSize (w : XdgSurfaceWindow) (size : Size) : Size :=
  size.shrunkBy w.borders

def clientSizeToFrameSize (w : XdgSurfaceWindow) (size : Size) : Size :=
  size.grownBy w.borders

def clientSize (w : XdgSurfaceWindow) : Size :=
  w.frameSizeToClientSize w.frameGeometry.size

def updateGeometry (w : XdgSurfaceWindow) (rect : Rect) : XdgSurfaceWindow :=
  { w with frameGeometry := rect }

def setMoveResizeGeometry (w : XdgSurfaceWindow) (rect : Rect) : XdgSurfaceWindow :=
  { w with moveResizeGeometry := rect }

def scheduleConfigure (w : XdgSurfaceWindow) : XdgSurfaceWindow :=
  { w with configureTimer := true }

-- The size in the `xdg_toplevel.configure` event. An empty size leaves the choice to the client.
def nextClientSize (w : XdgSurfaceWindow) : Size :=
  let size := w.moveResizeGeometry.size
  if size.isEmpty then
    size
  else
    { width  := max 1 (size.width - (w.borders.left + w.borders.right))
      height := max 1 (size.height - (w.borders.top + w.borders.bottom)) }

def sendRoleConfigure (w : XdgSurfaceWindow) : XdgSurfaceConfigure × XdgSurfaceWindow :=
  let serial := w.displaySerial + 1
  let configureEvent : XdgSurfaceConfigure :=
    { bounds := w.moveResizeGeometry, gravity := .none, serial, flags := false }
  (configureEvent, { w with displaySerial := serial, isConfigured := true })

-- The configure event inherits the flags of the previous event.
def sendConfigure (w : XdgSurfaceWindow) : XdgSurfaceWindow :=
  let (configureEvent, w) := w.sendRoleConfigure
  let configureEvent :=
    match w.configureEvents.getLast? with
    | some previousEvent => { configureEvent with flags := previousEvent.flags }
    | none => configureEvent
  let configureEvent :=
    { configureEvent with gravity := w.nextGravity, flags := configureEvent.flags || w.configureFlags }
  { w with
    configureFlags := false
    nextGravity := .none
    configureEvents := w.configureEvents ++ [configureEvent] }

-- The timer fires once.
def timeout (w : XdgSurfaceWindow) : XdgSurfaceWindow :=
  sendConfigure { w with configureTimer := false }

def moveResizeInternal (w : XdgSurfaceWindow) (rect : Rect) (mode : MoveResizeMode) : XdgSurfaceWindow :=
  if mode ≠ .move then
    let requestedClientSize := w.frameSizeToClientSize rect.size
    if requestedClientSize = w.clientSize then
      let snappedRect := Rect.ofSize rect.topLeft (w.clientSizeToFrameSize w.clientSize)
      w.updateGeometry (w.nextGravity.apply snappedRect rect)
    else
      scheduleConfigure { w with configureFlags := true }
  else
    -- Any queued position updates are cancelled.
    let configureEvents := w.configureEvents.map fun configureEvent => { configureEvent with flags := false }
    let w := { w with configureEvents, configureFlags := false }
    w.updateGeometry (Rect.ofSize rect.topLeft w.frameGeometry.size)

def move (w : XdgSurfaceWindow) (point : Point) : XdgSurfaceWindow :=
  let rect := Rect.ofSize point w.moveResizeGeometry.size
  (w.setMoveResizeGeometry rect).moveResizeInternal rect .move

def resize (w : XdgSurfaceWindow) (size : Size) : XdgSurfaceWindow :=
  let rect := Rect.ofSize w.moveResizeGeometry.topLeft size
  (w.setMoveResizeGeometry rect).moveResizeInternal rect .resize

def moveResize (w : XdgSurfaceWindow) (rect : Rect) : XdgSurfaceWindow :=
  (w.setMoveResizeGeometry rect).moveResizeInternal rect .moveResize

def ackConfigure (w : XdgSurfaceWindow) (serial : UInt32) : XdgSurfaceWindow :=
  { w with pendingAcknowledgedConfigure := serial }

def handleConfigureAcknowledged (w : XdgSurfaceWindow) (serial : UInt32) : XdgSurfaceWindow :=
  { w with lastAcknowledgedConfigureSerial := serial }

def takeEvents (serial : UInt32) (last : Option XdgSurfaceConfigure) :
    List XdgSurfaceConfigure → Option XdgSurfaceConfigure × List XdgSurfaceConfigure
  | [] => (last, [])
  | event :: events =>
    if serial < event.serial then
      (last, event :: events)
    else
      takeEvents serial event events

def takeAcknowledged (w : XdgSurfaceWindow) : XdgSurfaceWindow :=
  match w.lastAcknowledgedConfigureSerial with
  | some serial =>
    let (last, events) := takeEvents serial w.lastAcknowledgedConfigure w.configureEvents
    { w with lastAcknowledgedConfigure := last, configureEvents := events }
  | none => w

def maybeUpdateMoveResizeGeometry (w : XdgSurfaceWindow) (rect : Rect) : XdgSurfaceWindow :=
  if w.configureTimer then
    w
  else if w.configureEvents.any (·.flags) then
    w
  else
    w.setMoveResizeGeometry rect

def nextFrameGeometry (w : XdgSurfaceWindow) : Rect :=
  let frameGeometry := Rect.ofSize w.pos (w.clientSizeToFrameSize w.windowGeometry)
  match w.lastAcknowledgedConfigure with
  | some configureEvent =>
    if configureEvent.flags then
      configureEvent.gravity.apply frameGeometry configureEvent.bounds
    else
      frameGeometry
  | none => frameGeometry

def handleNextWindowGeometry (w : XdgSurfaceWindow) : XdgSurfaceWindow :=
  (w.maybeUpdateMoveResizeGeometry w.nextFrameGeometry).updateGeometry w.nextFrameGeometry

def hasNextWindowGeometry (w : XdgSurfaceWindow) : Bool :=
  w.haveNextWindowGeometry || w.lastAcknowledgedConfigure.isSome

def finishCommit (w : XdgSurfaceWindow) : XdgSurfaceWindow :=
  let w :=
    if w.hasNextWindowGeometry then
      { w.handleNextWindowGeometry with haveNextWindowGeometry := false }
    else
      w
  { w with lastAcknowledgedConfigure := none, lastAcknowledgedConfigureSerial := none }

def handleCommit (w : XdgSurfaceWindow) : XdgSurfaceWindow :=
  if !w.isConfigured then
    w
  else if !w.buffer then
    w
  else
    w.takeAcknowledged.finishCommit

-- The part of `XdgSurfaceInterfacePrivate::apply` that the window listens to.
def applySurface (w : XdgSurfaceWindow) (windowGeometry : Option Size) : XdgSurfaceWindow :=
  let w := if w.buffer then { w with firstBufferAttached := true } else w
  let w :=
    match w.pendingAcknowledgedConfigure with
    | some serial => { w.handleConfigureAcknowledged serial with pendingAcknowledgedConfigure := none }
    | none => w
  match windowGeometry with
  | some size => { w with windowGeometry := size, haveNextWindowGeometry := true }
  | none => w

-- The first commit initializes the window.
def apply (w : XdgSurfaceWindow) (buffer : Bool) (windowGeometry : Option Size) : XdgSurfaceWindow :=
  let w := applySurface { w with buffer } windowGeometry
  if w.isInitialized then w else { w.scheduleConfigure with isInitialized := true }

-- A buffer before the first configure event is an error that ends the client. A surface that loses its buffer
-- is reset, which destroys the window.
def commit (w : XdgSurfaceWindow) (buffer : Bool) (windowGeometry : Option Size) : Option XdgSurfaceWindow :=
  if buffer && !w.isConfigured then
    none
  else if !buffer && w.firstBufferAttached then
    none
  else
    (w.apply buffer windowGeometry).handleCommit

end XdgSurfaceWindow

-- What a client reads from a pair of configure events.
structure Configure where
  serial : UInt32
  size   : Size

-- A window with what has passed between it and its client: the configure events in the order of their sending, those
-- up to the last acknowledged one, and the last rectangle the window has been asked to take.
structure Session where
  window       : XdgSurfaceWindow
  configures   : List Configure := []
  acknowledged : Nat := 0
  requested    : Rect

inductive SessionEvent
  | nextSerial
  | scheduleConfigure
  | move (point : Point)
  | resize (size : Size)
  | moveResize (rect : Rect)
  | timeout
  | ackConfigure (i : Nat)
  | commit (buffer : Bool) (windowGeometry : Option Size)

namespace Session

def ofWindow (window : XdgSurfaceWindow) : Session where
  window    := window
  requested := window.frameGeometry

-- The configure events that have been sent and are no longer queued.
def consumed (s : Session) : Nat :=
  s.configures.length - s.window.configureEvents.length

def request (s : Session) (window : XdgSurfaceWindow) : Session :=
  { s with window, requested := window.moveResizeGeometry }

-- Serials are handed out for other events too, and changes of the state schedule configure events too. The client
-- acknowledges in order what it has received, and may skip events.
def step (s : Session) : SessionEvent → Option Session
  | .nextSerial => some { s with window := { s.window with displaySerial := s.window.displaySerial + 1 } }
  | .scheduleConfigure => some { s with window := s.window.scheduleConfigure }
  | .move point => some (s.request (s.window.move point))
  | .resize size => some (s.request (s.window.resize size))
  | .moveResize rect => some (s.request (s.window.moveResize rect))
  | .timeout =>
    if s.window.configureTimer then
      let window := s.window.timeout
      some { s with
        window
        configures := s.configures ++ [⟨window.displaySerial, s.window.nextClientSize⟩] }
    else
      none
  | .ackConfigure i =>
    if s.acknowledged ≤ i then
      s.configures[i]?.map fun configure =>
        { s with window := s.window.ackConfigure configure.serial, acknowledged := i + 1 }
    else
      none
  | .commit buffer windowGeometry =>
    (s.window.commit buffer windowGeometry).map fun window => { s with window }

end Session
end KWin
