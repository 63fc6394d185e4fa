import PlasmaModel.Libwayland.Map

-- The receiving side of a connection.
namespace Libwayland

namespace RingBuffer

variable {α : Type} [Element α] (b : RingBuffer α)

def isMaxSizeReached : Bool :=
  let netSize := b.size + 1
  sizePot (b.getBitsForSize netSize) ≤ netSize

end RingBuffer

-- What a call of `recvmsg` answers once it is not interrupted. Where a list of answers ends, it would block.
inductive Received
  | data (bytes : List Byte) (fds : List Fd)
  | eof
  | failed

inductive ReadResult
  | size (size : ℕ)
  | eagain
  | failed
deriving DecidableEq

namespace Connection

variable (connection : Connection)

-- Nothing if they do not fit, and then they are closed.
def decodeCmsg (fds : List Fd) : Option Connection :=
  if fds = [] then
    some connection
  else
    (connection.fdsIn.ensureSpace (fds.length * 4)).map fun fdsIn => { connection with fdsIn := fdsIn.put fds }

-- There is no answer if `recvmsg` could not give the next one: it fills no more than the room that is left, and 0
-- bytes are the end of the file.
def read (connection : Connection) (answers : List Received) : Option (Connection × ReadResult) :=
  if connection.input.isMaxSizeReached then
    some (connection, .size connection.input.size)
  else
    match connection.input.ensureSpace 1 with
    | none => some (connection, .failed)
    | some input =>
      let connection := { connection with input }
      match answers with
      | [] => some (connection, if 0 < input.size then .size input.size else .eagain)
      | .eof :: _ => some (connection, .size input.size)
      | .failed :: _ => some (connection, .failed)
      | .data bytes fds :: answers =>
        if bytes = [] ∨ input.capacity < input.count + bytes.length then
          none
        else
          match connection.decodeCmsg fds with
          | none => some (connection, .failed)
          | some connection => { connection with input := input.put bytes }.read answers

end Connection

end Libwayland

-- A client: what it reads from the server, and what its threads do with that. Every section under the mutex is one step.
namespace Libwayland

def WL_MAX_MESSAGE_SIZE : ℕ :=
  4096

structure QueuedEvent where
  proxy   : Address
  closure : Closure

-- A call of a handler of `wl_display`, which has not locked the mutex yet.
inductive DisplayEvent
  | error
  | deleteId (id : ObjectId)

-- The last two members are not in the code: the calls of the listeners so far, and the file descriptors that have been
-- closed with an event.
structure Client (Interface : Type) where
  objects    : Objects Interface
  connection : Connection
  queues     : EventQueue → List QueuedEvent := fun _ => []
  lastError  : Bool := false
  handlers   : List DisplayEvent := []
  invoked    : List QueuedEvent := []
  closed     : List Fd := []

inductive QueueResult
  | size (size : ℕ)
  | failed
  -- by `wl_abort`
  | aborted

namespace Objects

variable {Interface : Type}

def createProxies (o : Objects Interface) (sender : Proxy Interface) :
    List (Argument × Option Interface) → Objects Interface × Bool
  | [] => (o, true)
  | (.newId (some id), some interface) :: others =>
    if id = 0 then
      o.createProxies sender others
    else
      match o.proxyCreateForId interface sender.queue id with
      | none => (o, false)
      | some o => o.createProxies sender others
  | _ :: others => o.createProxies sender others

variable (o : Objects Interface) [DecidableEq Interface]

-- An object that is destroyed becomes NULL.
def lookupObject : Argument × Option Interface → Bool
  | (.object (some id), type) =>
    if o.map.objectIsZombie id then
      true
    else
      match o.proxyAt (o.map.lookup id) with
      | some proxy => type.all (· = proxy.interface)
      | none => id = 0
  | _ => true

def lookupObjects (args : List (Argument × Option Interface)) : Bool :=
  args.all o.lookupObject

-- How many file descriptors come with an event for something that is not there any more.
def numZombieFds (zombie : Address) (opcode : ℕ) : ℕ :=
  match o.zombieAt zombie with
  | some zombie => if opcode < zombie.eventCount then zombie.fdCount.getD opcode 0 else 0
  | none => 0

end Objects

namespace Client

variable {Interface : Type} [DecidableEq Interface] (protocol : Protocol Interface) (d : Client Interface)

-- The proxy of the display is allocated first.
def displayAddress : Address :=
  4

def connect : Client Interface :=
  let map : WlMap := { side := .client }
  let objects : Objects Interface := { map := (map.insertAt 0 0 0).getD map }
  { objects := (objects.proxyCreate protocol.display (some .default)).1, connection := Connection.create 0 }

def discardEvent (id : ObjectId) (opcode size : ℕ) : Client Interface × QueueResult :=
  let numZombieFds := d.objects.numZombieFds (d.objects.map.lookup id) opcode
  let (fdsIn, closed) :=
    if 0 < numZombieFds then d.connection.fdsIn.closeFds numZombieFds else (d.connection.fdsIn, [])
  ({ d with connection := { d.connection with fdsIn }.consume size, closed := d.closed ++ closed }, .size size)

def enqueueEvent (address : Address) (proxy : Proxy Interface) (closure : Closure) (size : ℕ) :
    Client Interface × QueueResult :=
  match if address = displayAddress then some .display else proxy.queue with
  | none => (d, .aborted)
  | some queue =>
    ({ d with queues := Function.update d.queues queue (d.queues queue ++ [{ proxy := address, closure }]) }, .size size)

def demarshalEvent (address : Address) (proxy : Proxy Interface) (message : Message Interface) (size : ℕ) :
    Client Interface × QueueResult :=
  let (connection, map, closure) := d.connection.demarshal size d.objects.map message.signature
  let d := { d with connection, objects := { d.objects with map } }
  match closure with
  | none => (d, .failed)
  | some closure =>
    let args := closure.args.zip message.types
    let (objects, created) := d.objects.createProxies proxy args
    let d := { d with objects }
    if created ∧ objects.lookupObjects args then
      d.enqueueEvent address proxy closure size
    else
      ({ d with closed := d.closed ++ closure.fds }, .failed)

def queueEvent (len : ℕ) : Client Interface × QueueResult :=
  let p := d.connection.input.copy 8
  let id := readWord p
  let opcode := (readWord (p.drop 4) &&& 0xffff).toNat
  let size := (readWord (p.drop 4) >>> 16).toNat
  if WL_MAX_MESSAGE_SIZE < size then
    (d, .failed)
  else if len < size then
    (d, .size 0)
  else if d.objects.map.lookup id = 0 ∨ d.objects.map.objectIsZombie id then
    d.discardEvent id opcode size
  else
    match d.objects.proxyAt (d.objects.map.lookup id) with
    | none => (d, .aborted)
    | some proxy =>
      match (protocol.events proxy.interface)[opcode]? with
      | none => (d, .failed)
      | some message => d.demarshalEvent (d.objects.map.lookup id) proxy message size

def proceed (result : Client Interface × QueueResult) (next : Client Interface → ℕ → Option (Client Interface)) :
    Option (Client Interface) :=
  match result with
  | (d, .failed) => some { d with lastError := true }
  | (_, .aborted) => none
  | (d, .size size) => next d size

-- The loop of `read_events`, in which `rem` bytes remain. It ends before there are more rounds than bytes.
def queueEvents (d : Client Interface) : ℕ → ℕ → Option (Client Interface)
  | 0, _ => some d
  | rounds + 1, rem =>
    if rem < 8 then
      some d
    else
      proceed (d.queueEvent protocol rem) fun d size => if size = 0 then some d else d.queueEvents rounds (rem - size)

def readEvents (answers : List Received) : Option (Client Interface) :=
  match d.connection.read answers with
  | none => none
  | some (connection, .eagain) => some { d with connection }
  | some (connection, .failed) => some { d with connection, lastError := true }
  | some (connection, .size total) =>
    if total = 0 then
      some { d with connection, lastError := true }
    else
      { d with connection }.queueEvents protocol total total

def displayEvent (closure : Closure) : List DisplayEvent :=
  match closure.args with
  | [.uint id] => [.deleteId id]
  | _ => [.error]

-- The file descriptors of an event are closed with it unless a listener has got them.
def invokeEvent (proxy : Proxy Interface) (event : QueuedEvent) : Client Interface :=
  if proxy.destroyed then
    { d with closed := d.closed ++ event.closure.fds }
  else if event.proxy = displayAddress then
    { d with handlers := d.handlers ++ displayEvent event.closure }
  else if proxy.listener then
    { d with invoked := d.invoked ++ [event] }
  else
    { d with closed := d.closed ++ event.closure.fds }

def dispatchEvent (queue : EventQueue) : Option (Client Interface) :=
  match d.queues queue with
  | [] => some d
  | event :: events =>
    let d := { d with queues := Function.update d.queues queue events }
    (d.objects.proxyAt event.proxy).map fun proxy => d.invokeEvent proxy event

def handleDisplayEvent : DisplayEvent → Client Interface
  | .error => { d with lastError := true }
  | .deleteId id => { d with objects := d.objects.handleDeleteId id }

inductive Section (Interface : Type)
  | create (interface : Interface) (queue : EventQueue)
  | addListener (address : Address)
  | destroy (address : Address)
  | readEvents (answers : List Received)
  | dispatchEvent (queue : EventQueue)
  | handle (i : ℕ)

-- The client uses no proxy that it has destroyed, and does not destroy that of the display.
def step : Section Interface → Option (Client Interface)
  | .create interface queue => some { d with objects := (d.objects.proxyCreate interface (some queue)).1 }
  | .addListener address =>
    match d.objects.proxyAt address with
    | some proxy =>
      if proxy.destroyed then
        none
      else
        some { d with objects := d.objects.setProxy address { proxy with listener := true } }
    | none => none
  | .destroy address =>
    match d.objects.proxyAt address with
    | some proxy =>
      if proxy.destroyed ∨ address = displayAddress then
        none
      else
        some { d with objects := d.objects.proxyDestroy protocol address proxy }
    | none => none
  | .readEvents answers => if d.lastError then some d else d.readEvents protocol answers
  | .dispatchEvent queue => if d.lastError then some d else d.dispatchEvent queue
  | .handle i =>
    match d.handlers[i]? with
    | some event => some ({ d with handlers := d.handlers.eraseIdx i }.handleDisplayEvent event)
    | none => none

end Client

end Libwayland
