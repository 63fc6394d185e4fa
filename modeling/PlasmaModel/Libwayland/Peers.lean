import PlasmaModel.Libwayland.Client

-- A client and a server, and the messages between them. An object of the client is known by the address of its proxy,
-- which is not on the wire. Those of the server have ids of their own.
namespace Libwayland

structure Method where
  signature  : Signature
  destructor : Bool

structure NewId (Interface : Type) where
  id        : ObjectId
  interface : Interface
  proxy     : Address

-- The last two members are not on the wire: the object that it is for, and whether it is the last one for that.
structure Request (Interface : Type) where
  sender     : ObjectId
  opcode     : ℕ
  newIds     : List (NewId Interface)
  proxy      : Address
  destructor : Bool

-- Those of `wl_display` that delete an id, and all others.
inductive PostedEvent
  | deleteId (id : ObjectId) (proxy : Address)
  | other (id : ObjectId) (proxy : Address)

namespace PostedEvent

-- The object in the header.
def sender : PostedEvent → ObjectId
  | .deleteId .. => 1
  | .other id _ => id

def proxy : PostedEvent → Address
  | .deleteId _ proxy => proxy
  | .other _ proxy => proxy

def deleted : PostedEvent → Option (ObjectId × Address)
  | .deleteId id proxy => some (id, proxy)
  | .other .. => none

end PostedEvent

structure QueuedPost where
  proxy : Address
  event : PostedEvent

-- The destructor of an object has been called once the request for that has been handled.
structure Resource (Interface : Type) where
  id         : ObjectId
  interface  : Interface
  proxy      : Address
  destructor : Bool := false

-- Memory that is freed is not used again here either.
structure Server (Interface : Type) where
  map       : WlMap
  resources : Address → Option (Resource Interface) := fun _ => none
  allocated : ℕ := 0
  error     : Bool := false

namespace Server

variable {Interface : Type} (methods : Interface → List Method) (s : Server Interface)

def fresh : Address :=
  4 * (s.allocated + 1)

-- The resource of the display is allocated first.
def displayResource : Address :=
  4

def resourceCreate (newId : NewId Interface) : Option (Server Interface) :=
  (s.map.insertAt 0 newId.id s.fresh).map fun map =>
    let resource : Resource Interface := { id := newId.id, interface := newId.interface, proxy := newId.proxy }
    { s with map, resources := Function.update s.resources s.fresh (some resource), allocated := s.allocated + 1 }

def createResources (s : Server Interface) : List (NewId Interface) → Option (Server Interface)
  | [] => some s
  | newId :: newIds => (s.resourceCreate newId).bind fun s => s.createResources newIds

-- What is done with the new ids when a request is demarshalled.
def reserveNewIds (map : WlMap) : List ObjectId → Option WlMap
  | [] => some map
  | id :: ids => if id = 0 then none else (map.reserveNew id).bind fun map => reserveNewIds map ids

-- The handler creates a resource for each new id.
def handleRequest (request : Request Interface) : Server Interface :=
  let address := s.map.lookup request.sender
  match s.resources address with
  | none => { s with error := true }
  | some resource =>
    match (methods resource.interface)[request.opcode]? with
    | none => { s with error := true }
    | some method =>
      match reserveNewIds s.map (request.newIds.map NewId.id) with
      | none => { s with error := true }
      | some map =>
        let resource := { resource with destructor := resource.destructor || method.destructor }
        let s := { s with map, resources := Function.update s.resources address (some resource) }
        (s.createResources request.newIds).getD { s with error := true }

def resourceDestroy (address : Address) (resource : Resource Interface) : Server Interface :=
  { s with
    map       := (s.map.insertAt 0 resource.id 0).getD s.map
    resources := Function.update s.resources address none }

def connect (display : Interface) : Server Interface :=
  let map : WlMap := { side := .server }
  let s : Server Interface := { map := (map.insertAt 0 0 0).getD map }
  (s.resourceCreate { id := 1, interface := display, proxy := Client.displayAddress }).getD s

end Server

-- From `given` on the members are not in the code: the proxies that the program of the client knows, those it sends no
-- requests to, whose destructor it has sent, whose `delete_id` it has processed, and the events that the listeners
-- got.
structure Peers (Interface : Type) where
  objects    : Objects Interface
  queues     : EventQueue → List QueuedPost := fun _ => []
  handlers   : List PostedEvent := []
  lastError  : Bool := false
  requests   : List (Request Interface) := []
  events     : List PostedEvent := []
  server     : Server Interface
  given      : List Address := [Client.displayAddress]
  silent     : List Address := []
  finished   : List Address := []
  deleted    : List Address := []
  dispatched : List QueuedPost := []

namespace Objects

variable {Interface : Type}

-- Answers the objects of the arguments that are new ids, and nothing if there are too many objects.
def createOutgoingProxies (o : Objects Interface) (queue : Option EventQueue) (interface : Interface) :
    List ArgumentDetails → Objects Interface × Option (List (NewId Interface))
  | [] => (o, some [])
  | details :: others =>
    if details.type ≠ .newId then
      o.createOutgoingProxies queue interface others
    else
      let (o, proxy) := o.proxyCreate interface queue
      if proxy = 0 then
        (o, none)
      else
        let id := ((o.proxyAt proxy).map Proxy.id).getD 0
        let (o, newIds) := o.createOutgoingProxies queue interface others
        (o, newIds.map ({ id, interface, proxy } :: ·))

end Objects

namespace Peers

variable {Interface : Type} (protocol : Protocol Interface) (methods : Interface → List Method) (d : Peers Interface)

def connect : Peers Interface where
  objects := (Client.connect protocol).objects
  server  := Server.connect protocol.display

-- The last proxy is the one that the program gets, and nothing is sent after an error.
def sendRequest (address : Address) (proxy : Proxy Interface) (opcode : ℕ) (method : Method)
    (newIds : List (NewId Interface)) (silent : Bool) : Peers Interface :=
  let created := newIds.map NewId.proxy
  let d := { d with
    given  := created.getLast?.toList ++ d.given
    silent := if silent then created ++ d.silent else d.silent }
  if d.lastError then
    d
  else
    let request := { sender := proxy.id, opcode, newIds, proxy := address, destructor := method.destructor }
    { d with
      requests := d.requests ++ [request]
      finished := if method.destructor then address :: d.finished else d.finished }

def destroyProxy (address : Address) (proxy : Proxy Interface) : Peers Interface :=
  { d with objects := d.objects.proxyDestroy protocol address proxy }

-- This is `wl_proxy_marshal_array_flags`.
def marshal (address : Address) (proxy : Proxy Interface) (opcode : ℕ) (method : Method) (interface : Option Interface)
    (silent destroy : Bool) : Peers Interface :=
  let d :=
    match interface with
    | none => d.sendRequest address proxy opcode method [] silent
    | some interface =>
      match d.objects.createOutgoingProxies proxy.queue interface (argumentDetails method.signature) with
      | (objects, none) | (objects, some []) => { d with objects }
      | (objects, some newIds) => { d with objects }.sendRequest address proxy opcode method newIds silent
  if destroy then d.destroyProxy protocol address proxy else d

-- This is `queue_event`.
def queueEvent (event : PostedEvent) : Option (Peers Interface) :=
  let address := d.objects.map.lookup event.sender
  if address = 0 ∨ d.objects.map.objectIsZombie event.sender then
    some d
  else
    match d.objects.proxyAt address with
    | none => none
    | some proxy =>
      (if address = Client.displayAddress then some .display else proxy.queue).map fun queue =>
        { d with queues := Function.update d.queues queue (d.queues queue ++ [{ proxy := address, event }]) }

def invokeEvent (proxy : Proxy Interface) (event : QueuedPost) : Peers Interface :=
  if proxy.destroyed then
    d
  else if event.proxy = Client.displayAddress then
    { d with handlers := d.handlers ++ [event.event] }
  else if proxy.listener then
    { d with dispatched := d.dispatched ++ [event] }
  else
    d

def dispatchEvent (queue : EventQueue) : Option (Peers Interface) :=
  match d.queues queue with
  | [] => some d
  | event :: events =>
    let d := { d with queues := Function.update d.queues queue events }
    (d.objects.proxyAt event.proxy).map fun proxy => d.invokeEvent proxy event

-- The other events of the display tell of errors.
def handleDisplayEvent : PostedEvent → Peers Interface
  | .deleteId id proxy => { d with objects := d.objects.handleDeleteId id, deleted := proxy :: d.deleted }
  | .other .. => { d with lastError := true }

inductive Action (Interface : Type)
  | marshal (address : Address) (opcode : ℕ) (interface : Option Interface) (silent destroy : Bool)
  | destroy (address : Address)
  | addListener (address : Address)
  | setQueue (address : Address) (queue : EventQueue)
  | fail
  | readEvent
  | dispatchEvent (queue : EventQueue)
  | handle (i : ℕ)
  | handleRequest
  | postEvent (address : Address)
  | destroyResource (address : Address)

-- The proxies that the program can use.
def proxyOf (address : Address) : Option (Proxy Interface) :=
  if address ∈ d.given then (d.objects.proxyAt address).filter fun proxy => !proxy.destroyed else none

-- The client sends no request after the destructor, and does not destroy the proxy of the display. The server destroys
-- what the client has sent the destructor of, or sends no requests to.
def step : Action Interface → Option (Peers Interface)
  | .marshal address opcode interface silent destroy =>
    (d.proxyOf address).bind fun proxy =>
      ((methods proxy.interface)[opcode]?).bind fun method =>
        if address ∈ d.silent ∨ address ∈ d.finished then
          none
        else if interface.isNone ∧ (argumentDetails method.signature).any fun details => details.type = .newId then
          none
        else if destroy ∧ address = Client.displayAddress then
          none
        else
          some (d.marshal protocol address proxy opcode method interface silent destroy)
  | .destroy address =>
    (d.proxyOf address).bind fun proxy =>
      if address = Client.displayAddress then none else some (d.destroyProxy protocol address proxy)
  | .addListener address =>
    (d.proxyOf address).map fun proxy =>
      { d with objects := d.objects.setProxy address { proxy with listener := true } }
  | .setQueue address queue =>
    (d.proxyOf address).map fun proxy =>
      { d with objects := d.objects.setProxy address { proxy with queue := some queue } }
  | .fail => some { d with lastError := true }
  | .readEvent =>
    match d.events with
    | [] => some d
    | event :: events => if d.lastError then some d else { d with events }.queueEvent event
  | .dispatchEvent queue => if d.lastError then some d else d.dispatchEvent queue
  | .handle i =>
    (d.handlers[i]?).map fun event => { d with handlers := d.handlers.eraseIdx i }.handleDisplayEvent event
  | .handleRequest =>
    match d.requests with
    | [] => some d
    | request :: requests =>
      if d.server.error then
        some d
      else
        some { d with requests, server := d.server.handleRequest methods request }
  | .postEvent address =>
    (d.server.resources address).map fun resource =>
      { d with events := d.events ++ [.other resource.id resource.proxy] }
  | .destroyResource address =>
    (d.server.resources address).bind fun resource =>
      if address = Server.displayResource then
        none
      else if resource.destructor ∨ resource.proxy ∈ d.silent then
        some { d with
          events := d.events ++ [.deleteId resource.id resource.proxy]
          server := d.server.resourceDestroy address resource }
      else
        none

end Peers

end Libwayland
