import Mathlib.Data.Set.Basic
import Mathlib.Logic.Function.Basic

-- The readers of the connection of a client. Every section under the mutex of the display is one step.
namespace Libwayland

-- A thread that sleeps in `read_events` remembers the serial it has read. Which one of all wake-ups that was, the
-- thread does not know.
inductive ThreadState (Queue : Type)
  | running
  | prepared (queue : Queue)
  | asleep (serial : BitVec 32) (since : ℕ)

-- The last two members are not in the code: the number of wake-ups, and for every time that the socket was read the
-- threads that were prepared to read.
structure Display (Thread Queue Event : Type) where
  readerCount : Int := 0
  readSerial  : BitVec 32 := 0
  lastError   : Int := 0
  queues      : Queue → List Event := fun _ => []
  threads     : Thread → ThreadState Queue := fun _ => .running
  wakeups     : ℕ := 0
  socketReads : List (Set Thread) := []

-- What `wl_connection_read` answers: an error or that the socket is closed, or data. Of the data, `queue_event`
-- queues some events, until it fails or is done.
inductive SocketRead (Queue Event : Type)
  | error (errno : Int)
  | closed
  | data (events : List (Queue × Event)) (error : Option Int)

namespace Display

variable {Thread Queue Event : Type}

def eagain : Int := 11

def enomem : Int := 12

def efault : Int := 14

def einval : Int := 22

def epipe : Int := 32

def eproto : Int := 71

def outstanding (d : Display Thread Queue Event) : Set Thread :=
  { t | ∃ queue, d.threads t = .prepared queue }

def wakeupThreads (d : Display Thread Queue Event) : Display Thread Queue Event :=
  { d with readSerial := d.readSerial + 1, wakeups := d.wakeups + 1 }

def fatalError (d : Display Thread Queue Event) (error : Int) : Display Thread Queue Event :=
  if d.lastError ≠ 0 then
    d
  else
    let error := if error = 0 then efault else error
    wakeupThreads { d with lastError := error }

-- The codes 0 to 3 of `wl_display` are an invalid object, an invalid method, no memory and a bug of the server.
def protocolErrno (isDisplay : Bool) (code : ℕ) : Int :=
  if isDisplay then
    match code with
    | 0 | 1 => einval
    | 2 => enomem
    | 3 => eproto
    | _ => efault
  else
    eproto

-- The last error was checked before the mutex was locked, so one that was recorded in between is overwritten.
def protocolError (d : Display Thread Queue Event) (isDisplay : Bool) (code : ℕ) : Display Thread Queue Event :=
  { d with lastError := protocolErrno isDisplay code }

def cancelRead (d : Display Thread Queue Event) : Display Thread Queue Event :=
  let d := { d with readerCount := d.readerCount - 1 }
  if d.readerCount = 0 then
    d.wakeupThreads
  else
    d

variable [DecidableEq Thread] [DecidableEq Queue]

def setThread (d : Display Thread Queue Event) (t : Thread) (state : ThreadState Queue) : Display Thread Queue Event :=
  { d with threads := Function.update d.threads t state }

def queueEvent (d : Display Thread Queue Event) (event : Queue × Event) : Display Thread Queue Event :=
  { d with queues := Function.update d.queues event.1 (d.queues event.1 ++ [event.2]) }

def readSocket (d : Display Thread Queue Event) : SocketRead Queue Event → Display Thread Queue Event
  | .error errno => if errno = eagain then d.wakeupThreads else d.fatalError errno
  | .closed => d.fatalError epipe
  | .data events error =>
    let d := events.foldl queueEvent d
    match error with
    | some errno => d.fatalError errno
    | none => d.wakeupThreads

-- This is `read_events`. A thread that does not read itself begins to sleep.
def readEvents (d : Display Thread Queue Event) (t : Thread) (answer : SocketRead Queue Event) :
    Display Thread Queue Event :=
  let d := { d with readerCount := d.readerCount - 1 }
  if d.readerCount = 0 then
    let d := d.setThread t .running
    { d with socketReads := d.outstanding :: d.socketReads }.readSocket answer
  else
    d.setThread t (.asleep d.readSerial d.wakeups)

def displayReadEvents (d : Display Thread Queue Event) (t : Thread) (answer : SocketRead Queue Event) :
    Display Thread Queue Event :=
  if d.lastError ≠ 0 then
    (d.setThread t .running).cancelRead
  else
    d.readEvents t answer

def prepareReadQueue (d : Display Thread Queue Event) (t : Thread) (queue : Queue) : Display Thread Queue Event :=
  if (d.queues queue).isEmpty then
    { d with readerCount := d.readerCount + 1 }.setThread t (.prepared queue)
  else
    d

-- What `dispatch_queue` does under the mutex before it calls a handler.
def dispatchEvent (d : Display Thread Queue Event) (queue : Queue) : Display Thread Queue Event :=
  if d.lastError ≠ 0 then
    d
  else
    { d with queues := Function.update d.queues queue (d.queues queue).tail }

-- A section of code under the mutex. In `wake`, a thread in `pthread_cond_wait` gets the mutex back, for whatever reason.
inductive Section (Thread Queue Ev : Type)
  | prepareRead (t : Thread) (queue : Queue)
  | readEvents (t : Thread) (answer : SocketRead Queue Ev)
  | cancelRead (t : Thread)
  | wake (t : Thread)
  | dispatchEvent (queue : Queue)
  | fatalError (error : Int)
  | protocolError (isDisplay : Bool) (code : ℕ)

-- A thread prepares to read when it is not prepared, and reads or cancels when it is.
def step (d : Display Thread Queue Event) : Section Thread Queue Event → Option (Display Thread Queue Event)
  | .prepareRead t queue =>
    match d.threads t with
    | .running => some (d.prepareReadQueue t queue)
    | _ => none
  | .readEvents t answer =>
    match d.threads t with
    | .prepared _ => some (d.displayReadEvents t answer)
    | _ => none
  | .cancelRead t =>
    match d.threads t with
    | .prepared _ => some (d.setThread t .running).cancelRead
    | _ => none
  | .wake t =>
    match d.threads t with
    | .asleep serial _ => some (if d.readSerial = serial then d else d.setThread t .running)
    | _ => none
  | .dispatchEvent queue => some (d.dispatchEvent queue)
  | .fatalError error => some (d.fatalError error)
  | .protocolError isDisplay code => some (d.protocolError isDisplay code)

end Display

end Libwayland
