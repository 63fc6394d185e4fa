import PlasmaModel.Lib.Runs

namespace KWin.Xwl

def incrChunkSize : Nat := 63 * 1024

-- The `bytes` have been read into the array of the chunk. The rest of the array, up to its `size`, is uninitialised.
structure Chunk where
  bytes : List UInt8
  size  : Nat

namespace Chunk

def new : Chunk where
  bytes := []
  size  := incrChunkSize

def isFull (chunk : Chunk) : Bool :=
  chunk.bytes.length = incrChunkSize

def data (chunk : Chunk) : List (Option UInt8) :=
  chunk.bytes.map some ++ List.replicate (chunk.size - chunk.bytes.length) none

def append (chunk : Chunk) (bytes : List UInt8) : Chunk :=
  { chunk with bytes := chunk.bytes ++ bytes }

def shrink (chunk : Chunk) : Chunk :=
  { chunk with size := chunk.bytes.length }

end Chunk

-- What happens to the property of the requestor, and that the requestor is told of it.
inductive XEvent
  | setIncr
  | setData (data : List (Option UInt8))
  | deleted
  | selectionNotify
deriving DecidableEq

inductive Outcome
  | completed
  | readError
  | timedOut

-- The bytes that the Wayland client has not been asked for yet are `source`. On the side of X, `property` is whether
-- the requestor's property exists, and `deletions` counts the deletions that have not been handled.
structure TransferWltoX where
  source                : List UInt8
  chunks                : List Chunk := []
  propertyIsSet         : Bool := false
  flushPropertyOnDelete : Bool := false
  incr                  : Bool := false
  timeout               : Bool := false
  notifier              : Bool := true
  outcome               : Option Outcome := none
  property              : Bool := false
  deletions             : Nat := 0
  history               : List XEvent := []

namespace TransferWltoX

def changeProperty (s : TransferWltoX) (value : XEvent) : TransferWltoX :=
  { s with property := true, history := s.history ++ [value] }

def sendSelectionNotify (s : TransferWltoX) : TransferWltoX :=
  { s with history := s.history ++ [.selectionNotify] }

def endTransfer (s : TransferWltoX) (outcome : Outcome) : TransferWltoX :=
  { s with notifier := false, outcome := outcome }

-- It is asserted that there is a chunk.
def flushSourceData (s : TransferWltoX) : TransferWltoX :=
  match s.chunks with
  | chunk :: chunks => { s.changeProperty (.setData chunk.data) with propertyIsSet := true, timeout := false, chunks }
  | [] => s

def startIncr (s : TransferWltoX) : TransferWltoX :=
  { s.changeProperty .setIncr with incr := true, flushPropertyOnDelete := true, propertyIsSet := true }.sendSelectionNotify

-- The chunk that is read into, and the ones before it.
def openChunk (s : TransferWltoX) : List Chunk × Chunk :=
  match s.chunks.getLast? with
  | some last => if last.isFull then (s.chunks, .new) else (s.chunks.dropLast, last)
  | none => ([], .new)

def flushUnlessSet (s : TransferWltoX) : TransferWltoX :=
  let s := { s with flushPropertyOnDelete := true }
  if s.propertyIsSet then s else s.flushSourceData

def readWlSource (s : TransferWltoX) (readLen : Nat) : TransferWltoX :=
  let (front, last) := s.openChunk
  let last := last.append (s.source.take readLen)
  let s := { s with source := s.source.drop readLen, chunks := front ++ [last], timeout := false }
  if readLen = 0 then
    let s := { s with chunks := front ++ [last.shrink] }
    if s.incr then
      { s.flushUnlessSet with notifier := false }
    else
      s.flushSourceData.sendSelectionNotify.endTransfer .completed
  else if last.isFull then
    if s.incr then s.flushUnlessSet else s.startIncr
  else
    s

def handlePropertyDelete (s : TransferWltoX) : TransferWltoX :=
  if s.incr then
    let s := { s with propertyIsSet := false }
    if s.flushPropertyOnDelete then
      if s.notifier = false ∧ s.chunks = [] then
        { s.changeProperty (.setData []) with flushPropertyOnDelete := false }.endTransfer .completed
      else if s.chunks ≠ [] then
        s.flushSourceData
      else
        s
    else
      s
  else
    s

def handleTimeout (s : TransferWltoX) : TransferWltoX :=
  if s.timeout then { s.endTransfer .timedOut with timeout := true } else { s with timeout := true }

inductive Event
  | read (readLen : Nat)
  | readError
  | deleteProperty
  | propertyNotify
  | timeout

-- Nothing is read only at the end of the source.
def Reads (s : TransferWltoX) (readLen : Nat) : Prop :=
  s.notifier ∧ readLen ≤ incrChunkSize - s.openChunk.2.bytes.length ∧ readLen ≤ s.source.length ∧
    (readLen = 0 ↔ s.source = [])

instance (s : TransferWltoX) (readLen : Nat) : Decidable (s.Reads readLen) :=
  inferInstanceAs (Decidable (_ ∧ _ ∧ _ ∧ _))

def handle (s : TransferWltoX) : Event → Option TransferWltoX
  | .read readLen => if s.Reads readLen then some (s.readWlSource readLen) else none
  | .readError => if s.notifier then some (s.endTransfer .readError) else none
  | .deleteProperty =>
    if s.property then
      some { s with property := false, deletions := s.deletions + 1, history := s.history ++ [.deleted] }
    else
      none
  | .propertyNotify =>
    if 0 < s.deletions then some { s with deletions := s.deletions - 1 }.handlePropertyDelete else none
  | .timeout => some s.handleTimeout

def step (s : TransferWltoX) (event : Event) : Option TransferWltoX :=
  if s.outcome = none then s.handle event else none

-- The requestor's property does not exist when the transfer starts.
def start (source : List UInt8) : TransferWltoX :=
  { source }

end TransferWltoX
end KWin.Xwl
