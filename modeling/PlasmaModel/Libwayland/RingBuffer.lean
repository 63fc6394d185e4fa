import PlasmaModel.Lib.Ring

namespace Libwayland

def WL_BUFFER_DEFAULT_SIZE_POT : ℕ :=
  12

def WL_BUFFER_DEFAULT_MAX_SIZE : ℕ :=
  2 ^ WL_BUFFER_DEFAULT_SIZE_POT

def sizePot (sizeBits : ℕ) : ℕ :=
  2 ^ sizeBits

-- What a ring buffer is filled with: bytes or file descriptors, whose size is a power of two and at most that of the
-- smallest buffer.
class Element (α : Type) where
  size     : ℕ
  zero     : α
  size_pos : 0 < size
  size_dvd : size ∣ WL_BUFFER_DEFAULT_MAX_SIZE

abbrev Byte := UInt8

abbrev Fd := ℤ

instance : Element Byte where
  size     := 1
  zero     := 0
  size_pos := by decide
  size_dvd := by decide

instance : Element Fd where
  size     := 4
  zero     := 0
  size_pos := by decide
  size_dvd := by decide

-- Here `head` and `tail` count elements and not bytes. They only ever grow until the buffer is allocated again.
structure RingBuffer (α : Type) where
  data        : List α := []
  head        : ℕ := 0
  tail        : ℕ := 0
  sizeBits    : ℕ := 0
  -- 0 for unlimited
  maxSizeBits : ℕ := 0

namespace RingBuffer

variable {α : Type} [Element α] (b : RingBuffer α)

def capacity : ℕ :=
  sizePot b.sizeBits / Element.size α

def mask (i : ℕ) : ℕ :=
  i % b.capacity

-- The data have `capacity` cells.
def put (elements : List α) : RingBuffer α :=
  if elements.length = 0 then
    b
  else
    { b with data := Ring.put b.data (b.mask b.head) elements, head := b.head + elements.length }

structure IoVec where
  base : ℕ
  len  : ℕ

def getIov : List IoVec :=
  let head := b.mask b.head
  let tail := b.mask b.tail
  if tail < head then
    [{ base := tail, len := head - tail }]
  else if head = 0 then
    [{ base := tail, len := b.capacity - tail }]
  else
    [{ base := tail, len := b.capacity - tail }, { base := 0, len := head }]

-- What the vector points at.
def gather (iov : List IoVec) : List α :=
  iov.flatMap fun v => (b.data.drop v.base).take v.len

def copy (count : ℕ) : List α :=
  if count = 0 then
    []
  else
    let tail := b.mask b.tail
    if tail + count ≤ b.capacity then
      (b.data.drop tail).take count
    else
      let size := b.capacity - tail
      (b.data.drop tail).take size ++ b.data.take (count - size)

-- How many elements there are.
def count : ℕ :=
  b.head - b.tail

def size : ℕ :=
  b.count * Element.size α

end RingBuffer

def getMaxSizeBitsForSize.search (bufferSize : ℕ) : ℕ → ℕ → ℕ
  | 0, maxSizeBits => maxSizeBits
  | bits + 1, maxSizeBits =>
    if sizePot maxSizeBits < bufferSize then search bufferSize bits (maxSizeBits + 1) else maxSizeBits

-- The search ends at the 64 bits of a `size_t`.
def getMaxSizeBitsForSize (bufferSize : ℕ) : ℕ :=
  if bufferSize = 0 then
    0
  else
    getMaxSizeBitsForSize.search bufferSize (64 - WL_BUFFER_DEFAULT_SIZE_POT) WL_BUFFER_DEFAULT_SIZE_POT

namespace RingBuffer

variable {α : Type} [Element α] (b : RingBuffer α)

def allocate (sizeBits : ℕ) : RingBuffer α :=
  let elements := b.copy b.count
  { b with
    data     := Ring.overwrite (List.replicate (sizePot sizeBits / Element.size α) Element.zero) 0 elements
    sizeBits := sizeBits
    head     := b.count
    tail     := 0 }

def getBitsForSize (netSize : ℕ) : ℕ :=
  let maxSizeBits := max (getMaxSizeBitsForSize netSize) WL_BUFFER_DEFAULT_SIZE_POT
  if 0 < b.maxSizeBits ∧ b.maxSizeBits < maxSizeBits then b.maxSizeBits else maxSizeBits

-- Nothing if the data are too big for the buffer.
def ensureSpace (size : ℕ) : Option (RingBuffer α) :=
  let netSize := b.size + size
  let sizeBits := b.getBitsForSize netSize
  if sizePot sizeBits < netSize then
    none
  else if sizeBits = b.sizeBits then
    some b
  else
    some (b.allocate sizeBits)

def setMaxSizeBits (maxSizeBits : ℕ) : RingBuffer α :=
  let b := { b with maxSizeBits }
  (b.ensureSpace 0).getD b

-- The elements that are closed, from the tail on: the pointer starts again where it reaches the end of the data.
def closeFds.close (b : RingBuffer Fd) : ℕ → ℕ → List Fd
  | 0, _ => []
  | count + 1, p =>
    let p := if b.capacity ≤ p then 0 else p
    (b.data.drop p).take 1 ++ close b count (p + 1)

def closeFds (b : RingBuffer Fd) (max : ℕ) : RingBuffer Fd × List Fd :=
  let count := if 0 < max ∧ max < b.count then max else b.count
  ({ b with tail := b.tail + count }, closeFds.close b count (b.mask b.tail))

end RingBuffer

end Libwayland
