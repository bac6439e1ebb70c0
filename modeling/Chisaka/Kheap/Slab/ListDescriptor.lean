import Chisaka.Lib.Bytes
import Chisaka.Lib.Chain
import Chisaka.Memmap.MemoryMap

/-!
# List descriptors

A `ListDescriptor` manages one slab: `pages` pages at `baseAddress`, cut into buffers of
`bufferSize` bytes.  The free buffers are a singly linked list threaded through their first words,
in ascending order of addresses.  Descriptors of one size are kept on circular doubly linked lists,
through `nextList` and `prevList`.

The methods that look at one slab only come first, as functions of the memory and the descriptor.
The list operations follow; they work on a `Heap`, which is memory together with the descriptor
objects that are alive.  Descriptors are kept as records apart from the bytes of memory: the kernel
never looks at one through the other, and that the two do not overlap is something to be proved.
-/

set_option autoImplicit false

namespace Chisaka.Slab

open Bytes

/-- `ListDescriptor`. -/
structure ListDescriptor where
  /-- `m_baseAddress`. -/
  baseAddress : ℕ
  /-- `m_nextFree`. -/
  nextFree : ℕ
  /-- `m_nextList`. -/
  nextList : ℕ
  /-- `m_prevList`. -/
  prevList : ℕ
  /-- `m_bufferSize`, 16 bits. -/
  bufferSize : ℕ
  /-- `m_totalBuffers`, 16 bits. -/
  totalBuffers : ℕ
  /-- `m_buffersUsed`, 16 bits. -/
  buffersUsed : ℕ
  /-- `m_pages`, 8 bits. -/
  pages : ℕ
  deriving DecidableEq, Repr

namespace ListDescriptor

/-- The constructor of a descriptor at address `this`. -/
def new (this baseAddr : ℕ) (bufferSize : UInt16) (pages : UInt8) : ListDescriptor :=
  let size := if bufferSize < 8 then 8 else bufferSize.toNat
  { baseAddress := baseAddr
    nextFree := 0
    nextList := this
    prevList := this
    bufferSize := size
    totalBuffers := pages.toNat * 0x1000 / size % 2 ^ 16
    buffersUsed := 0
    pages := pages.toNat }

/-- `Limit`. -/
def limit (ld : ListDescriptor) : ℕ := add64 ld.baseAddress (0x1000 * ld.pages)

/-- `Full`. -/
def full (ld : ListDescriptor) : Bool := ld.totalBuffers = ld.buffersUsed

/-- `Empty`. -/
def empty (ld : ListDescriptor) : Bool := ld.buffersUsed = 0

/-- `HasSpace`. -/
def hasSpace (ld : ListDescriptor) : Bool := ld.buffersUsed < ld.totalBuffers

/-- `ObjectInRange`. -/
def objectInRange (ld : ListDescriptor) (obj : ℕ) : Bool :=
  ld.baseAddress ≤ obj ∧ obj < ld.limit

/-- The loop of `SetupLinkage`, over memory and `currentBuffer`. -/
def setupLinkageBody (size limit : ℕ) : Memory × ℕ → Exec ((Memory × ℕ) ⊕ (Memory × ℕ))
  | (mem, current) =>
    if add64 current size < limit then do
      let mem ← store mem current (add64 current size)
      return .inl (mem, add64 current size)
    else return .inr (mem, current)

/-- `SetupLinkage`. -/
def setupLinkage (mem : Memory) (ld : ListDescriptor) : Exec (Memory × ListDescriptor) := do
  let (mem, current) ←
    Loop.exec (setupLinkageBody ld.bufferSize ld.limit) (mem, ld.baseAddress)
  let mem ← store mem current 0
  return (mem, { ld with nextFree := ld.baseAddress })

/-- `Allocate`. -/
def allocate (mem : Memory) (ld : ListDescriptor) : Exec (ℕ × ListDescriptor) := do
  if ld.buffersUsed = ld.totalBuffers then
    return (0, ld)
  let entry := ld.nextFree
  let next ← load mem entry
  let used := (ld.buffersUsed + 1) % 2 ^ 16
  return (entry,
    { ld with nextFree := if used = ld.totalBuffers then 0 else next, buffersUsed := used })

/-- `Deallocate`. -/
def deallocate (mem : Memory) (ld : ListDescriptor) (address : ℕ) :
    Exec (Memory × ListDescriptor) := do
  if ¬ld.objectInRange address ∨ ld.buffersUsed = 0 then
    return (mem, ld)
  if ld.nextFree = 0 then
    let mem ← store mem address 0
    return (mem, { ld with nextFree := address, buffersUsed := ld.buffersUsed - 1 })
  let (prevCell, currentCell) ← Chain.seek (load mem) 0 address (0, ld.nextFree)
  if prevCell = 0 then
    let mem ← store mem address currentCell
    return (mem, { ld with nextFree := address, buffersUsed := ld.buffersUsed - 1 })
  let mem ← store mem prevCell address
  let mem ← store mem address currentCell
  return (mem, { ld with buffersUsed := ld.buffersUsed - 1 })

end ListDescriptor

/-! ## The heap of descriptors -/

/-- Memory, and the descriptors that are alive. -/
structure Heap where
  /-- The bytes of memory. -/
  mem : Memory
  /-- The descriptor at an address, if one is alive there. -/
  descs : ℕ → Option ListDescriptor

namespace Heap

/-- The descriptor a pointer points to. -/
def deref (h : Heap) (d : ℕ) : Exec ListDescriptor :=
  if d = 0 then .error .nullDeref
  else match h.descs d with
    | none => .error .dangling
    | some ld => .ok ld

/-- The heap with `ld` at `d`. -/
def put (h : Heap) (d : ℕ) (ld : ListDescriptor) : Heap :=
  { h with descs := fun x ↦ if x = d then some ld else h.descs x }

/-- Assign to members of the descriptor a pointer points to. -/
def modify (h : Heap) (d : ℕ) (f : ListDescriptor → ListDescriptor) : Exec Heap := do
  let ld ← h.deref d
  return h.put d (f ld)

/-- The heap in which no descriptor is alive at `d`. -/
def kill (h : Heap) (d : ℕ) : Heap :=
  { h with descs := fun x ↦ if x = d then none else h.descs x }

/-! ## List operations -/

/-- `AddList`: put `src` in front of `this`. -/
def addList (h : Heap) (this src : ℕ) : Exec Heap := do
  let t ← h.deref this
  let s ← h.deref src
  if s.bufferSize ≠ t.bufferSize then
    return h
  if this = src then
    return h
  if this = t.prevList ∧ this = t.nextList then
    let h ← h.modify this fun t ↦ { t with nextList := src, prevList := src }
    h.modify src fun s ↦ { s with prevList := this, nextList := this }
  else
    let h ← h.modify src fun s ↦ { s with nextList := this, prevList := t.prevList }
    let h ← h.modify t.prevList fun p ↦ { p with nextList := src }
    h.modify this fun t ↦ { t with prevList := src }

/-- `Remove`: take `entry` out of the list of `this`. -/
def remove (h : Heap) (this entry : ℕ) : Exec Heap := do
  if this = entry then
    return h
  let t ← h.deref this
  if t.prevList = entry ∧ t.nextList = entry then
    h.modify this fun t ↦ { t with nextList := this, prevList := this }
  else
    let e ← h.deref entry
    let h ← h.modify e.prevList fun p ↦ { p with nextList := e.nextList }
    let e ← h.deref entry
    h.modify e.nextList fun n ↦ { n with prevList := e.prevList }

/-- `Extract`: the same, and return `entry`. -/
def extract (h : Heap) (this entry : ℕ) : Exec (ℕ × Heap) := do
  if this = entry then
    return (0, h)
  let t ← h.deref this
  if t.prevList = entry ∧ t.nextList = entry then
    let h ← h.modify this fun t ↦ { t with nextList := this, prevList := this }
    return (entry, h)
  else
    let e ← h.deref entry
    let h ← h.modify e.prevList fun p ↦ { p with nextList := e.nextList }
    let e ← h.deref entry
    let h ← h.modify e.nextList fun n ↦ { n with prevList := e.prevList }
    return (entry, h)

/-- `ExtractSelf`: take `this` out of its list. -/
def extractSelf (h : Heap) (this : ℕ) : Exec Heap := do
  let t ← h.deref this
  if t.nextList = this ∧ t.prevList = this then
    return h
  let h ←
    if t.nextList = t.prevList then
      h.modify t.nextList fun n ↦ { n with nextList := t.nextList, prevList := t.nextList }
    else do
      let h ← h.modify t.prevList fun p ↦ { p with nextList := t.nextList }
      h.modify t.nextList fun n ↦ { n with prevList := t.prevList }
  h.modify this fun t ↦ { t with nextList := this, prevList := this }

/-- `operator=(ListDescriptor&& src)`: every member of the descriptor at `this` is overwritten, and
the neighbours that `src` has at that moment are pointed at `this`. -/
def moveAssign (h : Heap) (this src : ℕ) : Exec Heap := do
  let s ← h.deref src
  let h := h.put this s
  let h ← if s.nextList ≠ 0 then h.modify s.nextList fun n ↦ { n with prevList := this } else pure h
  let s ← h.deref src
  let h ← h.modify this fun t ↦ { t with prevList := s.prevList }
  if s.prevList ≠ 0 then
    let s ← h.deref src
    h.modify s.prevList fun p ↦ { p with nextList := this }
  else return h

/-- `~ListDescriptor`. -/
def destroy (h : Heap) (this : ℕ) : Exec Heap := do
  let h ← h.extractSelf this
  return h.kill this

/-- `Allocate` of the descriptor at `d`. -/
def allocate (h : Heap) (d : ℕ) : Exec (ℕ × Heap) := do
  let ld ← h.deref d
  let (alloc, ld) ← ld.allocate h.mem
  return (alloc, h.put d ld)

/-- `Deallocate` of the descriptor at `d`. -/
def deallocate (h : Heap) (d address : ℕ) : Exec Heap := do
  let ld ← h.deref d
  let (mem, ld) ← ld.deallocate h.mem address
  return { h with mem := mem }.put d ld

/-- `SetupLinkage` of the descriptor at `d`. -/
def setupLinkage (h : Heap) (d : ℕ) : Exec Heap := do
  let ld ← h.deref d
  let (mem, ld) ← ld.setupLinkage h.mem
  return { h with mem := mem }.put d ld

end Heap

end Chisaka.Slab
