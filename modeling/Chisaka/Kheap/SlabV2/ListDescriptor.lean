import Chisaka.Lib.Bytes
import Chisaka.Lib.Objects
import Chisaka.Types

/-!
# List descriptors, second version

The second slab allocator was written beside the first and shares its idea: a `ListDescriptor`
manages one page, cut into buffers of `bufferSize` bytes whose first words link the free ones.
What is different is that the free list is not kept in order (`Deallocate` appends at its end),
that only the null at its end says when it is exhausted, and that every descriptor is on the one
ring of its buffer.

As in the first version, the methods that look at one page only come first, as functions of the
memory and the descriptor, and the list operations work on a `Heap` of the descriptors that are
alive.
-/

set_option autoImplicit false

namespace Chisaka.Slab.V2

open Bytes

/-- `v2::ListDescriptor`. -/
structure ListDescriptor where
  /-- `m_baseAddress`. -/
  baseAddress : ℕ
  /-- `m_nextFree`. -/
  nextFree : ℕ
  /-- `m_nextList`. -/
  nextList : ℕ
  /-- `m_prevList`. -/
  prevList : ℕ
  /-- `m_bufferSize`, 16 bits. -/
  bufferSize : ℕ
  /-- `m_totalBuffers`, 16 bits. -/
  totalBuffers : ℕ
  /-- `m_buffersUsed`, 16 bits. -/
  buffersUsed : ℕ
  deriving DecidableEq, Repr

namespace ListDescriptor

/-- `PAGE_SIZE`. -/
def pageSize : ℕ := 0x1000

/-- The size of a `ListDescriptor`. -/
def sizeofListDescriptor : ℕ := 40

/-- The constructor of a descriptor at address `this`. -/
def new (this baseAddr : ℕ) (bufferSize : UInt16) : Exec ListDescriptor := do
  let size := if bufferSize < 8 then 8 else bufferSize.toNat
  kassert (8 ≤ size)
  kassert (size ≤ 2048)
  return {
    baseAddress := baseAddr
    nextFree := 0
    nextList := this
    prevList := this
    bufferSize := size
    totalBuffers := pageSize / size
    buffersUsed := 0 }

/-- `Limit`. -/
def limit (ld : ListDescriptor) : ℕ := add64 ld.baseAddress pageSize

/-- `Full`. -/
def full (ld : ListDescriptor) : Bool := ld.totalBuffers = ld.buffersUsed

/-- `Empty`. -/
def empty (ld : ListDescriptor) : Bool := ld.buffersUsed = 0

/-- `HasSpace`. -/
def hasSpace (ld : ListDescriptor) : Bool := ld.buffersUsed < ld.totalBuffers

/-- `ObjectInRange`. -/
def objectInRange (ld : ListDescriptor) (obj : ℕ) : Bool :=
  ld.baseAddress ≤ obj ∧ obj < ld.limit

/-- `OwnsObject`. -/
def ownsObject (ld : ListDescriptor) (obj : ℕ) : Bool := ld.objectInRange obj

/-- The loop of `SetupLinkage`, over memory and `currentEntry`. -/
def setupLinkageBody (size limit : ℕ) : Memory × ℕ → Exec ((Memory × ℕ) ⊕ (Memory × ℕ))
  | (mem, current) =>
    if current < limit then do
      let mem ← store mem current (add64 current size)
      let next ← load mem current
      return .inl (mem, next)
    else return .inr (mem, current)

/-- `SetupLinkage`.  The entry that the loop stops at is the first one past the region, and the
null goes into it. -/
def setupLinkage (mem : Memory) (ld : ListDescriptor) : Exec (Memory × ListDescriptor) := do
  let ld := { ld with nextFree := ld.baseAddress }
  let (mem, current) ←
    Loop.exec (setupLinkageBody ld.bufferSize ld.limit) (mem, ld.baseAddress)
  let mem ← store mem current 0
  return (mem, ld)

/-- `Allocate`. -/
def allocate (mem : Memory) (ld : ListDescriptor) : Exec (ℕ × ListDescriptor) := do
  if ld.nextFree = 0 then
    return (0, ld)
  let head := ld.nextFree
  let next ← load mem head
  return (head, { ld with nextFree := next, buffersUsed := (ld.buffersUsed + 1) % 2 ^ 16 })

/-- The loop of `Deallocate`, over `currentEntry` and `nextEntry`. -/
def lastBody (mem : Memory) : ℕ × ℕ → Exec ((ℕ × ℕ) ⊕ ℕ)
  | (current, next) => do
    if next = 0 then
      return .inr current
    let after ← load mem next
    return .inl (next, after)

/-- `Deallocate`. -/
def deallocate (mem : Memory) (ld : ListDescriptor) (address : ℕ) :
    Exec (Memory × ListDescriptor) := do
  if ¬ld.objectInRange address ∨ ld.buffersUsed = 0 then
    return (mem, ld)
  if ld.nextFree = 0 then
    let mem ← store mem address 0
    return (mem, { ld with nextFree := address, buffersUsed := ld.buffersUsed - 1 })
  let next ← load mem ld.nextFree
  let last ← Loop.exec (lastBody mem) (ld.nextFree, next)
  let mem ← store mem last address
  let mem ← store mem address 0
  return (mem, { ld with buffersUsed := ld.buffersUsed - 1 })

end ListDescriptor

/-! ## The heap of descriptors -/

/-- Memory, and the descriptors that are alive. -/
structure Heap where
  /-- The bytes of memory. -/
  mem : Memory
  /-- The descriptors. -/
  descs : Objects ListDescriptor

namespace Heap

/-- The descriptor a pointer points to. -/
def deref (h : Heap) (d : ℕ) : Exec ListDescriptor := h.descs.deref d

@[simp] theorem deref_null (h : Heap) : h.deref 0 = .error .nullDeref := rfl

/-- The heap with `ld` at `d`. -/
def put (h : Heap) (d : ℕ) (ld : ListDescriptor) : Heap := { h with descs := h.descs.put d ld }

theorem deref_put {d : ℕ} (hd : d ≠ 0) (h : Heap) (ld : ListDescriptor) :
    (h.put d ld).deref d = .ok ld :=
  Objects.deref_put hd h.descs ld

theorem put_put (h : Heap) (d : ℕ) (ld ld' : ListDescriptor) :
    (h.put d ld).put d ld' = h.put d ld' := by
  rw [put, put, put, Objects.put_put]

/-- Write a whole descriptor through a pointer. -/
def assign (h : Heap) (d : ℕ) (ld : ListDescriptor) : Exec Heap := do
  let descs ← h.descs.assign d ld
  return { h with descs := descs }

@[simp] theorem assign_null (h : Heap) (ld : ListDescriptor) :
    h.assign 0 ld = .error .nullDeref := rfl

/-- Assign to members of the descriptor a pointer points to. -/
def modify (h : Heap) (d : ℕ) (f : ListDescriptor → ListDescriptor) : Exec Heap := do
  let descs ← h.descs.modify d f
  return { h with descs := descs }

/-- `AddList`: put `src` in front of `this`. -/
def addList (h : Heap) (this src : ℕ) : Exec Heap := do
  let s ← h.deref src
  let t ← h.deref this
  if s.bufferSize ≠ t.bufferSize then
    return h
  if this = src then
    return h
  if this = t.prevList ∧ this = t.nextList then
    let h ← h.modify this fun t ↦ { t with nextList := src, prevList := src }
    h.modify src fun s ↦ { s with prevList := this, nextList := this }
  else
    let h ← h.modify src fun s ↦ { s with nextList := this, prevList := t.prevList }
    let h ← h.modify t.prevList fun p ↦ { p with nextList := src }
    h.modify this fun t ↦ { t with prevList := src }

/-- `ExtractSelf`: take `this` out of its list. -/
def extractSelf (h : Heap) (this : ℕ) : Exec Heap := do
  let t ← h.deref this
  if t.nextList = this ∧ t.prevList = this then
    return h
  let h ←
    if t.nextList = t.prevList then
      h.modify t.nextList fun n ↦ { n with nextList := t.nextList, prevList := t.nextList }
    else do
      let h ← h.modify t.prevList fun p ↦ { p with nextList := t.nextList }
      h.modify t.nextList fun n ↦ { n with prevList := t.prevList }
  h.modify this fun t ↦ { t with nextList := this, prevList := this }

/-- `operator=(ListDescriptor&& src)`: every member of the descriptor at `this` is overwritten, the
neighbours of `src` are pointed at `this`, and the links of `src` become null. -/
def moveAssign (h : Heap) (this src : ℕ) : Exec Heap := do
  let s ← h.deref src
  let h ← h.assign this s
  let h ←
    if s.nextList ≠ 0 then do
      let h ← h.modify s.nextList fun n ↦ { n with prevList := this }
      h.modify src fun s ↦ { s with nextList := 0 }
    else pure h
  let s ← h.deref src
  let h ← h.modify this fun t ↦ { t with prevList := s.prevList }
  if s.prevList ≠ 0 then
    let h ← h.modify s.prevList fun p ↦ { p with nextList := this }
    h.modify src fun s ↦ { s with prevList := 0 }
  else return h

/-- `~ListDescriptor`. -/
def destroy (h : Heap) (this : ℕ) : Exec Heap := do
  let h ← h.extractSelf this
  return { h with descs := h.descs.kill this }

/-- `Allocate` of the descriptor at `d`. -/
def allocate (h : Heap) (d : ℕ) : Exec (ℕ × Heap) := do
  let ld ← h.deref d
  let (alloc, ld) ← ld.allocate h.mem
  return (alloc, h.put d ld)

/-- `Deallocate` of the descriptor at `d`. -/
def deallocate (h : Heap) (d address : ℕ) : Exec Heap := do
  let ld ← h.deref d
  let (mem, ld) ← ld.deallocate h.mem address
  return { h with mem := mem }.put d ld

/-- `SetupLinkage` of the descriptor at `d`. -/
def setupLinkage (h : Heap) (d : ℕ) : Exec Heap := do
  let ld ← h.deref d
  let (mem, ld) ← ld.setupLinkage h.mem
  return { h with mem := mem }.put d ld

end Heap

end Chisaka.Slab.V2
