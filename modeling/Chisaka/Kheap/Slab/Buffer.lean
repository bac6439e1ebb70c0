import Chisaka.Kheap.Slab.ListDescriptor

/-!
# Buffers

A `Buffer` owns the slabs of one size.  It keeps their descriptors on three rings, `freeLists`,
`partialLists` and `fullLists`, and moves a descriptor to another ring when an allocation or a
deallocation changes what it is.

The source writes the methods that work on a ring out three times, once for every ring.  Here each
of them is a function of the ring, and the source's names are its instances.
-/

set_option autoImplicit false

namespace Chisaka.Slab

/-- `Buffer`. -/
structure Buffer where
  /-- `m_freeLists`. -/
  freeLists : ℕ
  /-- `m_fullLists`. -/
  fullLists : ℕ
  /-- `m_partialLists`. -/
  partialLists : ℕ
  /-- `m_nextBuffer`. -/
  nextBuffer : ℕ
  /-- `m_prevBuffer`. -/
  prevBuffer : ℕ
  /-- `m_bufferSize`, 16 bits. -/
  bufferSize : ℕ
  /-- `m_options`, 8 bits. -/
  options : ℕ
  /-- `m_opCount`, 8 bits. -/
  opCount : ℕ
  deriving DecidableEq, Repr

/-- The three rings of a buffer. -/
inductive ListKind
  | freeLists
  | partialLists
  | fullLists
  deriving DecidableEq, Repr

/-- The ring that a descriptor belongs on, as `AddList` decides it. -/
def ListDescriptor.kind (ld : ListDescriptor) : ListKind :=
  if ld.full then .fullLists else if ld.empty then .freeLists else .partialLists

namespace Buffer

/-- `Buffer(bufferSize)`, constructed at `this`. -/
def new (this : ℕ) (bufferSize : UInt16) : Buffer :=
  { freeLists := 0
    fullLists := 0
    partialLists := 0
    nextBuffer := this
    prevBuffer := this
    bufferSize := bufferSize.toNat
    options := 0
    opCount := 0 }

/-- The head of a ring. -/
def head (b : Buffer) : ListKind → ℕ
  | .freeLists => b.freeLists
  | .partialLists => b.partialLists
  | .fullLists => b.fullLists

/-- Assign to the head of a ring. -/
def setHead (b : Buffer) (k : ListKind) (list : ℕ) : Buffer :=
  match k with
  | .freeLists => { b with freeLists := list }
  | .partialLists => { b with partialLists := list }
  | .fullLists => { b with fullLists := list }

/-- `m_opCount++`. -/
def countOp (b : Buffer) : Buffer := { b with opCount := (b.opCount + 1) % 2 ^ 8 }

/-! ## Adding descriptors -/

/-- Put a descriptor on a ring. -/
def tryAddList (k : ListKind) (b : Buffer) (h : Heap) (list : ℕ) : Exec (Buffer × Heap) := do
  if b.head k ≠ 0 then
    let h ← h.addList (b.head k) list
    return (b, h)
  else
    let h ← h.modify list fun l ↦ { l with nextList := list, prevList := list }
    return (b.setHead k list, h)

/-- `TryAddFreeList`. -/
def tryAddFreeList := tryAddList .freeLists

/-- `TryAddPartialList`. -/
def tryAddPartialList := tryAddList .partialLists

/-- `TryAddFullList`. -/
def tryAddFullList := tryAddList .fullLists

/-- `AddList`. -/
def addList (b : Buffer) (h : Heap) (list : ℕ) : Exec (Buffer × Heap) := do
  let b := b.countOp
  let l ← h.deref list
  Exec.check (l.bufferSize = b.bufferSize)
  if l.full then
    b.tryAddFullList h list
  else if l.empty then
    b.tryAddFreeList h list
  else
    b.tryAddPartialList h list

/-! ## Moving descriptors -/

/-- Take the head of a ring out and add it again. -/
def moveHead (k : ListKind) (b : Buffer) (h : Heap) : Exec (Buffer × Heap) := do
  if b.head k = 0 then
    return (b, h)
  let l ← h.deref (b.head k)
  if l.nextList = b.head k then
    let (b, h) ← b.addList h (b.head k)
    return (b.setHead k 0, h)
  else
    let prevHead := b.head k
    let h ← h.extractSelf prevHead
    let (b, h) ← b.addList h prevHead
    return (b.setHead k l.nextList, h)

/-- `MoveFreeHead`. -/
def moveFreeHead := moveHead .freeLists

/-- `MovePartialHead`. -/
def movePartialHead := moveHead .partialLists

/-- `MoveFullHead`. -/
def moveFullHead := moveHead .fullLists

/-- Take a descriptor out of a ring and add it again. -/
def moveEntry (k : ListKind) (b : Buffer) (h : Heap) (entry : ℕ) : Exec (Buffer × Heap) := do
  if entry = 0 then
    return (b, h)
  if entry = b.head k then
    moveHead k b h
  else
    let (_, h) ← h.extract (b.head k) entry
    b.addList h entry

/-- `MoveFreeEntry`. -/
def moveFreeEntry := moveEntry .freeLists

/-- `MovePartialEntry`. -/
def movePartialEntry := moveEntry .partialLists

/-- `MoveFullEntry`. -/
def moveFullEntry := moveEntry .fullLists

/-! ## `Allocate` -/

/-- `AddToFree`. -/
def addToFree (b : Buffer) (h : Heap) : Exec (ℕ × Buffer × Heap) := do
  if b.freeLists = 0 then
    return (0, b, h)
  let (alloc, h) ← h.allocate b.freeLists
  let (b, h) ← b.moveFreeHead h
  return (alloc, b, h)

/-- The loop of `AddToPartial`, over `it`.  Its step is `it = m_partialLists->next()`, so that it
looks at two descriptors at most. -/
def addToPartialBody (b : Buffer) (h : Heap) (it : ℕ) :
    Exec (ℕ ⊕ (ℕ × Buffer × Heap)) := do
  let l ← h.deref it
  if l.hasSpace then
    let (alloc, h) ← h.allocate it
    let l ← h.deref it
    if l.full ∧ it = b.partialLists then
      let (b, h) ← b.movePartialHead h
      return .inr (alloc, b, h)
    else if l.full then
      let (b, h) ← b.movePartialEntry h it
      return .inr (alloc, b, h)
    else
      return .inr (alloc, b, h)
  else
    let first ← h.deref b.partialLists
    if first.nextList ≠ b.partialLists then
      return .inl first.nextList
    else
      return .inr (0, b, h)

/-- `AddToPartial`. -/
def addToPartial (b : Buffer) (h : Heap) : Exec (ℕ × Buffer × Heap) := do
  if b.partialLists = 0 then
    return (0, b, h)
  Loop.exec (addToPartialBody b h) b.partialLists

/-- `Allocate`. -/
def allocate (b : Buffer) (h : Heap) : Exec (ℕ × Buffer × Heap) := do
  let (alloc, b, h) ← if b.partialLists ≠ 0 then b.addToPartial h else pure (0, b, h)
  let (alloc, b, h) ← if alloc = 0 ∧ b.freeLists ≠ 0 then b.addToFree h else pure (alloc, b, h)
  if alloc = 0 then
    return (0, b, h)
  return (alloc, b.countOp, h)

/-! ## `Deallocate` -/

/-- A descriptor that contains the object was found: return the object to it, and move it if it
`leaves` its ring. -/
def deallocFrom (k : ListKind) (leaves : ListDescriptor → Bool) (b : Buffer) (h : Heap)
    (it objaddr : ℕ) : Exec (Bool × Buffer × Heap) := do
  let h ← h.deallocate it objaddr
  let l ← h.deref it
  if leaves l then
    let (b, h) ← moveEntry k b h it
    return (true, b, h)
  else
    return (true, b, h)

/-- The loop over a ring, over `it`. -/
def deallocBody (k : ListKind) (leaves : ListDescriptor → Bool) (b : Buffer) (h : Heap)
    (objaddr it : ℕ) : Exec (ℕ ⊕ (Bool × Buffer × Heap)) := do
  let l ← h.deref it
  if l.objectInRange objaddr then
    let r ← deallocFrom k leaves b h it objaddr
    return .inr r
  else if l.nextList ≠ b.head k then
    return .inl l.nextList
  else
    return .inr (false, b, h)

/-- Look for an object on a ring and return it. -/
def deallocIn (k : ListKind) (leaves : ListDescriptor → Bool) (b : Buffer) (h : Heap)
    (objaddr : ℕ) : Exec (Bool × Buffer × Heap) := do
  if b.head k = 0 then
    return (false, b, h)
  Loop.exec (deallocBody k leaves b h objaddr) (b.head k)

/-- `DeallocPartial`. -/
def deallocPartial := deallocIn .partialLists fun l ↦ l.empty

/-- `DeallocFull`. -/
def deallocFull := deallocIn .fullLists fun l ↦ !l.full

/-- `Deallocate`.  Every path returns before the `m_opCount++` at its end. -/
def deallocate (b : Buffer) (h : Heap) (objaddr : ℕ) : Exec (Buffer × Heap) := do
  let (status, b, h) ← b.deallocPartial h objaddr
  if status then
    return (b, h)
  let (_, b, h) ← b.deallocFull h objaddr
  return (b, h)

end Buffer

/-! ## The ring of buffers -/

/-- The buffers that are alive. -/
abbrev Buffers := ℕ → Option Buffer

namespace Buffers

/-- The buffer a pointer points to. -/
def deref (bs : Buffers) (p : ℕ) : Exec Buffer :=
  if p = 0 then .error .nullDeref
  else match bs p with
    | none => .error .dangling
    | some b => .ok b

/-- The buffers with `b` at `p`. -/
def put (bs : Buffers) (p : ℕ) (b : Buffer) : Buffers := fun x ↦ if x = p then some b else bs x

/-- Assign to members of the buffer a pointer points to. -/
def modify (bs : Buffers) (p : ℕ) (f : Buffer → Buffer) : Exec Buffers := do
  let b ← bs.deref p
  return bs.put p (f b)

/-- `AddBuffer`: put `src` in front of `this`. -/
def addBuffer (bs : Buffers) (this src : ℕ) : Exec Buffers := do
  if this = src then
    return bs
  let t ← bs.deref this
  if this = t.prevBuffer ∧ this = t.nextBuffer then
    let bs ← bs.modify this fun t ↦ { t with nextBuffer := src, prevBuffer := src }
    bs.modify src fun s ↦ { s with prevBuffer := this, nextBuffer := this }
  else
    let bs ← bs.modify src fun s ↦ { s with nextBuffer := this, prevBuffer := t.prevBuffer }
    let bs ← bs.modify t.prevBuffer fun p ↦ { p with nextBuffer := src }
    bs.modify this fun t ↦ { t with prevBuffer := src }

/-- `Remove`: take `entry` out of the ring of `this`. -/
def remove (bs : Buffers) (this entry : ℕ) : Exec Buffers := do
  if this = entry then
    return bs
  let t ← bs.deref this
  if t.prevBuffer = entry ∧ t.nextBuffer = entry then
    bs.modify this fun t ↦ { t with nextBuffer := this, prevBuffer := this }
  else
    let e ← bs.deref entry
    let bs ← bs.modify e.prevBuffer fun p ↦ { p with nextBuffer := e.nextBuffer }
    let e ← bs.deref entry
    bs.modify e.nextBuffer fun n ↦ { n with prevBuffer := e.prevBuffer }

/-- `Extract`: the same, and return `entry`. -/
def extract (bs : Buffers) (this entry : ℕ) : Exec (ℕ × Buffers) := do
  if this = entry then
    return (0, bs)
  let t ← bs.deref this
  if t.prevBuffer = entry ∧ t.nextBuffer = entry then
    let bs ← bs.modify this fun t ↦ { t with nextBuffer := this, prevBuffer := this }
    return (entry, bs)
  else
    let e ← bs.deref entry
    let bs ← bs.modify e.prevBuffer fun p ↦ { p with nextBuffer := e.nextBuffer }
    let e ← bs.deref entry
    let bs ← bs.modify e.nextBuffer fun n ↦ { n with prevBuffer := e.prevBuffer }
    return (entry, bs)

/-- `ExtractSelf`: take `this` out of its ring.  The predecessor is looked for through the
successor. -/
def extractSelf (bs : Buffers) (this : ℕ) : Exec Buffers := do
  let t ← bs.deref this
  if t.nextBuffer = this ∧ t.prevBuffer = this then
    return bs
  let newHead := t.nextBuffer
  let bs ←
    if t.nextBuffer = t.prevBuffer then
      bs.modify newHead fun n ↦ { n with nextBuffer := newHead, prevBuffer := newHead }
    else do
      let n ← bs.deref newHead
      let p ← bs.deref n.prevBuffer
      let bs ← bs.modify p.prevBuffer fun p ↦ { p with nextBuffer := newHead }
      bs.modify newHead fun n ↦ { n with prevBuffer := t.prevBuffer }
  bs.modify this fun t ↦ { t with nextBuffer := this, prevBuffer := this }

end Buffers

end Chisaka.Slab
