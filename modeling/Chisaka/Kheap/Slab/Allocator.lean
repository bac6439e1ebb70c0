import Chisaka.Kheap.Slab.Buffer

/-!
# The slab allocator

The `Allocator` keeps a ring of buffers, one for each size, that begins at its member `m_buffer64`.
The buffers and the list descriptors it makes are objects in 64-byte slots that it takes from that
buffer, the same buffer that serves clients who ask for 64 bytes.

An object is constructed with a placement `new`: constructing it at null is following a null
pointer.
-/

set_option autoImplicit false

namespace Chisaka.Slab

open Bytes

/-- `Allocator`, with the memory and the objects it works on. -/
structure Allocator where
  /-- Memory, and the list descriptors that are alive. -/
  heap : Heap
  /-- The buffers that are alive. -/
  buffers : Buffers
  /-- The address of `m_buffer64`. -/
  buffer64 : ℕ
  /-- `m_lowAddrBuffer`. -/
  lowAddrBuffer : ℕ

namespace Allocator

/-- The allocator before `Init`.  `Buffer64` is default-constructed. -/
def new (mem : Memory) (buffer64 : ℕ) : Allocator :=
  { heap := ⟨mem, fun _ ↦ none⟩
    buffers := fun p ↦ if p = buffer64 then some (Buffer.new buffer64 0) else none
    buffer64 := buffer64
    lowAddrBuffer := 0 }

/-! ## Methods of a buffer -/

/-- `p->Allocate()`. -/
def allocateFrom (a : Allocator) (p : ℕ) : Exec (ℕ × Allocator) := do
  let b ← a.buffers.deref p
  let (alloc, b, heap) ← b.allocate a.heap
  return (alloc, { a with heap := heap, buffers := a.buffers.put p b })

/-- `p->AddList(list)`. -/
def addListTo (a : Allocator) (p list : ℕ) : Exec Allocator := do
  let b ← a.buffers.deref p
  let (b, heap) ← b.addList a.heap list
  return { a with heap := heap, buffers := a.buffers.put p b }

/-- `new(p) Buffer{...}`. -/
def constructBuffer (a : Allocator) (p : ℕ) (b : Buffer) : Exec Allocator :=
  if p = 0 then .error .nullDeref else .ok { a with buffers := a.buffers.put p b }

/-- `new(p) ListDescriptor{...}`. -/
def constructList (a : Allocator) (p : ℕ) (ld : ListDescriptor) : Exec Allocator :=
  if p = 0 then .error .nullDeref else .ok { a with heap := a.heap.put p ld }

/-! ## Initialisation -/

/-- `InitialiseLists(initialAddr)`.  The local variable `firstList64` lives at `stack`; it is
destroyed at the end. -/
def initialiseLists (a : Allocator) (stack initialAddr : ℕ) : Exec Allocator := do
  let heap := a.heap.put stack (ListDescriptor.new stack initialAddr 64 1)
  let heap ← heap.setupLinkage stack
  let (onList64, heap) ← heap.allocate stack
  let heap ← heap.moveAssign onList64 stack
  Exec.check (onList64 = initialAddr)
  let a ← { a with heap := heap }.addListTo a.buffer64 onList64
  let heap ← a.heap.destroy stack
  return { a with heap := heap }

/-- `InitialiseLowBuffer`.  The constructor `Buffer(bufferSize, options)` initialises no member:
what the new buffer contains is `uninitialised`. -/
def initialiseLowBuffer (a : Allocator) (uninitialised : Buffer) : Exec Allocator := do
  let (p, a) ← a.allocateFrom a.buffer64
  let a ← a.constructBuffer p uninitialised
  return { a with lowAddrBuffer := p }

/-- `Init(baseAddr)`. -/
def initAt (a : Allocator) (stack baseAddr : ℕ) (uninitialised : Buffer) : Exec Allocator := do
  let buffers ← a.buffers.modify a.buffer64 fun b ↦ { b with bufferSize := 64 }
  let a ← { a with buffers := buffers }.initialiseLists stack baseAddr
  a.initialiseLowBuffer uninitialised

/-- `Init()`, where `palloc` is the page that `Kernel::palloc` answers. -/
def init (a : Allocator) (stack palloc : ℕ) (uninitialised : Buffer) : Exec Allocator := do
  let a ← a.initAt stack palloc uninitialised
  let b ← a.buffers.deref a.buffer64
  let _ ← a.heap.deref b.partialLists
  Exec.check (b.bufferSize = 64)
  Exec.check (b.partialLists ≠ 0)
  Exec.check (b.freeLists = 0)
  Exec.check (b.fullLists = 0)
  Exec.check (b.nextBuffer = a.buffer64)
  Exec.check (b.prevBuffer = a.buffer64)
  return a

/-! ## Buffers and list descriptors -/

/-- The loop of `GetBuffer`, over `it`. -/
def getBufferBody (a : Allocator) (size it : ℕ) : Exec (ℕ ⊕ ℕ) := do
  let b ← a.buffers.deref it
  if b.bufferSize = size then
    return .inr it
  else if b.nextBuffer ≠ a.buffer64 then
    return .inl b.nextBuffer
  else
    return .inr 0

/-- `GetBuffer`. -/
def getBuffer (a : Allocator) (size : ℕ) : Exec ℕ := Loop.exec (a.getBufferBody size) a.buffer64

/-- `BufferExists`. -/
def bufferExists (a : Allocator) (size : ℕ) : Exec Bool := do
  let p ← a.getBuffer size
  return p ≠ 0

/-- `AddBuffer`. -/
def addBuffer (a : Allocator) (p : ℕ) : Exec Allocator := do
  let buffers ← a.buffers.addBuffer a.buffer64 p
  return { a with buffers := buffers }

/-- `AddListDescriptor`. -/
def addListDescriptor (a : Allocator) (list : ℕ) : Exec Allocator := do
  let ld ← a.heap.deref list
  let buf ← a.getBuffer ld.bufferSize
  if buf = 0 then
    return a
  a.addListTo buf list

/-- `NewBuffer`. -/
def newBuffer (a : Allocator) (bufferSize : UInt16) : Exec (ℕ × Allocator) := do
  if ← a.bufferExists bufferSize.toNat then
    return (0, a)
  let (p, a) ← a.allocateFrom a.buffer64
  let a ← a.constructBuffer p (Buffer.new p bufferSize)
  let a ← a.addBuffer p
  return (p, a)

/-- `NewListDescriptor(baseAddr, bufferSize, pages)`. -/
def newListDescriptor (a : Allocator) (baseAddr : ℕ) (bufferSize : UInt16) (pages : UInt8) :
    Exec (ℕ × Allocator) := do
  let (list, a) ← a.allocateFrom a.buffer64
  let a ← a.constructList list (ListDescriptor.new list baseAddr bufferSize pages)
  let heap ← a.heap.setupLinkage list
  let a ← { a with heap := heap }.addListDescriptor list
  return (list, a)

/-! ## Objects -/

/-- `AllocateObject`.  The size is converted to 16 bits. -/
def allocateObject (a : Allocator) (bytes : ℕ) : Exec (ℕ × Allocator) := do
  let size := UInt16.ofNat bytes
  let buf ← a.getBuffer size.toNat
  if buf ≠ 0 then
    a.allocateFrom buf
  else
    let (pbuf, a) ← a.newBuffer size
    a.allocateFrom pbuf

/-- The size of a `ListDescriptor`. -/
def sizeofListDescriptor : ℕ := 40

/-- The size of a `Buffer`. -/
def sizeofBuffer : ℕ := 48

/-- The loop `for(ListDescriptor& ld: *head)` of `DeallocateObject`, over the heap and the pointer.
`begin()` and `end()` are both `head`, and the pointer is incremented. -/
def deallocateListsBody (head pobj : ℕ) : Heap × ℕ → Exec ((Heap × ℕ) ⊕ Heap)
  | (h, it) => do
    if it = head then
      return .inr h
    let ld ← h.deref it
    let h ← if ld.objectInRange pobj then h.deallocate it pobj else pure h
    return .inl (h, it + sizeofListDescriptor)

/-- The loops over the lists of a buffer. -/
def deallocateLists (h : Heap) (head pobj : ℕ) : Exec Heap := do
  let _ ← h.deref head
  Loop.exec (deallocateListsBody head pobj) (h, head)

/-- The loop `for(Buffer& buf: Buffer64())` of `DeallocateObject`. -/
def deallocateObjectBody (pobj : ℕ) : Allocator × ℕ → Exec ((Allocator × ℕ) ⊕ Allocator)
  | (a, it) => do
    if it = a.buffer64 then
      return .inr a
    let b ← a.buffers.deref it
    let heap ← deallocateLists a.heap b.fullLists pobj
    let heap ← deallocateLists heap b.partialLists pobj
    return .inl ({ a with heap := heap }, it + sizeofBuffer)

/-- `DeallocateObject`. -/
def deallocateObject (a : Allocator) (pobj : ℕ) : Exec Allocator :=
  Loop.exec (deallocateObjectBody pobj) (a, a.buffer64)

end Allocator

end Chisaka.Slab
