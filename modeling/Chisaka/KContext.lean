import Chisaka.Ram.FreelistPool
import Chisaka.Kheap.Slab.Frames

/-!
# The memory of the kernel

`KContext` names the page allocator and the heap that the kernel uses.  They work on one memory: the
heap takes its slabs from the page allocator (`palloc`), and links the free buffers inside them,
while the page allocator links the free pages.  So the memory of the two is the same, by a field of
the structure, and each function of either runs on it.

`KRun` adds who owns what: pages that clients hold, pages that the heap took, and objects of
clients.  `kernelMachine` is the system, with clients that use both allocators and write into what
they own.
-/

set_option autoImplicit false

namespace Chisaka

open Bytes PageAllocators Slab

/-- `KContext::Ram` and `KContext::KHeap`. -/
structure KContext where
  /-- The page allocator. -/
  ram : Freelist
  /-- The heap. -/
  kheap : Allocator
  /-- There is one memory. -/
  mem_eq : kheap.heap.mem = ram.mem

namespace KContext

variable (k : KContext)

/-- The bytes of memory. -/
def mem : Memory := k.ram.mem

/-- What remains of the context when the page allocator has done something. -/
def setRam (ram : Freelist) : KContext :=
  ⟨ram, { k.kheap with heap := { k.kheap.heap with mem := ram.mem } }, rfl⟩

/-- What remains of the context when the heap has done something. -/
def setKheap (kheap : Allocator) : KContext := ⟨{ k.ram with mem := kheap.heap.mem }, kheap, rfl⟩

/-- Somebody writes into memory. -/
def setMem (mem : Memory) : KContext := k.setRam { k.ram with mem := mem }

/-! ## Pages -/

/-- `Kernel::palloc()`. -/
def palloc : Exec (ℕ × KContext) := do
  let (page, ram) ← allocatePage k.ram
  return (page, k.setRam ram)

/-- The descriptors of the heap are not touched. -/
theorem palloc_room {k k' : KContext} {p : ℕ} (h : k.palloc = .ok (p, k'))
    (hroom : k.kheap.Room) : k'.kheap.Room := by
  obtain ⟨⟨page, ram⟩, -, heq⟩ := Exec.bind_eq_ok.mp h
  cases heq
  exact hroom

/-- `Kernel::palloc(pages)`. -/
def pallocPages (pages : ℕ) : Exec (ℕ × KContext) := do
  let (page, ram) ← allocatePages pages k.ram
  return (page, k.setRam ram)

/-- `Kernel::pfree(pagebase)`. -/
def pfree (pagebase : ℕ) : Exec KContext := do
  let ram ← deallocPage pagebase k.ram
  return k.setRam ram

/-! ## The heap -/

/-- `KHeap::Allocate(bytes)`, and `Kernel::kmalloc(bytes)`. -/
def kmalloc (bytes : ℕ) : Exec (ℕ × KContext) := do
  let (alloc, kheap) ← k.kheap.allocateObject bytes
  return (alloc, k.setKheap kheap)

/-- `KHeap::Deallocate(pobj)`. -/
def kfree (pobj : ℕ) : Exec KContext := do
  let kheap ← k.kheap.deallocateObject pobj
  return k.setKheap kheap

/-- `Allocator::NewBuffer(bufferSize)`. -/
def newBuffer (bufferSize : UInt16) : Exec (ℕ × KContext) := do
  let (pbuffer, kheap) ← k.kheap.newBuffer bufferSize
  return (pbuffer, k.setKheap kheap)

/-- `Allocator::NewListDescriptor(bufferSize, pages)`: the slab lies in one page, whatever `pages`
is.  The page is returned as well. -/
def newListDescriptor (bufferSize : UInt16) (pages : UInt8) : Exec (ℕ × ℕ × KContext) := do
  let (baseAddr, k) ← k.palloc
  let (list, kheap) ← k.kheap.newListDescriptor baseAddr bufferSize pages
  return (list, baseAddr, k.setKheap kheap)

/-- `KHeap::Init()`: the first slab lies in a page that `InitialiseLists()` asks for.  The page is
returned. -/
def initKheap (stack : ℕ) (uninitialised : Buffer) : Exec (ℕ × KContext) := do
  let (baseAddr, k) ← k.palloc
  let kheap ← k.kheap.init stack baseAddr uninitialised
  return (baseAddr, k.setKheap kheap)

/-- `Ram::Init()` and then `KHeap::Init()`, with a page allocator and memory in any state. -/
def init (m : MemoryMap) (ram : Freelist) (buffer64 stack : ℕ) (uninitialised : Buffer) :
    Exec (ℕ × KContext) := do
  let ram ← PageAllocators.init m ram
  initKheap ⟨ram, Allocator.new ram.mem buffer64, rfl⟩ stack uninitialised

end KContext

/-! ## Clients -/

/-- What clients do. -/
inductive KCall
  | palloc
  | pallocPages (pages : ℕ)
  | pfree (pagebase : ℕ)
  | kmalloc (bytes : ℕ)
  | kfree (pobj : ℕ)
  | newBuffer (bufferSize : UInt16)
  | newListDescriptor (bufferSize : UInt16) (pages : UInt8)
  /-- The owner of a page writes into it, -/
  | writePage (page : ℕ) (contents : ℕ → UInt8)
  /-- and that of an object into that. -/
  | writeObject (object : ℕ × ℕ) (contents : ℕ → UInt8)

/-- The memory of the kernel, and who owns what. -/
structure KRun where
  /-- The two allocators. -/
  k : KContext
  /-- The pages that clients hold. -/
  held : List ℕ
  /-- The pages that the heap took. -/
  heapPages : List ℕ
  /-- The objects that clients hold: addresses, and how many bytes were asked for. -/
  objects : List (ℕ × ℕ)

namespace KRun

/-- A call, its result, and the state it leaves. -/
def step (s : KRun) : KCall → Exec (ℕ × KRun)
  | .palloc => do
    let (p, k) ← s.k.palloc
    return (p, { s with k := k, held := hold p 1 s.held })
  | .pallocPages pages => do
    let (p, k) ← s.k.pallocPages pages
    return (p, { s with k := k, held := hold p pages s.held })
  | .pfree pagebase => do
    let k ← s.k.pfree pagebase
    return (0, { s with k := k, held := s.held.erase pagebase })
  | .kmalloc bytes => do
    let (p, k) ← s.k.kmalloc bytes
    return (p, { s with
      k := k
      objects := if p = 0 then s.objects else (p, bytes) :: s.objects })
  | .kfree pobj => do
    let k ← s.k.kfree pobj
    return (0, { s with k := k, objects := s.objects.filter fun o ↦ o.1 ≠ pobj })
  | .newBuffer bufferSize => do
    let (p, k) ← s.k.newBuffer bufferSize
    return (p, { s with k := k })
  | .newListDescriptor bufferSize pages => do
    let (list, page, k) ← s.k.newListDescriptor bufferSize pages
    return (list, { s with k := k, heapPages := hold page 1 s.heapPages })
  | .writePage page contents =>
    return (0, { s with k := s.k.setMem (overlay s.k.mem page pageSize contents) })
  | .writeObject object contents =>
    return (0, { s with k := s.k.setMem (overlay s.k.mem object.1 object.2 contents) })

/-- The contract of the clients: they return and write only what they own. -/
def Enabled (s : KRun) : KCall → Prop
  | .pfree pagebase => pagebase = 0 ∨ pagebase ∈ s.held
  | .kmalloc bytes => bytes < 2 ^ 64
  | .writePage page _ => page ∈ s.held
  | .writeObject object _ => object ∈ s.objects
  | _ => True

/-- The calls for which the allocators were made: a page that is returned does not leave its list
open, a request is not cut down to 16 bits, no call takes the last buffer of the first page of the
heap, and a slab fits into the one page that is taken for it. -/
def Fits (s : KRun) : KCall → Prop
  | .pfree pagebase => ¬(⟨s.k.ram, s.held⟩ : PageAllocators.Run).LeavesOpen (.deallocPage pagebase)
  | .kmalloc bytes => (s.k.kheap.HasSpace (bytes % 2 ^ 16) → bytes < 2 ^ 16) ∧
      (s.k.kheap.TakesFirst (bytes % 2 ^ 16) → s.k.kheap.Room)
  | .newBuffer bufferSize => s.k.kheap.getBuffer bufferSize.toNat = .ok 0 → s.k.kheap.Room
  | .newListDescriptor bufferSize pages => s.k.kheap.Room ∧ pages = 1 ∧
      ∀ p k, s.k.palloc = .ok (p, k) → p ≠ 0 → (ListDescriptor.new 0 p bufferSize 1).InSpace ∧
        (ListDescriptor.new 0 p bufferSize 1).LinksInside
  | _ => True

end KRun

/-- The static storage of the kernel, and its stack, are not in usable memory, and no usable page
lies at the ends of the address space. -/
def MemoryMap.KernelApart (m : MemoryMap) (buffer64 stack : ℕ) : Prop :=
  ∀ p ∈ m.useablePages, Allocator.PageApart buffer64 stack p

/-- The memory of the kernel after both allocators were set up. -/
def kernelMachine (m : MemoryMap) : Machine KRun KCall ℕ where
  init s := s.held = [] ∧ s.objects = [] ∧ ∃ ram buffer64 stack uninitialised page,
    m.KernelApart buffer64 stack ∧
      KContext.init m ram buffer64 stack uninitialised = .ok (page, s.k) ∧ s.heapPages = [page]
  enabled := KRun.Enabled
  step := KRun.step

end Chisaka
