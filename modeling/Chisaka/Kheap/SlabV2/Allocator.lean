import Mathlib.Data.Fin.VecNotation
import Mathlib.Data.Nat.Log
import Chisaka.Kheap.SlabV2.Buffer
import Chisaka.Kheap.SlabV2.ListDescriptorRuns

/-!
# The slab allocator, second version

The `Allocator` has one buffer for each of nine sizes.  When the buffer of a size is full, it takes
a page from the page allocator and has `AllocateList` make a descriptor of it; descriptors are
objects of the 64-byte buffer, and when that one is full too, a descriptor is first made on the
stack and moved onto the page that it describes.

`allocateList_fault` says what becomes of this: `Full` answers true whatever the buffer contains,
the descriptor on the stack has not been linked, and so the move goes through a null pointer.  No
object is ever allocated (`allocateObject_fault`), and `allocatorCall_sound_never` puts that against
what the calls should do.
-/

set_option autoImplicit false

namespace Chisaka.Slab.V2

open Bytes ListDescriptor

/-- `v2::Allocator`, with the memory and the descriptors it works on.  The page allocator is a
parameter of the functions below: `palloc n` is the page that the `n`-th call of `m_palloc`
answers. -/
structure Allocator where
  /-- Memory, and the list descriptors that are alive. -/
  heap : Heap
  /-- `m_buffers`. -/
  buffers : Fin 9 → Buffer
  /-- How often `m_palloc` has been called. -/
  pallocs : ℕ

namespace Allocator

/-- `Init`. -/
def init (heap : Heap) : Allocator :=
  { heap := heap
    buffers := ![.new 8, .new 16, .new 32, .new 64, .new 128, .new 256, .new 512, .new 1024,
      .new 2048]
    pallocs := 0 }

/-- `NbytesToPow2`. -/
def nbytesToPow2 (nbytes : UInt64) : UInt64 :=
  let n := nbytes - 1
  let n := n ||| n >>> 1
  let n := n ||| n >>> 2
  let n := n ||| n >>> 4
  let n := n ||| n >>> 8
  let n := n ||| n >>> 16
  let n := n ||| n >>> 32
  n + 1

/-- `Pow2ToIndex`. -/
def pow2ToIndex (pow2 : UInt64) : Exec (Fin 9) :=
  if pow2 = 2 ∨ pow2 = 4 ∨ pow2 = 8 then .ok 0
  else if pow2 = 16 then .ok 1
  else if pow2 = 32 then .ok 2
  else if pow2 = 64 then .ok 3
  else if pow2 = 128 then .ok 4
  else if pow2 = 256 then .ok 5
  else if pow2 = 512 then .ok 6
  else if pow2 = 1024 then .ok 7
  else if pow2 = 2048 then .ok 8
  else .error .assertFailed

/-- `GetBuffer`. -/
def getBuffer (size : UInt16) : Exec (Fin 9) := pow2ToIndex (nbytesToPow2 size.toUInt64)

/-! ## Methods of a buffer -/

/-- Assign to a buffer. -/
def setBuffer (a : Allocator) (i : Fin 9) (b : Buffer) : Allocator :=
  { a with buffers := Function.update a.buffers i b }

/-- `buffer.Allocate()`. -/
def allocateFrom (u : NullReference) (a : Allocator) (i : Fin 9) : Exec (ℕ × Allocator) := do
  let (alloc, b, heap) ← (a.buffers i).allocate u a.heap
  return (alloc, { a with heap := heap }.setBuffer i b)

/-- `buffer.AddList(list)`. -/
def addListTo (a : Allocator) (i : Fin 9) (list : ℕ) : Exec Allocator := do
  let (b, heap) ← (a.buffers i).addList a.heap list
  return { a with heap := heap }.setBuffer i b

/-! ## Descriptors -/

/-- `AddList`. -/
def addList (a : Allocator) (list : ℕ) : Exec Allocator := do
  let l ← a.heap.deref list
  let i ← getBuffer (UInt16.ofNat l.bufferSize)
  a.addListTo i list

/-- What `AllocateList` does when its buffer is full.  The local variable `list` lives at `stack`;
it is destroyed at the end. -/
def growLists (palloc : ℕ → ℕ) (stack : ℕ) (a : Allocator) (i : Fin 9) : Exec Allocator := do
  let extrapage := palloc a.pallocs
  let size := (nbytesToPow2 (UInt64.ofNat sizeofListDescriptor)).toUInt16
  let list ← ListDescriptor.new stack extrapage size
  let heap := a.heap.put stack list
  let (onpageList, heap) ← heap.allocate stack
  let heap ← heap.moveAssign onpageList stack
  let a ← { a with heap := heap, pallocs := a.pallocs + 1 }.addListTo i onpageList
  let heap ← a.heap.destroy stack
  return { a with heap := heap }

/-- `AllocateList`. -/
def allocateList (u : NullReference) (palloc : ℕ → ℕ) (stack : ℕ) (a : Allocator) (pagebase : ℕ)
    (bufferSize : UInt16) : Exec (ℕ × Allocator) := do
  let i ← getBuffer (UInt16.ofNat sizeofListDescriptor)
  let full ← (a.buffers i).full u a.heap
  let a ← if full then a.growLists palloc stack i else pure a
  let (allocd, a) ← a.allocateFrom u i
  let ld ← ListDescriptor.new allocd pagebase bufferSize
  let heap ← a.heap.assign allocd ld
  let heap ← heap.setupLinkage allocd
  let a ← { a with heap := heap }.addList allocd
  return (allocd, a)

/-! ## Objects -/

/-- What `AllocateObject` does when the buffer is full. -/
def growObjects (u : NullReference) (palloc : ℕ → ℕ) (stack : ℕ) (a : Allocator) (i : Fin 9)
    (bytes : UInt64) : Exec Allocator := do
  let pagebase := palloc a.pallocs
  let (list, a) ←
    { a with pallocs := a.pallocs + 1 }.allocateList u palloc stack pagebase bytes.toUInt16
  a.addListTo i list

/-- `AllocateObject`. -/
def allocateObject (u : NullReference) (palloc : ℕ → ℕ) (stack : ℕ) (a : Allocator)
    (bytes : UInt64) : Exec (ℕ × Allocator) := do
  let i ← getBuffer (nbytesToPow2 bytes).toUInt16
  let full ← (a.buffers i).full u a.heap
  let a ← if full then a.growObjects u palloc stack i bytes else pure a
  a.allocateFrom u i

/-- `DeallocateObject`. -/
def deallocateObject (u : NullReference) (a : Allocator) (pobj : ℕ) (bytes : UInt64) :
    Exec Allocator := do
  let i ← getBuffer (nbytesToPow2 bytes).toUInt16
  let (b, heap) ← (a.buffers i).deallocate u a.heap pobj
  return { a with heap := heap }.setBuffer i b

/-! ## Nothing is allocated -/

section Faults

variable (u : NullReference) (palloc : ℕ → ℕ) (stack : ℕ) (a : Allocator)

/-- `Full` answers true, or the program stops. -/
theorem full_eq (i : Fin 9) : (a.buffers i).full u a.heap = .error .nullDeref ∨
    (a.buffers i).full u a.heap = .ok true := by
  by_cases h : (a.buffers i).lists = 0 ∧ u = .stops
  · obtain ⟨hb, rfl⟩ := h
    exact .inl (Buffer.query_stops hb _ _ _)
  · exact .inr (Buffer.query_eq h _ _ _)

/-- **The descriptor on the stack is not linked**, and it is moved to where its `Allocate` says:
to null. -/
theorem growLists_fault (i : Fin 9) : a.growLists palloc stack i = .error .nullDeref := by
  have hsize : (nbytesToPow2 (UInt64.ofNat sizeofListDescriptor)).toUInt16 = 64 := by decide
  have hnew : ListDescriptor.new stack (palloc a.pallocs) 64
      = .ok ⟨palloc a.pallocs, 0, stack, stack, 64, pageSize / 64, 0⟩ :=
    new_eq (by decide) (by decide)
  rw [growLists, hsize]
  rcases eq_or_ne stack 0 with rfl | hs
  · simp [hnew, Heap.allocate]
  · simp [hnew, Heap.allocate, Heap.deref_put hs, ListDescriptor.allocate, Heap.put_put,
      Heap.moveAssign]

theorem allocateList_fault (pagebase : ℕ) (bufferSize : UInt16) :
    a.allocateList u palloc stack pagebase bufferSize = .error .nullDeref := by
  have hindex : getBuffer (UInt16.ofNat sizeofListDescriptor) = .ok 3 := by decide
  rcases full_eq u a 3 with he | hfull
  · simp [allocateList, hindex, he]
  · simp [allocateList, hindex, hfull, growLists_fault palloc stack a 3]

/-- A size without a buffer fails an assertion. -/
theorem allocateObject_of_error {bytes : UInt64} {e : Fault}
    (hi : getBuffer (nbytesToPow2 bytes).toUInt16 = .error e) :
    a.allocateObject u palloc stack bytes = .error e := by
  simp [allocateObject, hi]

/-- A size with a buffer follows a null pointer. -/
theorem allocateObject_of_ok {bytes : UInt64} {i : Fin 9}
    (hi : getBuffer (nbytesToPow2 bytes).toUInt16 = .ok i) :
    a.allocateObject u palloc stack bytes = .error .nullDeref := by
  rcases full_eq u a i with he | hfull
  · simp [allocateObject, hi, he]
  · simp [allocateObject, hi, hfull, growObjects, allocateList_fault]

/-- **`AllocateObject` stops the program**, whatever the state, the size and the page allocator. -/
theorem allocateObject_fault (bytes : UInt64) :
    ∃ e, a.allocateObject u palloc stack bytes = .error e := by
  cases hi : getBuffer (nbytesToPow2 bytes).toUInt16 with
  | error e => exact ⟨e, allocateObject_of_error u palloc stack a hi⟩
  | ok i => exact ⟨.nullDeref, allocateObject_of_ok u palloc stack a hi⟩

end Faults

end Allocator

/-! ## Runs -/

/-- The calls that clients make. -/
inductive AllocatorCall
  | allocateObject (bytes : UInt64)
  | deallocateObject (pobj : ℕ) (bytes : UInt64)

/-- An allocator, and the objects its clients hold. -/
structure AllocatorRun where
  /-- The allocator. -/
  a : Allocator
  /-- The objects that were handed out and not returned, with the sizes asked for. -/
  objects : List (ℕ × UInt64)

/-- The least power of two that is at least 8 and at least `bytes`. -/
def classSize (bytes : UInt64) : ℕ := 2 ^ Nat.clog 2 (max bytes.toNat 8)

/-- Two stretches of memory without a common byte. -/
def Apart (p n q m : ℕ) : Prop := p + n ≤ q ∨ q + m ≤ p

namespace AllocatorRun

/-- A call, its result, and the state it leaves. -/
def step (u : NullReference) (palloc : ℕ → ℕ) (stack : ℕ) (s : AllocatorRun) :
    AllocatorCall → Exec (ℕ × AllocatorRun)
  | .allocateObject bytes => do
    let (p, a) ← s.a.allocateObject u palloc stack bytes
    return (p, ⟨a, if p = 0 then s.objects else (p, bytes) :: s.objects⟩)
  | .deallocateObject pobj bytes => do
    let a ← s.a.deallocateObject u pobj bytes
    return (0, ⟨a, s.objects.erase (pobj, bytes)⟩)

/-- The contract of the clients: they ask for at least one byte, and return what they hold. -/
def Enabled (s : AllocatorRun) : AllocatorCall → Prop
  | .allocateObject bytes => 1 ≤ bytes.toNat
  | .deallocateObject pobj bytes => (pobj, bytes) ∈ s.objects

/-- After some number of allocations of `bytes`, the answer is `p`. -/
inductive Answers (u : NullReference) (palloc : ℕ → ℕ) (stack : ℕ) (bytes : UInt64) (p : ℕ) :
    AllocatorRun → Prop
  | now {s s' : AllocatorRun} (h : s.step u palloc stack (.allocateObject bytes) = .ok (p, s')) :
      Answers u palloc stack bytes p s
  | later {s s' : AllocatorRun} {q : ℕ}
      (h : s.step u palloc stack (.allocateObject bytes) = .ok (q, s'))
      (hs' : Answers u palloc stack bytes p s') : Answers u palloc stack bytes p s

/-- **What a call should do.** -/
def CallSound (u : NullReference) (palloc : ℕ → ℕ) (stack : ℕ) (s : AllocatorRun) :
    AllocatorCall → Prop
  | .allocateObject bytes => ∃ p s',
      s.step u palloc stack (.allocateObject bytes) = .ok (p, s') ∧
      -- an aligned object apart from the others and from every descriptor
      (bytes.toNat ≤ 2048 → p ≠ 0 ∧ classSize bytes ∣ p ∧
        (∀ o ∈ s.objects, Apart p (classSize bytes) o.1 (classSize o.2)) ∧
        ∀ d ld, s'.a.heap.descs d = some ld →
          Apart p (classSize bytes) d sizeofListDescriptor) ∧
      -- a request that is too large
      (2048 < bytes.toNat → p = 0 ∧ s' = s)
  | .deallocateObject pobj bytes => ∃ s',
      s.step u palloc stack (.deallocateObject pobj bytes) = .ok (0, s') ∧
      Answers u palloc stack bytes pobj s'

end AllocatorRun

/-- The allocator, initialised over any heap. -/
def allocatorMachine (u : NullReference) (palloc : ℕ → ℕ) (stack : ℕ) :
    Machine AllocatorRun AllocatorCall ℕ where
  init s := ∃ heap, s = ⟨Allocator.init heap, []⟩
  enabled := AllocatorRun.Enabled
  step := AllocatorRun.step u palloc stack

namespace AllocatorRun

variable {u : NullReference} {palloc : ℕ → ℕ} {stack : ℕ} {s s' : AllocatorRun}

theorem step_allocateObject_fault (s : AllocatorRun) (bytes : UInt64) :
    ∃ e, s.step u palloc stack (.allocateObject bytes) = .error e := by
  obtain ⟨e, he⟩ := s.a.allocateObject_fault u palloc stack bytes
  exact ⟨e, by simp [step, he]⟩

/-- Nobody ever holds an object. -/
theorem objects_eq_nil (hs : (allocatorMachine u palloc stack).Reach s) : s.objects = [] := by
  refine Machine.Reach.induct (I := fun s ↦ s.objects = []) (fun s h ↦ ?_)
    (fun s k r s' h hk hstep ↦ ?_) hs
  · obtain ⟨heap, rfl⟩ := h
    rfl
  · cases k with
    | allocateObject bytes =>
      obtain ⟨e, he⟩ := step_allocateObject_fault (u := u) s bytes
      cases he.symm.trans hstep
    | deallocateObject pobj bytes =>
      have hmem : (pobj, bytes) ∈ s.objects := hk
      rw [h] at hmem
      exact absurd hmem List.not_mem_nil

end AllocatorRun

/-- **No call does what it should**, in any run, whatever the page allocator answers. -/
theorem allocatorCall_sound_never (u : NullReference) (palloc : ℕ → ℕ) (stack : ℕ)
    (s : AllocatorRun) (k : AllocatorCall) (hs : (allocatorMachine u palloc stack).Reach s)
    (hk : s.Enabled k) : ¬s.CallSound u palloc stack k := by
  cases k with
  | allocateObject bytes =>
    rintro ⟨p, s', hstep, -⟩
    obtain ⟨e, he⟩ := AllocatorRun.step_allocateObject_fault (u := u) s bytes
    cases he.symm.trans hstep
  | deallocateObject pobj bytes =>
    have hmem : (pobj, bytes) ∈ s.objects := hk
    rw [AllocatorRun.objects_eq_nil hs] at hmem
    exact absurd hmem List.not_mem_nil

/-- The allocator at the start, over memory without descriptors. -/
def newAllocatorRun : AllocatorRun := ⟨Allocator.init ⟨fun _ ↦ 0, fun _ ↦ none⟩, []⟩

theorem allocatorCall_sound_never_new :
    ¬newAllocatorRun.CallSound .binds (fun n ↦ 0x1000 * (n + 1)) 0x7F0000 (.allocateObject 64) :=
  allocatorCall_sound_never .binds _ 0x7F0000 newAllocatorRun (.allocateObject 64) (.init ⟨_, rfl⟩)
    (show 1 ≤ (64 : UInt64).toNat by decide)

/-- With ever new pages to be had, one byte and a whole page fail an assertion, and 64 bytes follow
a null pointer. -/
theorem allocateObject_faults :
    (¬∀ (u : NullReference) (palloc : ℕ → ℕ) (stack : ℕ) (s : AllocatorRun) (k : AllocatorCall),
      (∀ n, palloc n ≠ 0 ∧ pageSize ∣ palloc n) → Function.Injective palloc →
        (allocatorMachine u palloc stack).Reach s → s.Enabled k →
          s.CallSound u palloc stack k) ∧
    ∀ (u : NullReference) (palloc : ℕ → ℕ) (stack : ℕ),
      newAllocatorRun.a.allocateObject u palloc stack 1 = .error .assertFailed ∧
      newAllocatorRun.a.allocateObject u palloc stack 64 = .error .nullDeref ∧
      newAllocatorRun.a.allocateObject u palloc stack 4096 = .error .assertFailed := by
  refine ⟨fun h ↦ ?_, fun u palloc stack ↦ ⟨?_, ?_, ?_⟩⟩
  · obtain ⟨p, s', hstep, -⟩ := h .binds (fun n ↦ 0x1000 * (n + 1)) 0x7F0000 newAllocatorRun
      (.allocateObject 64) (fun n ↦ ⟨by simp, by simp [pageSize]⟩)
      (fun n m hnm ↦ by simpa using hnm) (.init ⟨_, rfl⟩)
      (show 1 ≤ (64 : UInt64).toNat by decide)
    obtain ⟨e, he⟩ := AllocatorRun.step_allocateObject_fault (u := .binds) newAllocatorRun 64
    cases he.symm.trans hstep
  · exact Allocator.allocateObject_of_error _ _ _ _ (by decide)
  · exact Allocator.allocateObject_of_ok _ _ _ _ (i := 3) (by decide)
  · exact Allocator.allocateObject_of_error _ _ _ _ (by decide)

end Chisaka.Slab.V2
