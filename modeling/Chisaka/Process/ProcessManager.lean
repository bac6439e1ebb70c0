import Chisaka.Lib.Machine
import Chisaka.Lib.Objects
import Chisaka.X8664.Paging.PageTable

/-!
# Processes

A `Process` is an object of the kernel heap that is linked into a tree: `parent` leads up, `child`
to the first child, and `sibling` from one child to the next.  `ProcessManager` makes the root
process and lets the current process spawn others.

Memory that `kmalloc` answers contains whatever was there before, so a new process starts as a
`Process` of arbitrary contents, of which the code overwrites some members.  Where a call asks for
memory, what `kmalloc` answers is an argument of the model (`Spawn`).

`Aii::Array` belongs to a library outside the kernel, and `MapKernel` assigns to an element of one
whose index is far beyond its 512 elements: the comment in it says that an entry maps `0x8000000000`
bytes, and the index is computed as if it mapped a page.  What the assignment does is a parameter,
`ArrayAssign`; it may stop the program.  `uncheckedAssign` is an array that does not look at its
index: it stores `0x7FFFC000000000` bytes behind the table, which is no address of a machine with 48
bits of them.
-/

set_option autoImplicit false

namespace Chisaka

open Bytes

/-- `Process`, without the members `m_stat` and `m_user`, which no code looks at. -/
structure Process where
  /-- `id`. -/
  id : UInt8
  /-- `parentId`. -/
  parentId : UInt8
  /-- `childId`. -/
  childId : UInt8
  /-- `parent`. -/
  parent : ℕ
  /-- `sibling`. -/
  sibling : ℕ
  /-- `child`. -/
  child : ℕ
  /-- `pageTable`. -/
  pageTable : ℕ
  deriving DecidableEq

/-- The processes that are alive. -/
abbrev Processes := Objects Process

namespace Processes

/-- `this->InsertSibling(proc)`: a reminder to write it, in an assertion that never fails. -/
def insertSibling (procs : Processes) (_this _proc : ℕ) : Exec Processes := .ok procs

/-- Make `proc` a child of `parent`, as `SetParent` and `CreateProcess` do it. -/
def linkChild (procs : Processes) (parent proc : ℕ) : Exec Processes := do
  let p ← procs.deref parent
  if p.child ≠ 0 then
    procs.insertSibling p.child proc
  else
    procs.modify parent fun p ↦ { p with child := proc }

/-- `this->SetParent(proc)`. -/
def setParent (procs : Processes) (this proc : ℕ) : Exec Processes := do
  let procs ← procs.linkChild proc this
  let p ← procs.deref proc
  procs.modify this fun t ↦ { t with parentId := p.id }

end Processes

/-- What `array[index] = entry` does to memory, for an `Aii::Array` of words at an address. -/
abbrev ArrayAssign := Memory → ℕ → ℕ → BitVec 64 → Exec Memory

/-- The addresses of a machine that has `bits` bits of them: the bits above repeat the last one. -/
def IsAddress (bits addr : ℕ) : Prop :=
  addr < 2 ^ (bits - 1) ∨ 2 ^ 64 - 2 ^ (bits - 1) ≤ addr ∧ addr < 2 ^ 64

instance (bits addr : ℕ) : Decidable (IsAddress bits addr) := inferInstanceAs (Decidable (_ ∨ _))

/-- The assignment of an array that does not check the index. -/
def uncheckedAssign (bits : ℕ) : ArrayAssign := fun mem array index entry ↦
  let addr := (array + 8 * index) % 2 ^ 64
  if IsAddress bits addr then .ok (writeWord mem addr entry.toNat) else .error .dangling

/-- `ProcessManager`, with memory and the processes it works on. -/
structure ProcessManager where
  /-- The bytes of memory, in which the page tables are. -/
  mem : Memory
  /-- The processes. -/
  procs : Processes
  /-- `m_root`. -/
  root : ℕ
  /-- `m_currentProcess`. -/
  current : ℕ
  /-- `procCount`, 16 bits. -/
  procCount : ℕ

/-- What `kmalloc` answers while a process is made. -/
structure Spawn where
  /-- The address of the process. -/
  addr : ℕ
  /-- What was in the memory there. -/
  contents : Process
  /-- The address of the page table. -/
  table : ℕ

/-- The value of `childId` for "no child": -1, in 8 bits. -/
def noChild : UInt8 := -1

namespace ProcessManager

/-- The index that `MapKernel` computes for the base of the kernel. -/
def kernelIndex : ℕ := 0xFFFF800000000000 / 0x1000

/-- `MapKernel`. -/
def mapKernel (assign : ArrayAssign) (m : ProcessManager) (ptbl : ℕ) : Exec ProcessManager := do
  let root ← m.procs.deref m.root
  let entry := X8664.initialiseBuffer (BitVec.ofNat 64 root.pageTable) X8664.UPeOpt.present
  let mem ← assign m.mem ptbl kernelIndex entry
  return { m with mem := mem }

/-- `CreatePagetable`. -/
def createPagetable (assign : ArrayAssign) (m : ProcessManager) (process table : ℕ) :
    Exec ProcessManager := do
  let m ← m.mapKernel assign table
  let procs ← m.procs.modify process fun p ↦ { p with pageTable := table }
  return { m with procs := procs }

/-- `id = procCount++`, for the process at `p`. -/
def numberProcess (m : ProcessManager) (p : ℕ) : Exec ProcessManager := do
  let procs ← m.procs.modify p fun q ↦ { q with id := UInt8.ofNat m.procCount }
  return { m with procs := procs, procCount := (m.procCount + 1) % 2 ^ 16 }

/-- `InitRootProcess`. -/
def initRootProcess (assign : ArrayAssign) (m : ProcessManager) (k : Spawn) :
    Exec ProcessManager := do
  let m := { m with procs := m.procs.put k.addr k.contents, root := k.addr }
  let m ← m.numberProcess m.root
  let procs ← m.procs.modify m.root fun p ↦ { p with child := 0, childId := noChild }
  { m with procs := procs }.createPagetable assign m.root k.table

/-- `Init`. -/
def init (assign : ArrayAssign) (m : ProcessManager) (k : Spawn) : Exec ProcessManager := do
  let m ← m.initRootProcess assign k
  return { m with current := m.root }

/-- `CreateProcess`. -/
def createProcess (assign : ArrayAssign) (m : ProcessManager) (k : Spawn) :
    Exec (ℕ × ProcessManager) := do
  let m := { m with procs := m.procs.put k.addr k.contents }
  let m ← m.numberProcess k.addr
  let procs ← m.procs.setParent k.addr m.current
  -- a member that nothing has assigned to
  let spawned ← procs.deref k.addr
  let procs ← procs.linkChild spawned.parent k.addr
  let m ← { m with procs := procs }.createPagetable assign k.addr k.table
  return (k.addr, m)

end ProcessManager

end Chisaka
