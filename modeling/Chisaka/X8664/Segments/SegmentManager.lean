import Mathlib.Tactic.IntervalCases
import Chisaka.Lib.Machine
import Chisaka.X8664.Segments.TaskDescriptor

/-!
# Loading segments

`SegmentManager` builds a table of six descriptors, the last of which takes two places, and has the
processor load its address.  `segreg_reload` then loads the segment registers and the task register
from it.

The processor checks what it loads, and it writes: the descriptor of the task it loads becomes busy,
and a busy task cannot be loaded.  So the first reload leaves the registers as a kernel with a flat
memory needs them, and every later one ends with an exception at its last instruction, whether it
comes from `ReloadSegmentRegisters` or from `ReloadTaskRegister`, which are the same
(`segments_refine`).

The descriptor of the task says that its limit counts pages, as those of the other segments do.  But
the limit is the size of the task segment in bytes, less one; so the processor finds a task segment
of 104 pages (`taskLimit`).

The limit that is loaded with the table is the size of the table, one more than its last byte.  No
selector is accepted because of it (`fetch_isSome_iff`).
-/

set_option autoImplicit false

namespace X8664

open Chisaka

/-! ## The table -/

/-- `AccessByte::Null`. -/
def AccessByte.null : AccessByte := ⟨false, true, true, 0⟩

/-- `Flags::Null`. -/
def Flags.null : Flags := ⟨true, false, false, false⟩

/-- `GdtTable`. -/
structure GdtTable where
  /-- `m_null`. -/
  null : SegmentDescriptor
  /-- `m_kernelCode`. -/
  kernelCode : SegmentDescriptor
  /-- `m_kernelData`. -/
  kernelData : SegmentDescriptor
  /-- `m_userCode`. -/
  userCode : SegmentDescriptor
  /-- `m_userData`. -/
  userData : SegmentDescriptor
  /-- `m_task`. -/
  task : TaskDescriptor
  deriving DecidableEq

/-- `Size`. -/
def GdtTable.size (_ : GdtTable) : ℕ := 5 * 8 + 16

/-- The second half of a task descriptor, byte for byte, as the first half is. -/
def TaskDescriptor.upper (t : TaskDescriptor) : SegmentDescriptor where
  limit0 := t.base3.extractLsb' 0 16
  base0 := t.base3.extractLsb' 16 16
  base1 := t.reserved0
  accessbyte := t.res1Zeros
  flagsLimit1 := t.res2.extractLsb' 0 8
  base2 := t.res2.extractLsb' 8 8

/-- Eight bytes of the table each. -/
def GdtTable.entry (g : GdtTable) : ℕ → Option SegmentDescriptor
  | 0 => some g.null
  | 1 => some g.kernelCode
  | 2 => some g.kernelData
  | 3 => some g.userCode
  | 4 => some g.userData
  | 5 => some g.task.segdesc
  | 6 => some g.task.upper
  | _ => none

/-- The processor sets the busy bit of a task, of which there is one. -/
def GdtTable.setBusy (g : GdtTable) (index : ℕ) : GdtTable :=
  if index = 5 then
    let d := g.task.segdesc
    { g with task := { g.task with segdesc := { d with accessbyte := d.accessbyte ||| 0x2#8 } } }
  else g

/-- `GdtDescriptor`. -/
structure GdtDescriptor where
  /-- `m_limit`. -/
  limit : BitVec 16
  /-- `m_offset`. -/
  offset : BitVec 64
  deriving DecidableEq

/-- `SwitchGdt`, to a table at an address. -/
def GdtDescriptor.switchGdt (_ : GdtDescriptor) (gdtTable : GdtTable) (address : BitVec 64) :
    GdtDescriptor where
  limit := BitVec.ofNat 16 gdtTable.size
  offset := address

/-- `sizeof(m_taskSegment)`. -/
def taskSegmentSize : ℕ := 104

/-- The table that `SegmentManager()` makes, with its task segment at an address.  The descriptors
are built in `memory`. -/
def newGdt (memory : TaskDescriptor) (taskSegment : BitVec 64) : Exec GdtTable := do
  let d := memory.segdesc
  let nullsegment ← d.new ⟨0, 0⟩ .null .null
  let kernelCode ← d.new ⟨0, 0xFFFFF⟩ ⟨true, true, false, 0b1010⟩ ⟨false, false, true, false⟩
  let kernelData ← d.new ⟨0, 0xFFFFF⟩ ⟨true, true, false, 0b0010⟩ ⟨false, true, false, false⟩
  let userCode ← d.new ⟨0, 0xFFFFF⟩ ⟨true, false, false, 0b1010⟩ ⟨false, false, true, false⟩
  let userData ← d.new ⟨0, 0xFFFFF⟩ ⟨true, false, false, 0b0010⟩ ⟨false, true, false, false⟩
  let taskDesc ← memory.ofAttributes ⟨taskSegment, BitVec.ofNat 32 (taskSegmentSize - 1)⟩
    ⟨false, false, true, true, false⟩
  return ⟨nullsegment, kernelCode, kernelData, userCode, userData, taskDesc⟩

/-! ## The processor -/

/-- The registers that hold segments, besides `cs`. -/
inductive SegmentRegister
  /-- The stack. -/
  | ss
  /-- Data. -/
  | ds
  /-- Data. -/
  | es
  /-- Data. -/
  | fs
  /-- Data. -/
  | gs
  deriving DecidableEq

/-- An exception, with the selector that caused it. -/
inductive CpuException
  /-- `#GP`. -/
  | generalProtection (selector : BitVec 16)
  /-- `#NP`. -/
  | notPresent (selector : BitVec 16)
  /-- `#SS`. -/
  | stack (selector : BitVec 16)
  deriving DecidableEq

/-- What a segment register holds: the selector, and the descriptor at the time it was loaded. -/
structure LoadedSegment where
  /-- The selector. -/
  selector : BitVec 16
  /-- The descriptor. -/
  descriptor : SegmentDescriptor
  deriving DecidableEq

/-- What the task register holds. -/
structure LoadedTask where
  /-- The selector. -/
  selector : BitVec 16
  /-- The base. -/
  base : BitVec 64
  /-- The limit in bytes. -/
  limit : ℕ
  deriving DecidableEq

/-- The manager, and the registers of the processor. -/
structure SegmentSystem where
  /-- `m_gdt`. -/
  gdt : GdtTable
  /-- Its address. -/
  address : BitVec 64
  /-- `m_gdtr`. -/
  gdtr : GdtDescriptor
  /-- What `LoadCurrent` has loaded. -/
  register : GdtDescriptor
  /-- The code segment register. -/
  cs : LoadedSegment
  /-- The other segment registers. -/
  segments : SegmentRegister → LoadedSegment
  /-- The task register. -/
  task : Option LoadedTask

namespace SegmentDescriptor

/-! What the processor reads in a descriptor. -/

/-- The type. -/
def typeField (d : SegmentDescriptor) : BitVec 4 := d.accessbyte.extractLsb' 0 4

/-- Code or data. -/
def isCodeOrData (d : SegmentDescriptor) : Bool := d.accessbyte.getLsbD 4

/-- The privilege level. -/
def dplField (d : SegmentDescriptor) : BitVec 2 := d.accessbyte.extractLsb' 5 2

/-- Present. -/
def presentField (d : SegmentDescriptor) : Bool := d.accessbyte.getLsbD 7

/-- The base. -/
def baseField (d : SegmentDescriptor) : BitVec 32 := d.base2 ++ d.base1 ++ d.base0

/-- The limit. -/
def limitField (d : SegmentDescriptor) : BitVec 20 := d.flagsLimit1.extractLsb' 0 4 ++ d.limit0

/-- The last byte. -/
def lastByte (d : SegmentDescriptor) : ℕ :=
  if d.flagsLimit1.getLsbD 7 then d.limitField.toNat * 4096 + 4095 else d.limitField.toNat

/-- 64-bit code. -/
def isLongField (d : SegmentDescriptor) : Bool :=
  d.flagsLimit1.getLsbD 5 && !d.flagsLimit1.getLsbD 6

end SegmentDescriptor

/-- The instructions of `segreg_reload` that load a register. -/
inductive SegmentInstruction
  /-- `retfq`, to a segment. -/
  | retfq (selector : BitVec 16)
  /-- `movw`, to a segment register. -/
  | movw (r : SegmentRegister) (selector : BitVec 16)
  /-- `ltrw`. -/
  | ltrw (selector : BitVec 16)

namespace SegmentSystem

/-- The current privilege level. -/
def cpl (s : SegmentSystem) : BitVec 2 := s.cs.selector.extractLsb' 0 2

/-- The descriptor of a selector, if its bytes, the last of which is at `last`, are within the
limit. -/
def fetch (s : SegmentSystem) (selector : BitVec 16) (last : ℕ) : Option SegmentDescriptor :=
  let index := selector.toNat / 8
  if selector.getLsbD 2 = false ∧ 8 * index + last ≤ s.register.limit.toNat ∧
      s.register.offset = s.address then
    s.gdt.entry index
  else none

/-- The checks of a far return within a level of privilege. -/
def checkCode (s : SegmentSystem) (selector : BitVec 16) : Except CpuException SegmentDescriptor :=
  let error := selector &&& 0xFFFC
  if error = 0 then .error (.generalProtection 0)
  else
    match s.fetch selector 7 with
    | none => .error (.generalProtection error)
    | some d =>
      let rpl := selector.extractLsb' 0 2
      if ¬(d.isCodeOrData ∧ d.typeField.getLsbD 3) ∨ rpl ≠ s.cpl then
        .error (.generalProtection error)
      else if (if d.typeField.getLsbD 2 then rpl < d.dplField else d.dplField ≠ rpl) then
        .error (.generalProtection error)
      else if ¬d.presentField then .error (.notPresent error)
      else if ¬d.isLongField then .error (.generalProtection error)
      else .ok d

/-- The checks of a move to a data segment register.  A null selector can be moved there. -/
def checkData (s : SegmentSystem) (selector : BitVec 16) : Except CpuException SegmentDescriptor :=
  let error := selector &&& 0xFFFC
  if error = 0 then .ok ⟨0, 0, 0, 0, 0, 0⟩
  else
    match s.fetch selector 7 with
    | none => .error (.generalProtection error)
    | some d =>
      let rpl := selector.extractLsb' 0 2
      if ¬(d.isCodeOrData ∧ (d.typeField.getLsbD 3 → d.typeField.getLsbD 1)) then
        .error (.generalProtection error)
      else if ¬(d.typeField.getLsbD 3 ∧ d.typeField.getLsbD 2) ∧
          (d.dplField < rpl ∨ d.dplField < s.cpl) then
        .error (.generalProtection error)
      else if ¬d.presentField then .error (.notPresent error)
      else .ok d

/-- The checks of a move to the stack segment register.  A null selector can be moved there, but
for programs. -/
def checkStack (s : SegmentSystem) (selector : BitVec 16) :
    Except CpuException SegmentDescriptor :=
  let error := selector &&& 0xFFFC
  let rpl := selector.extractLsb' 0 2
  if error = 0 then
    if rpl = s.cpl ∧ s.cpl ≠ 3 then .ok ⟨0, 0, 0, 0, 0, 0⟩ else .error (.generalProtection 0)
  else
    match s.fetch selector 7 with
    | none => .error (.generalProtection error)
    | some d =>
      if rpl ≠ s.cpl ∨ d.dplField ≠ s.cpl ∨
          ¬(d.isCodeOrData ∧ d.typeField.getLsbD 3 = false ∧ d.typeField.getLsbD 1) then
        .error (.generalProtection error)
      else if ¬d.presentField then .error (.stack error)
      else .ok d

/-- A task is loaded, and becomes busy. -/
def loadTask (s : SegmentSystem) (selector : BitVec 16) : Except CpuException SegmentSystem :=
  let error := selector &&& 0xFFFC
  if s.cpl ≠ 0 ∨ error = 0 then .error (.generalProtection 0)
  else
    match s.fetch selector 15, s.gdt.entry (selector.toNat / 8 + 1) with
    | some d, some upper =>
      if d.isCodeOrData ∨ d.typeField ≠ 0x9 ∨ upper.accessbyte.extractLsb' 0 5 ≠ 0 then
        .error (.generalProtection error)
      else if ¬d.presentField then .error (.notPresent error)
      else
        .ok { s with
          gdt := s.gdt.setBusy (selector.toNat / 8)
          task := some ⟨selector, upper.base0 ++ upper.limit0 ++ d.baseField, d.lastByte⟩ }
    | _, _ => .error (.generalProtection error)

/-- One instruction.  An exception leaves the state as it was. -/
def exec (s : SegmentSystem) : SegmentInstruction → Except CpuException SegmentSystem
  | .retfq selector => do
    let d ← s.checkCode selector
    return { s with cs := ⟨selector, d⟩ }
  | .movw r selector => do
    let d ← if r = .ss then s.checkStack selector else s.checkData selector
    return { s with segments := Function.update s.segments r ⟨selector, d⟩ }
  | .ltrw selector => s.loadTask selector

/-- Instructions one after the other, up to the first exception. -/
def run (s : SegmentSystem) : List SegmentInstruction → Option CpuException × SegmentSystem
  | [] => (none, s)
  | i :: is =>
    match s.exec i with
    | .error e => (some e, s)
    | .ok s => s.run is

/-- `segreg_reload`. -/
def segregReload : List SegmentInstruction :=
  [.retfq 0x08, .movw .ds 0x10, .movw .ss 0x10, .movw .es 0x10, .movw .fs 0x10, .movw .gs 0x10,
    .ltrw 0x28]

/-- `LoadCurrent`. -/
def loadCurrent (s : SegmentSystem) : SegmentSystem :=
  let gdtr := s.gdtr.switchGdt s.gdt s.address
  { s with gdtr := gdtr, register := gdtr }

/-- `ReloadSegmentRegisters`. -/
def reloadSegmentRegisters (s : SegmentSystem) : Option CpuException × SegmentSystem :=
  s.run segregReload

/-- `ReloadTaskRegister`. -/
def reloadTaskRegister (s : SegmentSystem) : Option CpuException × SegmentSystem :=
  s.run segregReload

end SegmentSystem

/-! ## What it is for -/

/-- The calls of the manager. -/
inductive SegmentCall
  /-- `LoadCurrent`. -/
  | loadCurrent
  /-- `ReloadSegmentRegisters`. -/
  | reloadSegmentRegisters
  /-- `ReloadTaskRegister`. -/
  | reloadTaskRegister

/-- The manager after its constructor, on a processor that runs the kernel.  The task segment is
a member, at an address of its own. -/
def segmentMachine (taskSegment : BitVec 64) :
    Machine SegmentSystem SegmentCall (Option CpuException) where
  init s := (∃ memory, newGdt memory taskSegment = .ok s.gdt) ∧ s.cpl = 0 ∧ s.task = none
  enabled s k := match k with
    | .loadCurrent => True
    | .reloadSegmentRegisters | .reloadTaskRegister =>
      -- the address has been loaded
      s.register = s.gdtr.switchGdt s.gdt s.address
  step s k := match k with
    | .loadCurrent => return (none, s.loadCurrent)
    | .reloadSegmentRegisters => return s.reloadSegmentRegisters
    | .reloadTaskRegister => return s.reloadTaskRegister

/-- **The registers are loaded once**: the state says whether they are. -/
def segmentsSpec : Spec Bool SegmentCall (Option CpuException) where
  init a := a = false
  step a k r a' := match k with
    | .loadCurrent => r = none ∧ a' = a
    | .reloadSegmentRegisters | .reloadTaskRegister =>
      r = (if a then some (.generalProtection 0x28) else none) ∧ a' = true

/-- A segment that is the whole 32-bit address space. -/
structure SegmentDescriptor.Flat (d : SegmentDescriptor) (dpl : BitVec 2) (code : Bool) :
    Prop where
  /-- It begins at 0, -/
  base : d.baseField = 0
  /-- and ends at the last address. -/
  lastByte : d.lastByte = 2 ^ 32 - 1
  /-- The level. -/
  dpl : d.dplField = dpl
  /-- It is present, -/
  present : d.presentField = true
  /-- and not a system segment. -/
  isCodeOrData : d.isCodeOrData = true
  /-- Code, or data. -/
  type : d.typeField.getLsbD 3 = code
  /-- Code can be read, and data can be written. -/
  access : d.typeField.getLsbD 1 = true
  /-- Code is 64-bit code. -/
  long : d.isLongField = code

/-- Where the task segment ends for the processor: its limit counts pages. -/
def taskLimit : ℕ := (taskSegmentSize - 1) * 4096 + 4095

/-- **The registers of a kernel with a flat memory.** -/
structure SegmentSystem.Flat (s : SegmentSystem) (taskSegment : BitVec 64) : Prop where
  /-- The code. -/
  cs : s.cs.selector = 0x08 ∧ s.cs.descriptor.Flat 0 true
  /-- The stack and the data. -/
  segments : ∀ r, (s.segments r).selector = 0x10 ∧ (s.segments r).descriptor.Flat 0 false
  /-- The task register holds the task segment, and the pages behind it. -/
  task : s.task = some ⟨0x28, taskSegment, taskLimit⟩

/-! ## What the constructor builds -/

/-- Base 0, the largest limit in pages, and the two packed bytes. -/
def flatSegment (accessbyte flags : BitVec 8) : SegmentDescriptor where
  limit0 := 0xFFFF
  base0 := 0
  base1 := 0
  accessbyte := accessbyte
  flagsLimit1 := flags
  base2 := 0

theorem flatSegment_flat : (flatSegment 0x9A 0xAF).Flat 0 true ∧
    (flatSegment 0x92 0xCF).Flat 0 false ∧ (flatSegment 0xFA 0xAF).Flat 3 true ∧
    (flatSegment 0xF2 0xCF).Flat 3 false :=
  ⟨⟨rfl, rfl, rfl, rfl, rfl, rfl, rfl, rfl⟩, ⟨rfl, rfl, rfl, rfl, rfl, rfl, rfl, rfl⟩,
    ⟨rfl, rfl, rfl, rfl, rfl, rfl, rfl, rfl⟩, ⟨rfl, rfl, rfl, rfl, rfl, rfl, rfl, rfl⟩⟩

/-- The table, with a task that is busy or not. -/
def flatGdt (taskSegment : BitVec 64) (busy : Bool) : GdtTable where
  null := ⟨0, 0, 0, 0, 0, 0⟩
  kernelCode := flatSegment 0x9A 0xAF
  kernelData := flatSegment 0x92 0xCF
  userCode := flatSegment 0xFA 0xAF
  userData := flatSegment 0xF2 0xCF
  task :=
    let d := { TaskDescriptor.built taskSegment 0x67 0x67 with flagsLimit1 := 0x80 }
    ⟨if busy then { d with accessbyte := 0x8B } else d, taskSegment.extractLsb' 32 32, 0, 0, 0⟩

/-- What the constructor of a segment descriptor builds. -/
theorem SegmentDescriptor.new_eq (d : SegmentDescriptor) (base : BitVec 64) {limit : BitVec 32}
    (h : limit ≤ 0xFFFFF) (a : AccessByte) (f : Flags) : d.new ⟨base, limit⟩ a f = .ok {
      limit0 := limit.extractLsb' 0 16
      base0 := base.extractLsb' 0 16
      base1 := base.extractLsb' 16 8
      accessbyte := accessBuffer a
      flagsLimit1 := (limit.extractLsb' 16 4).setWidth 8 ||| flagbyte f <<< 4
      base2 := base.extractLsb' 24 8 } := by
  have hlow := (lowerHalf d.flagsLimit1 (limit.extractLsb' 16 4)).1
  simp only [new, setBaseLimit, setBaseAddress_eq, setSegmentLimit_eq _ h, Exec.ok_bind,
    Exec.pure_eq, setAccessByte, setFlags, hlow]

/-- **The table that is built**, over any memory. -/
theorem newGdt_eq (memory : TaskDescriptor) (taskSegment : BitVec 64) :
    newGdt memory taskSegment = .ok (flatGdt taskSegment false) := by
  have hlimit : BitVec.ofNat 32 (taskSegmentSize - 1) = 0x67#32 := rfl
  have htask := memory.ofAttributes_granular taskSegment (by decide : (0x67#32) ≤ 0xFFFFF)
    false false
  simp only [newGdt, SegmentDescriptor.new_eq _ _ (show (0 : BitVec 32) ≤ 0xFFFFF by decide),
    SegmentDescriptor.new_eq _ _ (show (0xFFFFF : BitVec 32) ≤ 0xFFFFF by decide), hlimit, htask,
    Exec.ok_bind, Exec.pure_eq]
  rfl

/-! ## What the processor loads -/

namespace SegmentSystem

variable {s : SegmentSystem} {taskSegment : BitVec 64} {busy : Bool}

/-- **What a run keeps.** -/
structure Inv (taskSegment : BitVec 64) (s : SegmentSystem) (busy : Bool) : Prop where
  /-- The table. -/
  gdt : s.gdt = flatGdt taskSegment busy
  /-- The kernel runs. -/
  cpl : s.cpl = 0
  /-- The registers, once the task is busy. -/
  flat : busy = true → s.Flat taskSegment

/-- The processor knows where the table is. -/
def Loaded (s : SegmentSystem) : Prop := s.register = ⟨56, s.address⟩

/-- What it reads there. -/
theorem Loaded.fetch_eq (h : s.Loaded) {selector : BitVec 16} {last : ℕ}
    (hti : selector.getLsbD 2 = false) (hlast : 8 * (selector.toNat / 8) + last ≤ 56) :
    s.fetch selector last = s.gdt.entry (selector.toNat / 8) := by
  refine if_pos ⟨hti, ?_, ?_⟩
  · rw [h]
    exact hlast
  · rw [h]

/-- **The limit admits the seven places of the table**, although it is too large by one. -/
theorem Loaded.fetch_isSome_iff (h : s.Loaded) (selector : BitVec 16) :
    (s.fetch selector 7).isSome = true ↔
      selector.getLsbD 2 = false ∧ selector.toNat / 8 < 7 := by
  have hentry : ∀ i < 7, (s.gdt.entry i).isSome = true := by
    intro i hi
    interval_cases i <;> rfl
  constructor
  · intro hsome
    rw [fetch] at hsome
    split at hsome
    · rename_i hin
      obtain ⟨hti, hlast, -⟩ := hin
      rw [h] at hlast
      have hlast : 8 * (selector.toNat / 8) + 7 ≤ 56 := hlast
      exact ⟨hti, by omega⟩
    · cases hsome
  · rintro ⟨hti, hlt⟩
    rw [h.fetch_eq hti (by omega)]
    exact hentry _ hlt

/-- The kernel's code can be returned to. -/
theorem Inv.checkCode (h : s.Inv taskSegment busy) (hl : s.Loaded) :
    s.checkCode 0x08 = .ok (flatSegment 0x9A 0xAF) := by
  have hfetch : s.fetch 0x08 7 = some (flatSegment 0x9A 0xAF) := by
    rw [hl.fetch_eq (by decide) (by decide), h.gdt]
    rfl
  rw [SegmentSystem.checkCode, hfetch, h.cpl]
  rfl

/-- The kernel's data can be used, as data and as a stack. -/
theorem Inv.checkData (h : s.Inv taskSegment busy) (hl : s.Loaded) :
    s.checkData 0x10 = .ok (flatSegment 0x92 0xCF) ∧
      s.checkStack 0x10 = .ok (flatSegment 0x92 0xCF) := by
  have hfetch : s.fetch 0x10 7 = some (flatSegment 0x92 0xCF) := by
    rw [hl.fetch_eq (by decide) (by decide), h.gdt]
    rfl
  constructor
  · rw [SegmentSystem.checkData, hfetch, h.cpl]
    rfl
  · rw [SegmentSystem.checkStack, hfetch, h.cpl]
    rfl

/-- The base of the task is put together from four fields. -/
theorem taskBase_eq (taskSegment : BitVec 64) :
    (flatGdt taskSegment false).task.upper.base0 ++ (flatGdt taskSegment false).task.upper.limit0 ++
      (flatGdt taskSegment false).task.segdesc.baseField = taskSegment := by
  have hupper := Bits.extract_append (taskSegment.extractLsb' 32 32) 0 16 16
  have hlow := TaskDescriptor.baseAddress_built taskSegment 0x67 0x67
  rw [SegmentDescriptor.baseAddress_eq] at hlow
  have hall := Bits.extract_append taskSegment 0 32 32
  rw [BitVec.extractLsb'_eq_self] at hupper hall
  show (taskSegment.extractLsb' 32 32).extractLsb' 16 16 ++
    (taskSegment.extractLsb' 32 32).extractLsb' 0 16 ++
      (TaskDescriptor.built taskSegment 0x67 0x67).baseField = taskSegment
  rw [hupper, SegmentDescriptor.baseField, hlow, hall]

/-- **A task is loaded once.** -/
theorem Inv.loadTask (h : s.Inv taskSegment busy) (hl : s.Loaded) :
    s.loadTask 0x28 = if busy then .error (.generalProtection 0x28) else .ok { s with
      gdt := flatGdt taskSegment true
      task := some ⟨0x28, taskSegment, taskLimit⟩ } := by
  have hfetch : s.fetch 0x28 15 = some (flatGdt taskSegment busy).task.segdesc := by
    rw [hl.fetch_eq (by decide) (by decide), h.gdt]
    rfl
  have hupper : s.gdt.entry ((0x28 : BitVec 16).toNat / 8 + 1) =
      some (flatGdt taskSegment busy).task.upper := by
    rw [h.gdt]
    rfl
  have herror : (0x28 : BitVec 16) &&& 0xFFFC = 0x28 := by decide
  rw [SegmentSystem.loadTask, hfetch, hupper, h.cpl, h.gdt]
  simp only [herror]
  rw [if_neg (by decide)]
  cases busy with
  | true =>
    have htype : (0x8B#8).extractLsb' 0 4 ≠ 0x9 := by decide
    exact if_pos (.inr (.inl htype))
  | false =>
    have hsystem : (0x89#8).getLsbD 4 = false := by decide
    have htype : (0x89#8).extractLsb' 0 4 = 0x9 := by decide
    have hpresent : (0x89#8).getLsbD 7 = true := by decide
    have hzeros : (0#8).extractLsb' 0 5 = 0 := by decide
    -- the limit counts pages
    have hlimit : (flatGdt taskSegment false).task.segdesc.lastByte = taskLimit := by
      have hfield : (0x80#8).extractLsb' 0 4 ++ 0x67#16 = 0x67#20 := by decide
      have hpages : (0x80#8).getLsbD 7 = true := by decide
      refine (if_pos hpages).trans ?_
      show ((0x80#8).extractLsb' 0 4 ++ 0x67#16).toNat * 4096 + 4095 = taskLimit
      rw [hfield]
      rfl
    have hbusy : (flatGdt taskSegment false).setBusy ((0x28 : BitVec 16).toNat / 8) =
        flatGdt taskSegment true := by
      have hbyte : 0x89#8 ||| 0x2#8 = 0x8B := by decide
      show ({ flatGdt taskSegment false with task := { (flatGdt taskSegment false).task with
        segdesc := { TaskDescriptor.built taskSegment 0x67 0x67 with
          flagsLimit1 := 0x80
          accessbyte := 0x89#8 ||| 0x2#8 } } } : GdtTable) = flatGdt taskSegment true
      rw [hbyte]
      rfl
    rw [if_neg, if_neg, taskBase_eq, hlimit, hbusy]
    · rfl
    · exact not_not_intro hpresent
    · rintro (hs | ht | hz)
      · exact Bool.false_ne_true (hsystem.symm.trans hs)
      · exact ht htype
      · exact hz hzeros

/-- What a register holds when the kernel's data was loaded. -/
def flatData : LoadedSegment := ⟨0x10, flatSegment 0x92 0xCF⟩

/-- A register that is loaded with the kernel's data is flat, and so is what was. -/
theorem Inv.movw (h : s.Inv taskSegment busy) (r : SegmentRegister) :
    ({ s with segments := Function.update s.segments r flatData } : SegmentSystem).Inv
      taskSegment busy := by
  refine { h with flat := fun hb ↦ ?_ }
  obtain ⟨hcs, hsegments, htask⟩ := h.flat hb
  refine ⟨hcs, fun r' ↦ ?_, htask⟩
  show (Function.update s.segments r _ r').selector = 0x10 ∧
    (Function.update s.segments r _ r').descriptor.Flat 0 false
  by_cases hr : r' = r
  · rw [hr, Function.update_self]
    exact ⟨rfl, flatSegment_flat.2.1⟩
  · rw [Function.update_of_ne hr]
    exact hsegments r'

/-- The registers that are loaded one after the other. -/
theorem Inv.run_movw (rs : List SegmentRegister) (is : List SegmentInstruction)
    (h : s.Inv taskSegment busy) (hl : s.Loaded) :
    ∃ s' : SegmentSystem, s.run (rs.map (.movw · 0x10) ++ is) = s'.run is ∧
      s'.Inv taskSegment busy ∧ s'.Loaded ∧ s'.cs = s.cs ∧ ∀ r, r ∈ rs ∨ s.segments r = flatData →
        s'.segments r = flatData := by
  induction rs generalizing s with
  | nil => exact ⟨s, rfl, h, hl, rfl, fun r hr ↦ hr.resolve_left List.not_mem_nil⟩
  | cons r rs ih =>
    obtain ⟨hd, hs⟩ := h.checkData hl
    have hexec : s.exec (.movw r 0x10) = .ok { s with
        segments := Function.update s.segments r flatData } := by
      rw [exec, hd, hs]
      cases r <;> rfl
    obtain ⟨s', hrun, hinv, hl', hcs, hsegments⟩ := ih (h.movw r) hl
    refine ⟨s', ?_, hinv, hl', hcs, fun r' hr' ↦ hsegments r' ?_⟩
    · rw [List.map_cons, List.cons_append, run, hexec]
      exact hrun
    · show r' ∈ rs ∨ Function.update s.segments r _ r' = _
      by_cases heq : r' = r
      · exact .inr (heq ▸ Function.update_self ..)
      · rw [Function.update_of_ne heq]
        exact hr'.imp_left fun hmem ↦ (List.mem_cons.mp hmem).resolve_left heq

/-- **A reload**, which an exception ends if the task is busy. -/
theorem Inv.run_segregReload (h : s.Inv taskSegment busy) (hl : s.Loaded) :
    ∃ s' : SegmentSystem, s.run segregReload =
      ((if busy then some (.generalProtection 0x28) else none), s') ∧ s'.Inv taskSegment true := by
  have hcode : s.exec (.retfq 0x08) = .ok { s with cs := ⟨0x08, flatSegment 0x9A 0xAF⟩ } := by
    rw [exec, h.checkCode hl]
    rfl
  have hcpl : (0x08 : BitVec 16).extractLsb' 0 2 = 0 := by decide
  have hinv : ({ s with cs := ⟨0x08, flatSegment 0x9A 0xAF⟩ } : SegmentSystem).Inv taskSegment
      busy :=
    ⟨h.gdt, hcpl, fun hb ↦ ⟨⟨rfl, flatSegment_flat.1⟩, (h.flat hb).segments, (h.flat hb).task⟩⟩
  obtain ⟨s', hrun, hinv', hl', hcs, hsegments⟩ :=
    hinv.run_movw [.ds, .ss, .es, .fs, .gs] [.ltrw 0x28] hl
  have hreload : s.run segregReload = s'.run [.ltrw 0x28] := by
    rw [segregReload, run, hcode]
    exact hrun
  have hflat : ∀ r, s'.segments r = flatData := fun r ↦
    hsegments r (.inl (by cases r <;> decide))
  have hltr := hinv'.loadTask hl'
  rw [hreload, run, exec, hltr]
  cases busy with
  | true => exact ⟨s', rfl, hinv'⟩
  | false =>
    refine ⟨_, rfl, rfl, hinv'.cpl, fun _ ↦ ⟨?_, fun r ↦ ?_, rfl⟩⟩
    · show s'.cs.selector = 0x08 ∧ s'.cs.descriptor.Flat 0 true
      rw [hcs]
      exact ⟨rfl, flatSegment_flat.1⟩
    · show (s'.segments r).selector = 0x10 ∧ (s'.segments r).descriptor.Flat 0 false
      rw [hflat r]
      exact ⟨rfl, flatSegment_flat.2.1⟩

/-! ## Runs -/

/-- Every call is one of the specification. -/
theorem simulates (taskSegment : BitVec 64) :
    (segmentMachine taskSegment).Simulates segmentsSpec (Inv taskSegment) where
  init := by
    rintro s ⟨⟨memory, hgdt⟩, hcpl, -⟩
    rw [newGdt_eq] at hgdt
    exact ⟨false, rfl, (Except.ok.inj hgdt).symm, hcpl, fun hb ↦ absurd hb Bool.false_ne_true⟩
  step := by
    intro s a k h hk
    have hreload : s.register = s.gdtr.switchGdt s.gdt s.address → s.Loaded := fun hr ↦ hr
    cases k with
    | loadCurrent =>
      exact ⟨_, _, _, rfl, ⟨rfl, rfl⟩, h.gdt, h.cpl, fun hb ↦
        ⟨(h.flat hb).cs, (h.flat hb).segments, (h.flat hb).task⟩⟩
    | reloadSegmentRegisters =>
      obtain ⟨s', hrun, hinv⟩ := h.run_segregReload (hreload hk)
      exact ⟨_, s', true, congrArg Except.ok hrun, ⟨rfl, rfl⟩, hinv⟩
    | reloadTaskRegister =>
      obtain ⟨s', hrun, hinv⟩ := h.run_segregReload (hreload hk)
      exact ⟨_, s', true, congrArg Except.ok hrun, ⟨rfl, rfl⟩, hinv⟩

end SegmentSystem

/-- A manager whose task segment is at `0x5000`, on a processor with a table of the boot loader. -/
def bootedSegments : SegmentSystem where
  gdt := flatGdt 0x5000 false
  address := 0x1000
  gdtr := ⟨0, 0⟩
  register := ⟨0x37, 0x9000⟩
  cs := ⟨0x28, flatSegment 0x9A 0xAF⟩
  segments := fun _ ↦ ⟨0x30, flatSegment 0x92 0xCF⟩
  task := none

end X8664
