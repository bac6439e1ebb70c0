import Chisaka.Drivers.Ahci.Structs
import Chisaka.Ram.Freelist

/-!
# The AHCI driver

`AhciPort` and `AhciDriver` with the functions that set up the memory of the ports (`InitPorts`,
`InitMemory`) and those that send a command for one sector (`WriteSector`, `ReadSector`).

A port reaches its registers through `m_registers`, which is null until `InitPorts` has set it.
Command lists and command tables are objects in memory that are reached by address.  What the
hardware does is an argument: the contents of the registers when the ports are found, and the
values that the `ci` register shows while the driver waits for a command to end.

The other registers, and the controller at work, are in `Initialise`, of which this is a view
(`PortViews`).
-/

set_option autoImplicit false

namespace Chisaka.Ahci

open PageAllocators

/-- The object that a pointer points to. -/
def deref {α : Type} (objects : ℕ → Option α) (p : ℕ) : Exec α :=
  if p = 0 then .error .nullDeref else (objects p).elim (.error .dangling) .ok

theorem deref_of_some {α : Type} {objects : ℕ → Option α} {p : ℕ} {a : α} (hp : p ≠ 0)
    (h : objects p = some a) : deref objects p = .ok a := by
  rw [deref, if_neg hp, h]
  rfl

/-- The registers of a port that the driver works with here. -/
structure PortRegisters where
  /-- `clistb`. -/
  clistb : BitVec 32
  /-- `fisb`. -/
  fisb : BitVec 32
  /-- `sact`. -/
  sact : BitVec 32
  /-- `ci`. -/
  ci : BitVec 32
  deriving DecidableEq

/-! ## Ports -/

/-- `AhciPort`. -/
structure AhciPort where
  /-- What `m_registers` points to, unless it is null. -/
  registers : Option PortRegisters := none
  /-- `m_present`. -/
  present : Bool := false
  deriving DecidableEq

namespace AhciPort

/-- `*m_registers`. -/
def regs (p : AhciPort) : Exec PortRegisters := p.registers.elim (.error .nullDeref) .ok

/-- `SetCLB(addr)`: the address is 64 bits wide, the register 32. -/
def setCLB (p : AhciPort) (addr : ℕ) : Exec AhciPort := do
  let r ← p.regs
  return { p with registers := some { r with clistb := BitVec.ofNat 32 addr } }

/-- `CommandListPtr`: the address in `CommandListBaseAddr`. -/
def commandListPtr (p : AhciPort) : Exec ℕ := do
  let r ← p.regs
  return r.clistb.toNat

/-- `RecievedFisPtr`: the address in `RecievedFisBaseAddr`. -/
def recievedFisPtr (p : AhciPort) : Exec ℕ := do
  let r ← p.regs
  return r.fisb.toNat

/-- `EmptyCommandSlot`. -/
def emptyCommandSlot (p : AhciPort) : Exec ℤ := do
  let r ← p.regs
  match (List.range 32).find? fun i ↦ !(r.sact.getLsbD i) && !(r.ci.getLsbD i) with
  | some i => return i
  | none => return -1

/-- `IssueCommand`. -/
def issueCommand (p : AhciPort) (slot : ℕ) : Exec AhciPort := do
  kassert (slot < 32)
  let r ← p.regs
  return { p with registers := some { r with ci := r.ci ||| BitVec.twoPow 32 slot } }

/-- A slot of the list is issued in the port's register. -/
theorem issueCommand_of_lt {p : AhciPort} {r : PortRegisters} {slot : ℕ} (hslot : slot < 32)
    (hr : p.registers = some r) : p.issueCommand slot = .ok { p with
      registers := some { r with ci := r.ci ||| BitVec.twoPow 32 slot } } := by
  rw [issueCommand, kassert, Exec.check_of hslot, regs, hr]
  rfl

end AhciPort

/-! ## The driver -/

/-- `AhciDriver`, with the command lists and command tables in memory. -/
structure AhciDriver where
  /-- `m_enabled`. -/
  enabled : Bool
  /-- `m_ports`. -/
  ports : ℕ → AhciPort
  /-- The command lists. -/
  commandLists : ℕ → Option CommandList
  /-- The command tables. -/
  commandTables : ℕ → Option CommandTable

/-- `MAX_PORTS`. -/
def maxPorts : ℕ := 32

namespace AhciDriver

/-- `Port(index)`. -/
def port (d : AhciDriver) (index : ℕ) : Exec AhciPort :=
  if index < maxPorts then .ok (d.ports index) else .error .dangling

/-- The driver after a port has changed. -/
def setPort (d : AhciDriver) (index : ℕ) (p : AhciPort) : AhciDriver :=
  { d with ports := Function.update d.ports index p }

@[simp] theorem ports_setPort (d : AhciDriver) (index : ℕ) (p : AhciPort) :
    (d.setPort index p).ports = Function.update d.ports index p := rfl

@[simp] theorem enabled_setPort (d : AhciDriver) (index : ℕ) (p : AhciPort) :
    (d.setPort index p).enabled = d.enabled := rfl

theorem port_of_lt {d : AhciDriver} {index : ℕ} (h : index < maxPorts) :
    d.port index = .ok (d.ports index) := if_pos h

/-- `InitPorts`.  The ports that `piVal` names are present, and their registers are where the
hardware has them. -/
def initPorts (piVal : BitVec 32) (hardware : ℕ → PortRegisters) (d : AhciDriver) : AhciDriver :=
  { d with ports := fun i ↦
      if i < 32 ∧ piVal.getLsbD i = true then ⟨some (hardware i), true⟩ else d.ports i }

/-! ### Memory of the ports -/

/-- What `InitMemory` allocates for a port, as it prints it. -/
structure PortMemory where
  /-- The port. -/
  port : ℕ
  /-- `portCommandBase`. -/
  portCommandBase : ℕ
  /-- `portFisBase`. -/
  portFisBase : ℕ
  deriving DecidableEq

/-- The state of the loop in `InitMemory`: what was printed, the driver, and the page allocator. -/
structure MemoryState where
  /-- The lines that were printed. -/
  printed : List PortMemory
  /-- The driver. -/
  driver : AhciDriver
  /-- The page allocator. -/
  fl : Freelist

/-- One round of the loop in `InitMemory`. -/
def initPortMemory (s : MemoryState) (i : ℕ) : Exec MemoryState := do
  let p ← s.driver.port i
  if p.present then
    let (portCommandBase, fl) ← allocatePage s.fl
    kassert (portCommandBase % 0x400 = 0)
    let p ← p.setCLB portCommandBase
    let (portFisBase, fl) ← allocatePage fl
    kassert (portFisBase % 0x100 = 0)
    -- the base of the received frames goes to the register of the command list
    let p ← p.setCLB portFisBase
    return ⟨s.printed ++ [⟨i, portCommandBase, portFisBase⟩], s.driver.setPort i p, fl⟩
  else return s

/-- `InitMemory`. -/
def initMemory (d : AhciDriver) (fl : Freelist) : Exec MemoryState := do
  kassert (d.enabled = true)
  (List.range 4).foldlM initPortMemory ⟨[], d, fl⟩

/-! ### Commands -/

/-- The loop that waits until the slot is clear again.  `polls` is what the `ci` register shows,
read by read; the loop ends with the value it saw last. -/
def waitBody (polls : ℕ → BitVec 32) (slot : ℕ) (n : ℕ) : Exec (ℕ ⊕ BitVec 32) :=
  if (polls n).getLsbD slot then return .inl (n + 1) else return .inr (polls n)

/-- What `WriteSector` and `ReadSector` with a supplied table do before they wait: put the command
into the table, the header into a free slot, and start the command.  The result is the slot. -/
def issueSector (fis : H2dRegisterFis) (port : ℕ) (ibuffer cmdtable : BitVec 64)
    (d : AhciDriver) : Exec (ℕ × AhciDriver) := do
  let t ← deref d.commandTables cmdtable.toNat
  let t := t.setCommandFis fis
  let prdt ← PrdtEntry.new ibuffer true 511
  let t ← t.setPrdtEntry 0 prdt
  let d := { d with commandTables := Function.update d.commandTables cmdtable.toNat (some t) }
  let cmdheader ← CommandHeader.new cmdtable 1 0b00000100 0b01000101
  let p ← d.port port
  let freeSlot ← p.emptyCommandSlot
  let cmdlist ← p.commandListPtr
  let l ← deref d.commandLists cmdlist
  -- an index outside the array
  if freeSlot < 0 then throw .dangling
  let slot := freeSlot.toNat
  let l : CommandList := ⟨Function.update l.headers slot cmdheader⟩
  let d := { d with commandLists := Function.update d.commandLists cmdlist (some l) }
  let p ← p.issueCommand slot
  return (slot, d.setPort port p)

/-- The wait for the command in a slot, as far as the driver's own data is concerned. -/
def waitSector (port slot : ℕ) (polls : ℕ → BitVec 32) (rounds : ℕ) (d : AhciDriver) :
    Exec AhciDriver := do
  let p ← d.port port
  let ci ← Loop.run (waitBody polls slot) rounds 0
  let r ← p.regs
  return d.setPort port { p with registers := some { r with ci := ci } }

/-- `WriteSector(port, sector, ibuffer, cmdtable)`. -/
def writeSector (port : ℕ) (sector ibuffer cmdtable : BitVec 64) (polls : ℕ → BitVec 32)
    (rounds : ℕ) (d : AhciDriver) : Exec AhciDriver := do
  let (slot, d) ← d.issueSector (.createWrite sector) port ibuffer cmdtable
  d.waitSector port slot polls rounds

/-- `ReadSector(port, sector, ibuffer, cmdtable)`. -/
def readSector (port : ℕ) (sector ibuffer cmdtable : BitVec 64) (polls : ℕ → BitVec 32)
    (rounds : ℕ) (d : AhciDriver) : Exec AhciDriver := do
  let (slot, d) ← d.issueSector (.createRead sector) port ibuffer cmdtable
  d.waitSector port slot polls rounds

end AhciDriver

end Chisaka.Ahci
