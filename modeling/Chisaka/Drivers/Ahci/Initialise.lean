import Chisaka.Lib.Ensures
import Chisaka.Drivers.Pci
import Chisaka.Drivers.Ahci.PortIdle
import Chisaka.Drivers.Ahci.PortDevices
import Chisaka.Drivers.Ahci.PortMemory

/-!
# Initialising the controller

`Initialise` takes the controller from what the firmware has left to ports that run.  All the while
the controller works too: it resets itself when it is told to, finds links, stops engines, raises
interrupts.  A `Controller` is what it does of its own before every access to a register; the only
thing that is known of it is which bits are those of software, and that a reset leaves nothing of
them but the bases of the command lists and the received frames.

The loops over the ports are those of the source, with every access to a register in its place:
what two reads of one register give need not be the same.  Lines that are printed are left out, but
for the pages of `InitMemory`.
-/

set_option autoImplicit false

namespace Chisaka.Ahci.Initialise

open PageAllocators
open Drivers.Pci (formConfigAddress)
open AhciDriver (PortMemory)
open PortIdle (combinedMask forceEngine cmdSt cmdFre cmdCr)
open PortDevices (tfdStsStatusBsy tfdStsStatusDrq sataStatusIpm sataStatusDet)

/-! ## Driver and controller -/

/-- The registers of a port. -/
structure Registers where
  /-- `clistb`. -/
  clistb : BitVec 32
  /-- `fisb`. -/
  fisb : BitVec 32
  /-- `is`. -/
  is : BitVec 32
  /-- `ie`. -/
  ie : BitVec 32
  /-- `cmd`. -/
  cmd : BitVec 32
  /-- `tfd`. -/
  tfd : BitVec 32
  /-- `ssts`. -/
  ssts : BitVec 32
  /-- `serr`. -/
  serr : BitVec 32
  /-- `sact`. -/
  sact : BitVec 32
  /-- `ci`. -/
  ci : BitVec 32

/-- The registers of the controller. -/
structure Hba where
  /-- `ghc`. -/
  ghc : BitVec 32
  /-- `is`. -/
  is : BitVec 32
  /-- `pi`. -/
  pi : BitVec 32
  /-- The registers of its ports. -/
  ports : ℕ → Registers

/-- What is software's in the registers of a port. -/
structure SoftPort where
  /-- `clistb`. -/
  clistb : BitVec 32
  /-- `fisb`. -/
  fisb : BitVec 32
  /-- `ie`. -/
  ie : BitVec 32
  /-- `CMD_ST`. -/
  st : Bool
  /-- `CMD_FRE`. -/
  fre : Bool

/-- The part of software. -/
def Registers.soft (r : Registers) : SoftPort :=
  ⟨r.clistb, r.fisb, r.ie, r.cmd.getLsbD 0, r.cmd.getLsbD 4⟩

/-- What a controller does of its own before the `n`-th access to a register. -/
structure Controller where
  /-- What becomes of the registers. -/
  act : ℕ → Hba → Hba
  /-- Which ports there are does not change. -/
  pi : ∀ n h, (act n h).pi = h.pi
  /-- Not even a reset changes the bases. -/
  bases : ∀ n h i, ((act n h).ports i).clistb = (h.ports i).clistb ∧
    ((act n h).ports i).fisb = (h.ports i).fisb
  /-- Unless it is being reset, the bits of software stay as they are, and no reset begins. -/
  soft : ∀ n h, h.ghc.getLsbD 0 = false → (act n h).ghc.getLsbD 0 = false ∧
    (act n h).ghc.getLsbD 1 = h.ghc.getLsbD 1 ∧ (act n h).ghc.getLsbD 31 = h.ghc.getLsbD 31 ∧
    ∀ i, ((act n h).ports i).soft = (h.ports i).soft

/-- `AhciPort`, with the registers elsewhere. -/
structure Port where
  /-- `m_registers` is not null, and then points to the registers of this port. -/
  mapped : Bool := false
  /-- `m_present`. -/
  present : Bool := false
  /-- `m_devicePresent`. -/
  devicePresent : Bool := false
  /-- `m_fre`. -/
  fre : Bool := false
  /-- `m_dmaRunning`. -/
  dmaRunning : Bool := false

/-- `AhciDriver` with the controller and the page allocator. -/
structure State where
  /-- The controller. -/
  hba : Hba
  /-- How often a register was accessed. -/
  accesses : ℕ
  /-- `m_present`. -/
  present : Bool
  /-- `m_enabled`. -/
  enabled : Bool
  /-- `m_abar`. -/
  abar : BitVec 64
  /-- `m_mmioBase`. -/
  mmioBase : BitVec 64
  /-- `m_ports`. -/
  ports : ℕ → Port
  /-- `KContext::Ram`. -/
  fl : Freelist
  /-- The pages that `InitMemory` prints. -/
  printed : List PortMemory

variable (ctl : Controller)

/-! ### Accesses -/

/-- The controller before an access. -/
def access (s : State) : State :=
  { s with hba := ctl.act s.accesses s.hba, accesses := s.accesses + 1 }

/-- `Ghc`. -/
def ghc (s : State) : BitVec 32 × State := ((access ctl s).hba.ghc, access ctl s)

/-- `SetGhc`. -/
def setGhc (val : BitVec 32) (s : State) : State :=
  let s := access ctl s
  { s with hba := { s.hba with ghc := val } }

/-- Read a register of port `i`. -/
def readPort (i : ℕ) (reg : Registers → BitVec 32) (s : State) : Exec (BitVec 32 × State) :=
  if (s.ports i).mapped then .ok (reg ((access ctl s).hba.ports i), access ctl s)
  else .error .nullDeref

/-- Write to the registers of port `i`. -/
def writePort (i : ℕ) (set : Registers → Registers) (s : State) : Exec State :=
  if (s.ports i).mapped then
    let s := access ctl s
    .ok { s with
      hba := { s.hba with ports := Function.update s.hba.ports i (set (s.hba.ports i)) } }
  else .error .nullDeref

/-- Change what the driver remembers of port `i`. -/
def setPort (i : ℕ) (f : Port → Port) (s : State) : State :=
  { s with ports := Function.update s.ports i (f (s.ports i)) }

/-! ### The controller as a whole -/

/-- `InitPresent`.  `inl` is what is read at `CONFIG_DATA` after an address was written to
`CONFIG_ADDRESS`. -/
def initPresent (inl : BitVec 32 → BitVec 32) (s : State) : Exec State := do
  let classCode := inl (formConfigAddress true 0 31 2 0x08) >>> 8
  let baseClass := classCode >>> 16 &&& 0xFF
  let subClass := classCode >>> 8 &&& 0xFF
  let programmingInterface := classCode &&& 0xFF
  kassert (baseClass = 0x1)
  kassert (subClass = 0x06)
  kassert (programmingInterface = 0x01)
  return { s with present := baseClass = 0x1 && subClass = 0x06 && programmingInterface = 0x01 }

/-- `InitAbar`. -/
def initAbar (inl : BitVec 32 → BitVec 32) (s : State) : Exec State := do
  kassert (s.present = true)
  return { s with abar := (inl (formConfigAddress true 0 31 2 0x24)).setWidth 64 }

/-- `InitMMIOBase`. -/
def initMMIOBase (inl : BitVec 32 → BitVec 32) (s : State) : Exec State := do
  kassert (s.present = true)
  let abar := inl (formConfigAddress true 0 31 2 0x24)
  return { s with mmioBase := ((abar >>> 8) <<< 8).setWidth 64 }

/-- A loop that waits for bit `b` of `ghc` to be `v`. -/
def waitGhc (b : ℕ) (v : Bool) (s : State) : Exec (State ⊕ State) :=
  let (val, s) := ghc ctl s
  if val.getLsbD b = v then return .inr s else return .inl s

/-- `Enable`.  The loops are allowed `rounds` rounds. -/
def enable (rounds : ℕ) (s : State) : Exec State := do
  kassert (s.present = true)
  let (val, s) := ghc ctl s
  if val &&& 0x80000000 ≠ 0 then return { s with enabled := true }
  else
    let (val, s) := ghc ctl s
    let s := setGhc ctl (val ||| 0x80000000) s
    let s ← Loop.run (waitGhc ctl 31 true) rounds s
    return { s with enabled := true }

/-- `ResetController`. -/
def resetController (rounds : ℕ) (s : State) : Exec State := do
  kassert (s.present = true)
  let (val, s) := ghc ctl s
  let s := setGhc ctl (val ||| 1) s
  Loop.run (waitGhc ctl 0 false) rounds s

/-- `HbaIdle`.  It ends at the first port that is not idle. -/
def hbaIdle (s : State) : Exec (Bool × State) :=
  (List.range 32).foldlM (fun (idle, s) i ↦
    if idle && (s.ports i).present then do
      let (cmd, s) ← readPort ctl i Registers.cmd s
      return (decide (cmd &&& combinedMask = 0), s)
    else return (idle, s)) (true, s)

/-- `ForceIdle`.  It works with a copy of the register. -/
def forceIdle (i : ℕ) (s : State) : Exec State := do
  let (cmdstatus, s) ← readPort ctl i Registers.cmd s
  let cmdstatus ← forceEngine .command cmdstatus
  let _ ← forceEngine .fis cmdstatus
  return s

/-- A loop over the ports that are present. -/
def forPresent (f : ℕ → State → Exec State) (s : State) : Exec State :=
  (List.range 32).foldlM (fun s i ↦ if (s.ports i).present then f i s else return s) s

/-- `ForceHbaIdle`. -/
def forceHbaIdle (s : State) : Exec State := do
  kassert (s.enabled = true)
  forPresent (fun i s ↦ do
    let (cmd, s) ← readPort ctl i Registers.cmd s
    if cmd &&& combinedMask = 0 then return s else forceIdle ctl i s) s

/-! ### The ports -/

/-- `InitPorts`. -/
def initPorts (s : State) : State :=
  let s := access ctl s
  let piVal := s.hba.pi
  (List.range 32).foldl (fun s i ↦
    if piVal.getLsbD i then setPort i (fun p ↦ { p with mapped := true, present := true }) s
    else s) s

/-- The driver as `InitMemory` sees it. -/
def State.driver (s : State) : AhciDriver where
  enabled := s.enabled
  ports i := {
    registers :=
      if (s.ports i).mapped then
        some ⟨(s.hba.ports i).clistb, (s.hba.ports i).fisb, (s.hba.ports i).sact,
          (s.hba.ports i).ci⟩
      else none
    present := (s.ports i).present }
  commandLists _ := none
  commandTables _ := none

/-- `InitMemory`.  It writes `clistb` and reads no register, so that what the controller does
meanwhile may as well be done before. -/
def initMemory (s : State) : Exec State := do
  let s := access ctl s
  let m ← s.driver.initMemory s.fl
  let clistb i := (m.driver.ports i).registers.elim (s.hba.ports i).clistb PortRegisters.clistb
  return { s with
    hba := { s.hba with ports := fun i ↦ { s.hba.ports i with clistb := clistb i } }
    fl := m.fl
    printed := m.printed }

/-- `cmd = f(cmd)`, which is a read and a write. -/
def modifyCmd (i : ℕ) (f : BitVec 32 → BitVec 32) (s : State) : Exec State := do
  let (cmd, s) ← readPort ctl i Registers.cmd s
  writePort ctl i (fun r ↦ { r with cmd := f cmd }) s

/-- `EnableFRE`. -/
def enableFRE (i : ℕ) (s : State) : Exec State := do
  let s ← modifyCmd ctl i (fun cmd ↦ cmd ||| cmdFre) s
  return setPort i (fun p ↦ { p with fre := true }) s

/-- `EnablePortsFRE`. -/
def enablePortsFRE (s : State) : Exec State := forPresent (enableFRE ctl) s

/-- `ClearSERR`. -/
def clearSERR (i : ℕ) (s : State) : Exec State := writePort ctl i (fun r ↦ { r with serr := 1 }) s

/-- `ClearPortsSERR`. -/
def clearPortsSERR (s : State) : Exec State := do
  kassert (s.enabled = true)
  forPresent (clearSERR ctl) s

/-- A test of `ssts` for one value of the field `IPM`.  As in the source, the shift is of the
mask. -/
def ipmIs (i : ℕ) (v : BitVec 32) (s : State) : Exec (Bool × State) := do
  let (ssts, s) ← readPort ctl i Registers.ssts s
  return (decide (ssts &&& sataStatusIpm >>> 8 = v), s)

/-- `ipmTest`. -/
def ipmTest (i : ℕ) (s : State) : Exec (Bool × State) := do
  let (found, s) ← ipmIs ctl i 2 s
  if found then return (true, s)
  let (found, s) ← ipmIs ctl i 6 s
  if found then return (true, s)
  ipmIs ctl i 8 s

/-- `HasDevice`.  The registers are read anew for every test. -/
def hasDevice (i : ℕ) (s : State) : Exec (Bool × State) := do
  let (tfd, s) ← readPort ctl i Registers.tfd s
  if tfd &&& tfdStsStatusBsy ≠ 0 then return (false, s)
  let (tfd, s) ← readPort ctl i Registers.tfd s
  if tfd &&& tfdStsStatusDrq ≠ 0 then return (false, s)
  let (ipmTest, s) ← ipmTest ctl i s
  let (ssts, s) ← readPort ctl i Registers.ssts s
  return (decide (ssts &&& sataStatusDet = 0x03) || ipmTest, s)

/-- What `SetPortDevices` does for a port. -/
def setPortDevice (i : ℕ) (s : State) : Exec State := do
  let (found, s) ← hasDevice ctl i s
  if found then return setPort i (fun p ↦ { p with devicePresent := true }) s else return s

/-- `SetPortDevices`. -/
def setPortDevices (s : State) : Exec State := do
  kassert (s.enabled = true)
  forPresent (setPortDevice ctl) s

/-! ### Interrupts and engines -/

/-- `ENABLE_ALL_INTS`. -/
def enableAllInts : BitVec 32 := 0xFFF000FF

/-- `ClearPortsInterruptStatus`. -/
def clearPortsInterruptStatus (s : State) : Exec State := do
  kassert (s.enabled = true)
  forPresent (fun i s ↦ writePort ctl i (fun r ↦ { r with is := enableAllInts }) s) s

/-- `ClearHBAInterruptStatus`. -/
def clearHBAInterruptStatus (s : State) : Exec State := do
  kassert (s.enabled = true)
  let s := access ctl s
  return { s with hba := { s.hba with is := 1 } }

/-- `AhciPort::EnableInterrupts`. -/
def enablePortInterrupts (i : ℕ) (s : State) : Exec State := do
  let s ← writePort ctl i (fun r ↦ { r with ie := enableAllInts &&& 0xFFFF }) s
  let (ie, s) ← readPort ctl i Registers.ie s
  kassert (ie &&& enableAllInts &&& 0xFFFF ≠ 0)
  return s

/-- `EnablePortsInterrupts`. -/
def enablePortsInterrupts (s : State) : Exec State := do
  kassert (s.enabled = true)
  forPresent (enablePortInterrupts ctl) s

/-- `EnableHBAInterrupts`. -/
def enableHBAInterrupts (s : State) : Exec State := do
  kassert (s.enabled = true)
  let (val, s) := ghc ctl s
  return setGhc ctl (val ||| 0b10) s

/-- `AhciDriver::EnableInterrupts`. -/
def enableInterrupts (s : State) : Exec State := do
  let s ← clearPortsInterruptStatus ctl s
  let s ← clearHBAInterruptStatus ctl s
  let s ← enablePortsInterrupts ctl s
  enableHBAInterrupts ctl s

/-- `EnableDMAEngine`. -/
def enableDMAEngine (i : ℕ) (s : State) : Exec State := do
  let (cmd, s) ← readPort ctl i Registers.cmd s
  let preconditions := cmd &&& cmdCr = 0 && (s.ports i).devicePresent && (s.ports i).fre
  if preconditions then
    let s ← modifyCmd ctl i (fun cmd ↦ cmd ||| cmdSt) s
    return setPort i (fun p ↦ { p with dmaRunning := true }) s
  else return setPort i (fun p ↦ { p with dmaRunning := false }) s

/-- `StartDMAEngines`. -/
def startDMAEngines (s : State) : Exec State := do
  kassert (s.enabled = true)
  forPresent (fun i s ↦ if (s.ports i).devicePresent then enableDMAEngine ctl i s else return s) s

/-- `Initialise`, up to `ResetController`. -/
def initReset (inl : BitVec 32 → BitVec 32) (rounds : ℕ) (s : State) : Exec State := do
  let s ← initPresent inl s
  let s ← initAbar inl s
  let s ← initMMIOBase inl s
  let s ← enable ctl rounds s
  resetController ctl rounds s

/-- `Initialise`, up to `InitDisks`. -/
def initialise (inl : BitVec 32 → BitVec 32) (rounds : ℕ) (s : State) : Exec State := do
  let s ← initReset ctl inl rounds s
  let (idle, s) ← hbaIdle ctl s
  let s ← if idle then pure s else forceHbaIdle ctl s
  let s := initPorts ctl s
  let s ← initMemory ctl s
  let s ← enablePortsFRE ctl s
  let s ← clearPortsSERR ctl s
  let s ← setPortDevices ctl s
  let s ← enableInterrupts ctl s
  startDMAEngines ctl s

end Chisaka.Ahci.Initialise
