import Mathlib.Data.BitVec
import Mathlib.Logic.Function.Basic
import Chisaka.Lib.Machine
import Chisaka.Types

/-!
# The interrupt controllers

Two 8259 controllers, of which one is a line of the other, are set up by four words each, that are
told apart by their order only.  From then on the same port holds the masks, and `PicController`
reads them back to change one of them.

`linesSpec` is what they are for, together: lines with masks, which interrupt in the order of their
priorities, and handlers nested in this order, each of which ends with `SignalEOI`.

Two functions do not do what their names say.  `GetIrr` and `GetIsr` choose a register and then read
the masks.  And `IrqToVector` adds the line to the offset, of which the controller takes a multiple
of eight.
-/

set_option autoImplicit false

namespace X8664.Interrupt

open Chisaka

/-! ## An 8259 -/

/-- What the next word at the second port is. -/
inductive Phase
  /-- `ICW2`. -/
  | icw2
  /-- `ICW3`. -/
  | icw3
  /-- `ICW4`. -/
  | icw4
  /-- The masks. -/
  | ready
  deriving DecidableEq

/-- **An 8259**. -/
structure Pic where
  /-- What it waits for. -/
  phase : Phase
  /-- Bit 0: a fourth word comes.  Bit 1: there is no other controller, and no third word. -/
  icw1 : BitVec 8
  /-- The five upper bits of the vectors. -/
  icw2 : BitVec 8
  /-- The lines of a master that have a slave, or the line that a slave is on. -/
  icw3 : BitVec 8
  /-- Bit 0: the processor takes a vector.  Bit 1: an interrupt ends when it begins. -/
  icw4 : BitVec 8
  /-- The masks. -/
  imr : BitVec 8
  /-- The requests. -/
  irr : BitVec 8
  /-- The interrupts in service. -/
  isr : BitVec 8
  /-- Which of the last two registers is read at the first port. -/
  readIsr : Bool

/-- The lowest bit that is set: of the lines, the one with the highest priority. -/
def lowest (x : BitVec 8) : Option ℕ := if x = 0 then none else some x.ctz.toNat

namespace Pic

/-- A word at the first port: `ICW1` if bit 4 is set, `OCW3` if bit 3 is, and otherwise `OCW2`, of
which only the end of the interrupt that is in service with the highest priority is of use here. -/
def command (c : Pic) (val : BitVec 8) : Pic :=
  if val.getLsbD 4 then
    let c := { c with phase := .icw2, icw1 := val, icw4 := 0 }
    { c with imr := 0, irr := 0, isr := 0, readIsr := false }
  else if val.getLsbD 3 then
    if val.getLsbD 1 then { c with readIsr := val.getLsbD 0 } else c
  else if val.extractLsb' 5 3 = 1 then
    match lowest c.isr with
    | none => c
    | some i => { c with isr := c.isr &&& ~~~BitVec.twoPow 8 i }
  else c

/-- A word at the second port. -/
def data (c : Pic) (val : BitVec 8) : Pic :=
  let last := if c.icw1.getLsbD 0 then Phase.icw4 else .ready
  match c.phase with
  | .icw2 => { c with icw2 := val, phase := if c.icw1.getLsbD 1 then last else .icw3 }
  | .icw3 => { c with icw3 := val, phase := last }
  | .icw4 => { c with icw4 := val, phase := .ready }
  | .ready => { c with imr := val }

/-- The first port is read. -/
def status (c : Pic) : BitVec 8 := if c.readIsr then c.isr else c.irr

/-- A device asks for an interrupt. -/
def raise (c : Pic) (i : ℕ) : Pic := { c with irr := c.irr ||| BitVec.twoPow 8 i }

/-- The line that it asks the processor for an interrupt of, if these lines ask for one.  One in
service holds up those of the same and of lower priority. -/
def request (c : Pic) (lines : BitVec 8) : Option ℕ := do
  let i ← lowest (lines &&& ~~~c.imr)
  if c.phase = .ready ∧ c.icw4.getLsbD 0 ∧ ∀ j ≤ i, c.isr.getLsbD j = false then some i else none

/-- The processor takes the interrupt. -/
def serve (c : Pic) (i : ℕ) : Pic :=
  { c with
    irr := c.irr &&& ~~~BitVec.twoPow 8 i
    isr := if c.icw4.getLsbD 1 then c.isr else c.isr ||| BitVec.twoPow 8 i }

/-- The vector of a line. -/
def vector (c : Pic) (i : ℕ) : BitVec 8 := c.icw2 &&& 0xF8#8 ||| BitVec.ofNat 8 i

end Pic

/-- The two controllers: the output of the slave is line 2 of the master. -/
structure Pics where
  /-- The master, at `MASTER_BASE_PORT`. -/
  master : Pic
  /-- The slave, at `SLAVE_BASE_PORT`. -/
  slave : Pic

/-- `MASTER_BASE_PORT`. -/
def masterBasePort : ℕ := 0x20

/-- `SLAVE_BASE_PORT`. -/
def slaveBasePort : ℕ := 0xa0

namespace Pics

/-- `outb`. -/
def outb (p : Pics) (port : ℕ) (val : BitVec 8) : Pics :=
  if port = 0x20 then { p with master := p.master.command val }
  else if port = 0x21 then { p with master := p.master.data val }
  else if port = 0xa0 then { p with slave := p.slave.command val }
  else if port = 0xa1 then { p with slave := p.slave.data val }
  else p

/-- `inb`. -/
def inb (p : Pics) (port : ℕ) : BitVec 8 :=
  if port = 0x20 then p.master.status
  else if port = 0x21 then p.master.imr
  else if port = 0xa0 then p.slave.status
  else if port = 0xa1 then p.slave.imr
  else 0xFF

/-- The device on a line asks for an interrupt. -/
def raise (p : Pics) (irq : ℕ) : Pics :=
  if irq < 8 then { p with master := p.master.raise irq }
  else { p with slave := p.slave.raise (irq - 8) }

/-- The lines of the master. -/
def lines (p : Pics) : BitVec 8 :=
  if (p.slave.request p.slave.irr).isSome then p.master.irr ||| BitVec.twoPow 8 2 else p.master.irr

/-- The processor takes an interrupt, if there is one: which line it is, and the vector that comes
from the controller that knows it. -/
def acknowledge (p : Pics) : Option (ℕ × BitVec 8 × Pics) := do
  let i ← p.master.request p.lines
  let master := p.master.serve i
  if p.master.icw3.getLsbD i then
    if p.slave.icw3.toNat = i then
      let j ← p.slave.request p.slave.irr
      some (8 + j, p.slave.vector j, ⟨master, p.slave.serve j⟩)
    else none
  else some (i, p.master.vector i, { p with master := master })

end Pics

/-! ## The driver -/

/-- `CachedICW`. -/
structure CachedICW where
  /-- `icw1`. -/
  icw1 : BitVec 16
  /-- `icw2`. -/
  icw2 : BitVec 16
  /-- `icw3`. -/
  icw3 : BitVec 16
  /-- `icw4`. -/
  icw4 : BitVec 16

/-- `PicController`. -/
structure PicController where
  /-- `m_masterIcws`. -/
  masterIcws : CachedICW
  /-- `m_slaveIcws`. -/
  slaveIcws : CachedICW
  /-- `m_masterOffset`. -/
  masterOffset : BitVec 16
  /-- `m_slaveOffset`. -/
  slaveOffset : BitVec 16

namespace PicController

/-- `FlushICWs`. -/
def flushICWs (c : PicController) (p : Pics) : Pics :=
  let p := p.outb masterBasePort (c.masterIcws.icw1.setWidth 8)
  let p := p.outb (masterBasePort + 1) (c.masterIcws.icw2.setWidth 8)
  let p := p.outb (masterBasePort + 1) (c.masterIcws.icw3.setWidth 8)
  let p := p.outb (masterBasePort + 1) (c.masterIcws.icw4.setWidth 8)
  let p := p.outb slaveBasePort (c.slaveIcws.icw1.setWidth 8)
  let p := p.outb (slaveBasePort + 1) (c.slaveIcws.icw2.setWidth 8)
  let p := p.outb (slaveBasePort + 1) (c.slaveIcws.icw3.setWidth 8)
  p.outb (slaveBasePort + 1) (c.slaveIcws.icw4.setWidth 8)

/-- `Initialise`. -/
def initialise (masterOffset slaveOffset : BitVec 16) (p : Pics) : PicController × Pics :=
  let c : PicController :=
    { masterIcws := ⟨0x11, masterOffset &&& 0xF8#16, 0x04, 0x01⟩
      slaveIcws := ⟨0x11, slaveOffset &&& 0xF8#16, 0x02, 0x01⟩
      masterOffset := masterOffset
      slaveOffset := slaveOffset }
  (c, c.flushICWs p)

/-- `ClearMasks`. -/
def clearMasks (p : Pics) : Pics :=
  let p := p.outb (masterBasePort + 1) 0
  p.outb (slaveBasePort + 1) 0

/-- `MaskAll`. -/
def maskAll (p : Pics) : Pics :=
  let p := p.outb (masterBasePort + 1) 0xFF
  p.outb (slaveBasePort + 1) 0xFF

/-- `PicController(masterOffset, slaveOffset)`. -/
def new (masterOffset slaveOffset : BitVec 16) (p : Pics) : PicController × Pics :=
  let (c, p) := initialise masterOffset slaveOffset p
  (c, clearMasks p)

/-- `PicController(vectorOffset)`. -/
def newLinear (vectorOffset : BitVec 16) (p : Pics) : PicController × Pics :=
  let slaveOffset : BitVec 8 := (vectorOffset + 8).setWidth 8
  new vectorOffset (slaveOffset.setWidth 16) p

/-- `Enable`. -/
def enable (p : Pics) : Pics := clearMasks p

/-- `Disable`. -/
def disable (p : Pics) : Pics := maskAll p

/-- `SignalEOI`. -/
def signalEOI (irq : BitVec 8) (p : Pics) : Pics :=
  if irq < 8 then p.outb masterBasePort 0x20
  else
    let p := p.outb slaveBasePort 0x20
    p.outb masterBasePort 0x20

/-- `IrqToVector`. -/
def irqToVector (c : PicController) (irq : BitVec 8) : Exec (BitVec 8) := do
  kassert (irq < 16)
  if irq < 8 then return (c.masterOffset + irq.setWidth 16).setWidth 8
  else return (c.slaveOffset + (irq.setWidth 16 - 8)).setWidth 8

/-- `Masksbm`. -/
def masksbm (p : Pics) : BitVec 16 :=
  let masterbm := p.inb (masterBasePort + 1)
  let slavebm := p.inb (slaveBasePort + 1)
  masterbm.setWidth 16 <<< 8 ||| slavebm.setWidth 16

/-- `MaskIrq`. -/
def maskIrq (irq : BitVec 8) (p : Pics) : Exec Pics := do
  kassert (irq < 15)
  if irq < 8 then
    let masks := p.inb (masterBasePort + 1)
    let masks := masks ||| (1#32 <<< irq.toNat).setWidth 8
    return p.outb (masterBasePort + 1) masks
  else
    let masks := p.inb (slaveBasePort + 1)
    let masks := masks ||| (1#32 <<< (irq - 8).toNat).setWidth 8
    return p.outb (slaveBasePort + 1) masks

/-- `SetIrq`. -/
def setIrq (irq : BitVec 8) (p : Pics) : Exec Pics := do
  kassert (irq < 15)
  if irq < 8 then
    let masks := p.inb (masterBasePort + 1)
    let masks := masks &&& (~~~(1#32 <<< irq.toNat)).setWidth 8
    return p.outb (masterBasePort + 1) masks
  else
    let masks := p.inb (slaveBasePort + 1)
    let masks := masks &&& (~~~(1#32 <<< (irq - 8).toNat)).setWidth 8
    return p.outb (slaveBasePort + 1) masks

/-- What `GetIrr` and `GetIsr` read, after a word at the first ports. -/
def readRegister (ocw3 : BitVec 8) (p : Pics) : BitVec 16 × Pics :=
  let p := p.outb masterBasePort ocw3
  let p := p.outb slaveBasePort ocw3
  let slave := p.inb (slaveBasePort + 1)
  let master := p.inb (masterBasePort + 1)
  (slave.setWidth 16 <<< 8 ||| master.setWidth 16, p)

/-- `GetIrr`. -/
def getIrr (p : Pics) : BitVec 16 × Pics := readRegister 0x0a p

/-- `GetIsr`. -/
def getIsr (p : Pics) : BitVec 16 × Pics := readRegister 0x0b p

end PicController

/-! ## What they are for -/

/-- What happens to the lines. -/
inductive PicCall
  /-- A device asks for an interrupt. -/
  | raise (irq : ℕ)
  /-- The processor takes one. -/
  | acknowledge
  /-- `SignalEOI`. -/
  | signalEOI (irq : BitVec 8)
  /-- `MaskIrq`. -/
  | maskIrq (irq : BitVec 8)
  /-- `SetIrq`. -/
  | setIrq (irq : BitVec 8)
  /-- `Enable`. -/
  | enable
  /-- `Disable`. -/
  | disable
  /-- `Masksbm`. -/
  | masksbm
  /-- `GetIrr`. -/
  | getIrr
  /-- `GetIsr`. -/
  | getIsr

/-- What comes back. -/
inductive PicAnswer
  /-- Nothing. -/
  | done
  /-- The vector of the interrupt that was taken, if there was one. -/
  | interrupt (vector : Option (BitVec 8))
  /-- Masks. -/
  | masks (bm : BitVec 16)
  deriving DecidableEq

/-- The controllers, the driver, and the handlers that run on the processor. -/
structure PicSystem where
  /-- The driver. -/
  controller : PicController
  /-- The controllers. -/
  pics : Pics
  /-- The lines whose handlers run, the innermost first. -/
  nest : List ℕ

namespace PicSystem

/-- A call, its answer, and the state it leaves. -/
def step (s : PicSystem) : PicCall → Exec (PicAnswer × PicSystem)
  | .raise irq => return (.done, { s with pics := s.pics.raise irq })
  | .acknowledge =>
    match s.pics.acknowledge with
    | none => return (.interrupt none, s)
    | some (irq, vector, p) =>
      return (.interrupt (some vector), { s with pics := p, nest := irq :: s.nest })
  | .signalEOI irq =>
    return (.done, { s with pics := PicController.signalEOI irq s.pics, nest := s.nest.tail })
  | .maskIrq irq => do
    let p ← PicController.maskIrq irq s.pics
    return (.done, { s with pics := p })
  | .setIrq irq => do
    let p ← PicController.setIrq irq s.pics
    return (.done, { s with pics := p })
  | .enable => return (.done, { s with pics := PicController.enable s.pics })
  | .disable => return (.done, { s with pics := PicController.disable s.pics })
  | .masksbm => return (.masks (PicController.masksbm s.pics), s)
  | .getIrr =>
    let (bm, p) := PicController.getIrr s.pics
    return (.masks bm, { s with pics := p })
  | .getIsr =>
    let (bm, p) := PicController.getIsr s.pics
    return (.masks bm, { s with pics := p })

/-- The contract: there is no device on line 2, line 15 cannot be masked, and a handler signals the
end of its own interrupt. -/
def Enabled (s : PicSystem) : PicCall → Prop
  | .raise irq => irq < 16 ∧ irq ≠ 2
  | .signalEOI irq => s.nest.head? = some irq.toNat
  | .maskIrq irq | .setIrq irq => irq < 15
  | _ => True

end PicSystem

/-- The system after `PicController(masterOffset, slaveOffset)`, whatever the controllers were
doing. -/
def picMachine (masterOffset slaveOffset : BitVec 16) : Machine PicSystem PicCall PicAnswer where
  init s := ∃ p, (s.controller, s.pics) = PicController.new masterOffset slaveOffset p ∧ s.nest = []
  enabled := PicSystem.Enabled
  step := PicSystem.step

/-- Sixteen lines. -/
structure Lines where
  /-- The lines that are masked. -/
  masked : ℕ → Bool
  /-- The lines with a request. -/
  pending : ℕ → Bool
  /-- The lines whose handlers run, the innermost first. -/
  nest : List ℕ

/-- The priority of a line among those of the master. -/
def level (irq : ℕ) : ℕ := if irq < 8 then irq else 2

/-- The order of all lines: those of the slave stand where line 2 is. -/
def rank (irq : ℕ) : ℕ := if irq < 8 then 8 * irq else 8 + irq

/-- A line may interrupt: neither it nor the line of its controller is masked, and what runs has a
lower priority. -/
structure Lines.Deliverable (a : Lines) (irq : ℕ) : Prop where
  /-- It is a line. -/
  lt : irq < 16
  /-- It asks for an interrupt. -/
  pending : a.pending irq = true
  /-- It is not masked. -/
  unmasked : a.masked irq = false
  /-- The slave is not masked. -/
  cascade : 8 ≤ irq → a.masked 2 = false
  /-- What runs has a lower priority. -/
  above : ∀ j ∈ a.nest, level irq < level j

/-- The interrupt with the highest priority. -/
def Lines.First (a : Lines) (irq : ℕ) : Prop :=
  a.Deliverable irq ∧ ∀ j, a.Deliverable j → rank irq ≤ rank j

open Function (update) in
/-- **Lines with masks and priorities**. -/
def linesSpec (vector : ℕ → BitVec 8) : Spec Lines PicCall PicAnswer where
  init a := a = ⟨fun _ ↦ false, fun _ ↦ false, []⟩
  step a k r a' := match k with
    | .raise irq => r = .done ∧ a' = { a with pending := update a.pending irq true }
    | .acknowledge =>
      (∃ irq, a.First irq ∧ r = .interrupt (some (vector irq)) ∧
        a' = { a with pending := update a.pending irq false, nest := irq :: a.nest }) ∨
      (∀ irq, ¬a.Deliverable irq) ∧ r = .interrupt none ∧ a' = a
    | .signalEOI _ => r = .done ∧ a' = { a with nest := a.nest.tail }
    | .maskIrq irq => r = .done ∧ a' = { a with masked := update a.masked irq.toNat true }
    | .setIrq irq => r = .done ∧ a' = { a with masked := update a.masked irq.toNat false }
    | .enable => r = .done ∧ a' = { a with masked := fun _ ↦ false }
    | .disable => r = .done ∧ a' = { a with masked := fun _ ↦ true }
    | .masksbm => ∃ bm, r = .masks bm ∧ a' = a ∧
      ∀ i < 8, bm.getLsbD (8 + i) = a.masked i ∧ bm.getLsbD i = a.masked (8 + i)
    | .getIrr | .getIsr => ∃ bm, r = .masks bm ∧ a' = a ∧ ∀ i < 16, bm.getLsbD i = a.masked i

/-- The vector of a line: the offset counts in eights. -/
def lineVector (masterOffset slaveOffset : BitVec 16) (irq : ℕ) : BitVec 8 :=
  if irq < 8 then BitVec.ofNat 8 (masterOffset.toNat / 8 * 8 + irq)
  else BitVec.ofNat 8 (slaveOffset.toNat / 8 * 8 + (irq - 8))

end X8664.Interrupt
