import Chisaka.Lib.Machine
import Chisaka.Drivers.Ahci.AhciDisk

/-!
# Writing to disks

`WriteSector` leaves a command in memory: a header in a slot of the command list, which points to a
table with a frame and an entry for the buffer.  The controller finds it there (`serve`), and takes
the sector, the buffer and the direction from it, at any time after the command was issued.  Several
ports may have commands in flight, and buffers change in the meantime.

The lists and the tables are objects apart from the bytes of the memory.  So they must not overlap
(`Separate`), and whoever reads or writes one of their bytes (`Occupied`) does what is not modelled
here: a client that writes there, or a transfer from there, faults.  The controller does not see the
low bits of an address that it takes from a register or a header (`aligned`).

`disksSpec` is what the driver is for: each port has a disk, a write is pending until it is served,
and then its sector holds the buffer.  `disks_refine` says that driver and controller together do
this, in any order of their steps, as long as the callers keep to a contract (`WriteReady`): above
all, a table is not used again while its command is in flight, and the callers of a port wait for
each other.  `WriteSector` waits until the slot is clear, which it is once the sector is written.
-/

set_option autoImplicit false

namespace Chisaka.Ahci

open Bytes

/-! ## The controller -/

/-- The contents of a sector. -/
abbrev SectorBytes := Fin 512 → UInt8

/-- The 512 bytes at an address. -/
def readBuffer (mem : Memory) (address : ℕ) : SectorBytes := fun i ↦ mem (address + i)

/-- **What the controller accepts as a write**: a command frame of five dwords for one sector, a
header that says write, and one entry for 512 bytes. -/
structure Accepts (h : CommandHeader) (t : CommandTable) : Prop where
  /-- The type of the frame. -/
  type : (H2dRegisterFis.ofBytes t.cfis).type = 0x27
  /-- It is a command. -/
  isC : (H2dRegisterFis.ofBytes t.cfis).isC = true
  /-- It is a write. -/
  command : (H2dRegisterFis.ofBytes t.cfis).commandReg = H2dRegisterFis.writeDmaExtCode
  /-- The address is that of a sector. -/
  device : (H2dRegisterFis.ofBytes t.cfis).deviceReg.getLsbD 6 = true
  /-- It is about one sector. -/
  count : (H2dRegisterFis.ofBytes t.cfis).sectorCountReg = 1
  /-- The length of the frame. -/
  cfl : h.cfl = 5
  /-- The direction bit. -/
  direction : h.pWACfl.getLsbD 6 = true
  /-- There is one entry, -/
  prdtl : h.prdtl = 1
  /-- for 512 bytes. -/
  bytes : (t.prdt 0).dataByteCount = 511

instance (h : CommandHeader) (t : CommandTable) : Decidable (Accepts h t) :=
  decidable_of_iff
    ((H2dRegisterFis.ofBytes t.cfis).type = 0x27 ∧ (H2dRegisterFis.ofBytes t.cfis).isC = true ∧
      (H2dRegisterFis.ofBytes t.cfis).commandReg = H2dRegisterFis.writeDmaExtCode ∧
      (H2dRegisterFis.ofBytes t.cfis).deviceReg.getLsbD 6 = true ∧
      (H2dRegisterFis.ofBytes t.cfis).sectorCountReg = 1 ∧ h.cfl = 5 ∧
      h.pWACfl.getLsbD 6 = true ∧ h.prdtl = 1 ∧ (t.prdt 0).dataByteCount = 511)
    ⟨fun ⟨h1, h2, h3, h4, h5, h6, h7, h8, h9⟩ ↦ ⟨h1, h2, h3, h4, h5, h6, h7, h8, h9⟩,
      fun ⟨h1, h2, h3, h4, h5, h6, h7, h8, h9⟩ ↦ ⟨h1, h2, h3, h4, h5, h6, h7, h8, h9⟩⟩

/-- The size of a `CommandList`. -/
def commandListBytes : ℕ := 1024

namespace AhciDriver

/-- A byte of a command list or a command table. -/
def Occupied (d : AhciDriver) (address : ℕ) : Prop :=
  (∃ k < commandListBytes, k ≤ address ∧ (d.commandLists (address - k)).isSome = true) ∨
    ∃ k < commandTableBytes, k ≤ address ∧ (d.commandTables (address - k)).isSome = true

instance (d : AhciDriver) (address : ℕ) : Decidable (d.Occupied address) :=
  inferInstanceAs (Decidable (_ ∨ _))

/-- None of the bytes of a buffer belongs to a list or a table. -/
def Clear (d : AhciDriver) (ibuffer : ℕ) : Prop := ∀ i : Fin 512, ¬d.Occupied (ibuffer + i)

instance (d : AhciDriver) (ibuffer : ℕ) : Decidable (d.Clear ibuffer) :=
  inferInstanceAs (Decidable (∀ i : Fin 512, ¬d.Occupied (ibuffer + i)))

/-- **No two of the command lists and command tables overlap.** -/
structure Separate (d : AhciDriver) : Prop where
  /-- Two lists do not. -/
  lists : ∀ p q, (d.commandLists p).isSome → (d.commandLists q).isSome → p < q →
    p + commandListBytes ≤ q
  /-- Two tables do not. -/
  tables : ∀ p q, (d.commandTables p).isSome → (d.commandTables q).isSome → p < q →
    p + commandTableBytes ≤ q
  /-- Nor do a list and a table. -/
  apart : ∀ p q, (d.commandLists p).isSome → (d.commandTables q).isSome →
    p + commandListBytes ≤ q ∨ q + commandTableBytes ≤ p

/-- Which bytes are occupied depends on where the objects are, not on what they hold. -/
theorem occupied_congr {d d' : AhciDriver} {address : ℕ}
    (hl : ∀ p, (d'.commandLists p).isSome = (d.commandLists p).isSome)
    (ht : ∀ p, (d'.commandTables p).isSome = (d.commandTables p).isSome) :
    d'.Occupied address ↔ d.Occupied address := by
  simp only [Occupied, hl, ht]

end AhciDriver

/-- What the controller takes from an address whose bits below `k` are reserved. -/
def aligned (k address : ℕ) : ℕ := address / k * k

theorem aligned_eq {k address : ℕ} (h : address % k = 0) : aligned k address = address :=
  Nat.div_mul_cancel (Nat.dvd_of_mod_eq_zero h)

/-- `CommandSlotSet`. -/
def AhciPort.commandSlotSet (p : AhciPort) (slot : ℕ) : Exec Bool := do
  kassert (slot < 32)
  let r ← p.regs
  return r.ci.getLsbD slot

/-- The driver, the memory with the buffers, and the disks. -/
structure DiskSystem where
  /-- The driver. -/
  driver : AhciDriver
  /-- The memory. -/
  mem : Memory
  /-- The disk of each port. -/
  disks : ℕ → BitVec 48 → SectorBytes

/-- What is done to the disks, by whom. -/
inductive DiskCall
  /-- `WriteSector(port, sector, ibuffer, cmdtable)`, until it waits. -/
  | writeSector (port : ℕ) (sector ibuffer cmdtable : BitVec 64)
  /-- One look at the slot while it waits. -/
  | commandSlotSet (port slot : ℕ)
  /-- The controller, with the command in a slot. -/
  | serve (port slot : ℕ)
  /-- A client writes a byte. -/
  | store (address : ℕ) (value : UInt8)

namespace DiskSystem

/-- **The controller executes a command.** -/
def serve (port slot : ℕ) (s : DiskSystem) : Exec DiskSystem := do
  let p ← s.driver.port port
  let r ← p.regs
  let l ← deref s.driver.commandLists (aligned 1024 r.clistb.toNat)
  let h := l.headers slot
  let t ← deref s.driver.commandTables (aligned 128 h.commandTableBase.toNat)
  Exec.check (Accepts h t)
  let sector := (H2dRegisterFis.ofBytes t.cfis).lba
  let buffer := aligned 2 (t.prdt 0).dataBaseAddress.toNat
  -- what a list or a table holds is not in the bytes
  Exec.check (s.driver.Clear buffer)
  let data := readBuffer s.mem buffer
  return { s with
    driver := s.driver.setPort port
      { p with registers := some { r with ci := r.ci &&& ~~~BitVec.twoPow 32 slot } }
    disks := Function.update s.disks port (Function.update (s.disks port) sector data) }

/-- A call, its result, and the state it leaves. -/
def step (s : DiskSystem) : DiskCall → Exec (ℕ × DiskSystem)
  | .writeSector port sector ibuffer cmdtable => do
    let (slot, d) ← s.driver.issueSector (.createWrite sector) port ibuffer cmdtable
    return (slot, { s with driver := d })
  | .commandSlotSet port slot => do
    let p ← s.driver.port port
    let set ← p.commandSlotSet slot
    return (set.toNat, s)
  | .serve port slot => do
    let s ← s.serve port slot
    return (0, s)
  | .store address value => do
    Exec.check (¬s.driver.Occupied address)
    return (0, { s with mem := Function.update s.mem address value })

/-- A command is in flight, and this is its header. -/
def InFlight (s : DiskSystem) (port slot : ℕ) (h : CommandHeader) : Prop :=
  ∃ r l, (s.driver.ports port).registers = some r ∧ r.ci.getLsbD slot = true ∧
    s.driver.commandLists r.clistb.toNat = some l ∧ l.headers slot = h

/-- **The contract of `WriteSector`.** -/
structure WriteReady (s : DiskSystem) (port : ℕ) (sector ibuffer cmdtable : BitVec 64) : Prop where
  /-- The callers of a port wait for each other, so that its `ci` is clear. -/
  idle : ∃ r, (s.driver.ports port).registers = some r ∧ r.ci = 0
  /-- A frame can name the sector. -/
  sector_lt : sector < 2 ^ 48
  /-- The address of the buffer is even, -/
  even : ibuffer &&& 1#64 = 0
  /-- the buffer ends within memory, -/
  fits : ibuffer.toNat + 512 ≤ 2 ^ 64
  /-- and it is apart from the lists and the tables. -/
  clear : s.driver.Clear ibuffer.toNat
  /-- There is a table, -/
  table : cmdtable ≠ 0 ∧ (s.driver.commandTables cmdtable.toNat).isSome
  /-- where the controller can find it, -/
  aligned : cmdtable.toNat % 128 = 0
  /-- which is not that of a command in flight. -/
  unused : ∀ port slot h, s.InFlight port slot h → h.commandTableBase ≠ cmdtable

/-- The contract of the callers.  Clients write to no list and no table. -/
def Enabled (s : DiskSystem) : DiskCall → Prop
  | .writeSector port sector ibuffer cmdtable => s.WriteReady port sector ibuffer cmdtable
  | .commandSlotSet port slot => (s.driver.ports port).registers.isSome ∧ slot < 32
  | .serve port slot => ∃ h, s.InFlight port slot h
  | .store address _ => ¬s.driver.Occupied address

end DiskSystem

/-- The disks, from a driver whose ports are set up and idle, with a command list each, and whose
objects are apart. -/
def diskMachine : Machine DiskSystem DiskCall ℕ where
  init s := s.driver.Separate ∧ (∀ port r, (s.driver.ports port).registers = some r →
      PortReady s.driver port r ∧ r.clistb.toNat % 1024 = 0 ∧ r.sact = 0 ∧ r.ci = 0) ∧
    ∀ port port' r r', (s.driver.ports port).registers = some r →
      (s.driver.ports port').registers = some r' → port ≠ port' → r.clistb ≠ r'.clistb
  enabled := DiskSystem.Enabled
  step := DiskSystem.step

/-! ## What the driver is for -/

/-- A write that was asked for. -/
structure Write where
  /-- The sector. -/
  sector : BitVec 48
  /-- The buffer. -/
  ibuffer : ℕ

/-- Disks, and the writes in the slots of each port. -/
structure Disks where
  /-- The memory. -/
  mem : Memory
  /-- The disk of each port. -/
  disks : ℕ → BitVec 48 → SectorBytes
  /-- The writes. -/
  pending : ℕ → ℕ → Option Write

namespace Disks

/-- A write comes into a slot, or leaves it. -/
def setPending (a : Disks) (port slot : ℕ) (w : Option Write) : Disks :=
  let slots := Function.update (a.pending port) slot w
  { a with pending := Function.update a.pending port slots }

/-- The sector gets what the buffer holds. -/
def perform (a : Disks) (port : ℕ) (w : Write) : Disks :=
  let disk := Function.update (a.disks port) w.sector (readBuffer a.mem w.ibuffer)
  { a with disks := Function.update a.disks port disk }

variable {a : Disks} {port slot : ℕ} {w : Option Write}

@[simp] theorem mem_setPending : (a.setPending port slot w).mem = a.mem := rfl

@[simp] theorem disks_setPending : (a.setPending port slot w).disks = a.disks := rfl

@[simp] theorem pending_setPending_self (a : Disks) (port slot : ℕ) (w : Option Write) :
    (a.setPending port slot w).pending port slot = w := by
  simp [setPending]

theorem pending_setPending_of_ne {port' slot' : ℕ} (h : port' ≠ port ∨ slot' ≠ slot) :
    (a.setPending port slot w).pending port' slot' = a.pending port' slot' := by
  show Function.update a.pending port (Function.update (a.pending port) slot w) port' slot' = _
  by_cases hp : port' = port
  · subst hp
    rw [Function.update_self, Function.update_of_ne (h.resolve_left (not_not_intro rfl))]
  · rw [Function.update_of_ne hp]

end Disks

/-- **Writes are served one by one**, each in its own sector, with what its buffer holds then. -/
def disksSpec : Spec Disks DiskCall ℕ where
  init a := ∀ port slot, a.pending port slot = none
  step a k r a' := match k with
    | .writeSector port sector ibuffer _ => a.pending port r = none ∧
      a' = a.setPending port r (some ⟨sector.setWidth 48, ibuffer.toNat⟩)
    | .commandSlotSet port slot => r = (a.pending port slot).isSome.toNat ∧ a' = a
    | .serve port slot => ∃ w, a.pending port slot = some w ∧
      a' = (a.perform port w).setPending port slot none
    | .store address value => a' = { a with mem := Function.update a.mem address value }

/-! ## The refinement -/

variable {d d' : AhciDriver} {s s' : DiskSystem} {a : Disks} {port slot list : ℕ}
  {sector ibuffer cmdtable : BitVec 64} {r : PortRegisters} {h : CommandHeader} {t : CommandTable}
  {w : Write}

/-- The command that carries a write. -/
structure CarriesWrite (h : CommandHeader) (t : CommandTable) (w : Write) : Prop where
  /-- It is accepted. -/
  accepts : Accepts h t
  /-- It is for the sector, -/
  sector : (H2dRegisterFis.ofBytes t.cfis).lba = w.sector
  /-- and has the buffer, -/
  ibuffer : (t.prdt 0).dataBaseAddress.toNat = w.ibuffer
  /-- whose address is even. -/
  even : w.ibuffer % 2 = 0
  /-- The table is not null, -/
  table_ne : h.commandTableBase.toNat ≠ 0
  /-- and the controller can find it. -/
  aligned : h.commandTableBase.toNat % 128 = 0

/-- The table that `WriteSector` fills. -/
def CommandTable.filled (t : CommandTable) (fis : H2dRegisterFis) (e : PrdtEntry) : CommandTable :=
  ⟨(t.setCommandFis fis).cfis, Function.update t.prdt 0 e⟩

/-- It carries the write, with the header that is made for it. -/
theorem carriesWrite_filled (t : CommandTable) (sector : BitVec 64) {e : PrdtEntry}
    (hbuf : e.dataBaseAddress = ibuffer) (hbytes : e.dataByteCount = 511)
    (hb : ibuffer &&& 1#64 = 0) (hne : cmdtable ≠ 0) (haligned : cmdtable.toNat % 128 = 0) :
    CarriesWrite (sectorHeader cmdtable) (t.filled (.createWrite sector) e)
      ⟨sector.setWidth 48, ibuffer.toNat⟩ := by
  have hfis : H2dRegisterFis.ofBytes (t.filled (.createWrite sector) e).cfis =
      .createWrite sector := t.ofBytes_setCommandFis _
  have hentry : (t.filled (.createWrite sector) e).prdt 0 = e :=
    show Function.update t.prdt 0 e 0 = e from Function.update_self ..
  have hbase : (sectorHeader cmdtable).commandTableBase = cmdtable := Bits.halves_eq cmdtable
  refine ⟨⟨?_, ?_, ?_, ?_, ?_, cfl_sectorHeader cmdtable, direction_sectorHeader cmdtable, rfl, ?_⟩,
    ?_, ?_, ?_, ?_, ?_⟩
  · rw [hfis]
    rfl
  · rw [hfis]
    exact H2dRegisterFis.isC_createSector _ _
  · rw [hfis]
    rfl
  · rw [hfis]
    show (0x40#8).getLsbD 6 = true
    decide
  · rw [hfis]
    rfl
  · rw [hentry, hbytes]
  · rw [hfis]
    exact H2dRegisterFis.lba_createSector _ sector
  · rw [hentry, hbuf]
  · have hbit := congrArg BitVec.toNat hb
    rw [BitVec.toNat_and, show (1#64).toNat = 2 ^ 1 - 1 from rfl,
      Nat.and_two_pow_sub_one_eq_mod] at hbit
    exact hbit
  · rw [hbase]
    exact fun h0 ↦ hne (BitVec.eq_of_toNat_eq h0)
  · rw [hbase]
    exact haligned

/-- **Which driver `WriteSector` leaves when it waits.** -/
theorem issueSector_state (fis : H2dRegisterFis) (hp : PortReady d port r) (hfree : r.Free slot)
    (hleast : ∀ j < slot, ¬r.Free j) (hb : ibuffer &&& 1#64 = 0) (hne : cmdtable ≠ 0)
    (ht : d.commandTables cmdtable.toNat = some t) :
    ∃ l e d', d.commandLists r.clistb.toNat = some l ∧ e.dataBaseAddress = ibuffer ∧
      e.dataByteCount = 511 ∧ d.issueSector fis port ibuffer cmdtable = .ok (slot, d') ∧
      d'.ports = Function.update d.ports port { d.ports port with
        registers := some { r with ci := r.ci ||| BitVec.twoPow 32 slot } } ∧
      d'.commandLists = Function.update d.commandLists r.clistb.toNat
        (some ⟨Function.update l.headers slot (sectorHeader cmdtable)⟩) ∧
      d'.commandTables = Function.update d.commandTables cmdtable.toNat
        (some (t.filled fis e)) := by
  obtain ⟨e, he, hbuf, hbytes⟩ := PrdtEntry.new_eq hb
  obtain ⟨l, hl⟩ := Option.isSome_iff_exists.mp hp.list_isSome
  have htable : cmdtable.toNat ≠ 0 := fun h0 ↦ hne (BitVec.eq_of_toNat_eq h0)
  have hissue := AhciPort.issueCommand_of_lt hfree.1 hp.registers
  refine ⟨l, e, { d with
    ports := Function.update d.ports port { d.ports port with
      registers := some { r with ci := r.ci ||| BitVec.twoPow 32 slot } }
    commandLists := Function.update d.commandLists r.clistb.toNat
      (some ⟨Function.update l.headers slot (sectorHeader cmdtable)⟩)
    commandTables := Function.update d.commandTables cmdtable.toNat (some (t.filled fis e)) },
    hl, hbuf, hbytes, ?_, rfl, rfl, rfl⟩
  rw [AhciDriver.issueSector, deref_of_some htable ht]
  simp only [Exec.ok_bind, he, CommandTable.setPrdtEntry_zero, CommandHeader.new_eq,
    AhciDriver.port_of_lt hp.port_lt, emptyCommandSlot_of_free hp.registers hfree hleast,
    hp.commandListPtr, deref_of_some hp.list_ne hl, Int.toNat_natCast, hissue]
  rw [if_neg (by omega)]
  rfl

namespace DiskSystem

/-- **The invariant of a run**, which is also the simulation relation. -/
structure Inv (s : DiskSystem) (a : Disks) : Prop where
  /-- The memory. -/
  mem : a.mem = s.mem
  /-- The disks. -/
  disks : a.disks = s.disks
  /-- The ports are set up. -/
  ready : ∀ port r, (s.driver.ports port).registers = some r →
    PortReady s.driver port r ∧ r.clistb.toNat % 1024 = 0 ∧ r.sact = 0
  /-- Each has a command list of its own. -/
  apart : ∀ port port' r r', (s.driver.ports port).registers = some r →
    (s.driver.ports port').registers = some r' → port ≠ port' → r.clistb ≠ r'.clistb
  /-- The slots in use are those of the pending writes. -/
  slots : ∀ port r, (s.driver.ports port).registers = some r → ∀ slot,
    r.ci.getLsbD slot = (a.pending port slot).isSome
  /-- A pending write has a command. -/
  command : ∀ port slot w, a.pending port slot = some w → ∃ h t, s.InFlight port slot h ∧
    s.driver.commandTables h.commandTableBase.toNat = some t ∧ CarriesWrite h t w
  /-- Its buffer is apart from the lists and the tables. -/
  clear : ∀ port slot w, a.pending port slot = some w → s.driver.Clear w.ibuffer

/-- Lists and tables may be filled, and of the registers, `ci` may change. -/
structure Keeps (d d' : AhciDriver) : Prop where
  /-- The registers that do not change. -/
  registers : ∀ port r', (d'.ports port).registers = some r' → ∃ r,
    (d.ports port).registers = some r ∧ r.clistb = r'.clistb ∧ r.sact = r'.sact
  /-- The lists are where they were, -/
  lists : ∀ p, (d'.commandLists p).isSome = (d.commandLists p).isSome
  /-- and so are the tables. -/
  tables : ∀ p, (d'.commandTables p).isSome = (d.commandTables p).isSome

/-- An object that is filled is where it was. -/
theorem isSome_update {α : Type} {objects : ℕ → Option α} {p : ℕ} (h : (objects p).isSome) (x : α)
    (q : ℕ) : (Function.update objects p (some x) q).isSome = (objects q).isSome := by
  by_cases hq : q = p
  · rw [hq, Function.update_self, h]
    rfl
  · rw [Function.update_of_ne hq]

/-- The registers when `ci` of one port has changed. -/
theorem registers_setCi {ports : ℕ → AhciPort} {ci : BitVec 32} {port' : ℕ} {r' : PortRegisters}
    (hr' : (Function.update ports port { ports port with
      registers := some { r with ci := ci } } port').registers = some r') :
    (port' = port ∧ r' = { r with ci := ci }) ∨
      (port' ≠ port ∧ (ports port').registers = some r') := by
  by_cases hp : port' = port
  · subst hp
    rw [Function.update_self] at hr'
    exact .inl ⟨rfl, (Option.some.inj hr').symm⟩
  · rw [Function.update_of_ne hp] at hr'
    exact .inr ⟨hp, hr'⟩

theorem keeps_setCi {ci : BitVec 32} (hr : (d.ports port).registers = some r)
    (hports : d'.ports = Function.update d.ports port { d.ports port with
      registers := some { r with ci := ci } })
    (hlists : ∀ p, (d'.commandLists p).isSome = (d.commandLists p).isSome)
    (htables : ∀ p, (d'.commandTables p).isSome = (d.commandTables p).isSome) : Keeps d d' where
  registers port' r' hr' := by
    rw [hports] at hr'
    rcases registers_setCi hr' with ⟨rfl, rfl⟩ | ⟨-, hr'⟩
    · exact ⟨r, hr, rfl, rfl⟩
    · exact ⟨r', hr', rfl, rfl⟩
  lists := hlists
  tables := htables

theorem Keeps.clear {b : ℕ} (hd : Keeps d d') (h : d.Clear b) : d'.Clear b := fun i ↦
  mt (AhciDriver.occupied_congr hd.lists hd.tables).mp (h i)

namespace Inv

theorem ready_of_keeps (hi : s.Inv a) (hd : Keeps s.driver d') :
    ∀ port r, (d'.ports port).registers = some r →
      PortReady d' port r ∧ r.clistb.toNat % 1024 = 0 ∧ r.sact = 0 := by
  intro port r' hr'
  obtain ⟨r, hr, hlist, hsact⟩ := hd.registers port r' hr'
  obtain ⟨hp, haligned, hzero⟩ := hi.ready port r hr
  refine ⟨⟨hp.port_lt, hr', hlist ▸ hp.list_ne, ?_⟩, hlist ▸ haligned, hsact ▸ hzero⟩
  rw [hd.lists, ← hlist]
  exact hp.list_isSome

theorem apart_of_keeps (hi : s.Inv a) (hd : Keeps s.driver d') :
    ∀ port port' r r', (d'.ports port).registers = some r →
      (d'.ports port').registers = some r' → port ≠ port' → r.clistb ≠ r'.clistb := by
  intro port port' r r' hr hr' hne
  obtain ⟨r₀, hr₀, hlist, -⟩ := hd.registers port r hr
  obtain ⟨r₁, hr₁, hlist', -⟩ := hd.registers port' r' hr'
  rw [← hlist, ← hlist']
  exact hi.apart port port' r₀ r₁ hr₀ hr₁ hne

/-- A clear slot has no pending write, and vice versa. -/
theorem pending_eq_none (hi : s.Inv a) (hr : (s.driver.ports port).registers = some r)
    (hslot : r.ci.getLsbD slot = false) : a.pending port slot = none := by
  rw [hi.slots port r hr slot] at hslot
  exact Option.not_isSome_iff_eq_none.mp (by rw [hslot]; exact Bool.false_ne_true)

/-- The slots are those of the pending writes when one bit of `ci` and one slot have changed. -/
theorem slots_setCi {ci : BitVec 32} {w : Option Write}
    (hi : s.Inv a) (hr : (s.driver.ports port).registers = some r)
    (hports : d'.ports = Function.update s.driver.ports port { s.driver.ports port with
      registers := some { r with ci := ci } })
    (hci : ∀ slot', ci.getLsbD slot' = if slot' = slot then w.isSome else r.ci.getLsbD slot') :
    ∀ port' r', (d'.ports port').registers = some r' → ∀ slot',
      r'.ci.getLsbD slot' = ((a.setPending port slot w).pending port' slot').isSome := by
  intro port' r' hr' slot'
  rw [hports] at hr'
  rcases registers_setCi hr' with ⟨rfl, rfl⟩ | ⟨hport, hr'⟩
  · by_cases hslot : slot' = slot
    · rw [hci, if_pos hslot, hslot, Disks.pending_setPending_self]
    · rw [hci, if_neg hslot, Disks.pending_setPending_of_ne (.inr hslot)]
      exact hi.slots port' r hr slot'
  · rw [Disks.pending_setPending_of_ne (.inl hport)]
    exact hi.slots port' r' hr' slot'

/-- The buffers are apart from the objects when one slot has changed. -/
theorem clear_setPending {w : Option Write} (hi : s.Inv a) (hd : Keeps s.driver d')
    (hw : ∀ w', w = some w' → d'.Clear w'.ibuffer) : ∀ port' slot' w',
      (a.setPending port slot w).pending port' slot' = some w' → d'.Clear w'.ibuffer := by
  intro port' slot' w' hw'
  by_cases hpp : port' = port ∧ slot' = slot
  · rw [hpp.1, hpp.2, Disks.pending_setPending_self] at hw'
    exact hw w' hw'
  · rw [Disks.pending_setPending_of_ne (by tauto)] at hw'
    exact hd.clear (hi.clear port' slot' w' hw')

/-! ### Steps -/

/-- **A write goes into the first slot.** -/
theorem writeSector (hi : s.Inv a) (hk : s.Enabled (.writeSector port sector ibuffer cmdtable)) :
    ∃ slot s', s.step (.writeSector port sector ibuffer cmdtable) = .ok (slot, s') ∧
      a.pending port slot = none ∧
      s'.Inv (a.setPending port slot (some ⟨sector.setWidth 48, ibuffer.toNat⟩)) := by
  obtain ⟨⟨r, hr, hci⟩, -, hb, -, hclear, ⟨hne, htable⟩, haligned, hother⟩ := hk
  obtain ⟨hp, -, hsact⟩ := hi.ready port r hr
  obtain ⟨t, ht⟩ := Option.isSome_iff_exists.mp htable
  have hfree : r.Free 0 := ⟨by decide, by rw [hsact]; rfl, by rw [hci]; rfl⟩
  have hidle : ∀ slot, a.pending port slot = none := fun slot ↦
    hi.pending_eq_none hr (by rw [hci]; exact BitVec.getLsbD_zero)
  obtain ⟨l, e, d', hl, hbuf, hbytes, hissue, hports, hlists, htables⟩ :=
    issueSector_state (.createWrite sector) hp hfree
      (fun j hj ↦ absurd hj (Nat.not_lt_zero j)) hb hne ht
  have hkeeps := keeps_setCi hr hports
    (fun p ↦ by rw [hlists, isSome_update hp.list_isSome])
    (fun p ↦ by rw [htables, isSome_update htable])
  have hcarries := carriesWrite_filled t sector hbuf hbytes hb hne haligned
  have hself : (d'.ports port).registers = some { r with ci := r.ci ||| BitVec.twoPow 32 0 } := by
    rw [hports, Function.update_self]
  -- the slot is set, and the write is pending
  have hslots := hi.slots_setCi (w := some ⟨sector.setWidth 48, ibuffer.toNat⟩) hr hports
    fun slot' ↦ Bits.getLsbD_or_twoPow (by decide)
  refine ⟨0, _, Exec.bind_eq_ok.mpr ⟨_, hissue, rfl⟩, hidle 0, hi.mem, hi.disks,
    hi.ready_of_keeps hkeeps, hi.apart_of_keeps hkeeps, hslots, fun port' slot' w' hw' ↦ ?_,
    hi.clear_setPending hkeeps fun w hw ↦ Option.some.inj hw ▸ hkeeps.clear hclear⟩
  · by_cases hpp : port' = port ∧ slot' = 0
    · obtain ⟨rfl, rfl⟩ := hpp
      rw [Disks.pending_setPending_self] at hw'
      cases hw'
      have hset : (r.ci ||| BitVec.twoPow 32 0).getLsbD 0 = true := by
        rw [Bits.getLsbD_or_twoPow (by decide), if_pos rfl]
      have hlist : d'.commandLists r.clistb.toNat =
          some ⟨Function.update l.headers 0 (sectorHeader cmdtable)⟩ := by
        rw [hlists, Function.update_self]
      have htab : d'.commandTables cmdtable.toNat = some (t.filled (.createWrite sector) e) := by
        rw [htables, Function.update_self]
      rw [← show (sectorHeader cmdtable).commandTableBase = cmdtable from Bits.halves_eq cmdtable]
        at htab
      have hheader : Function.update l.headers 0 (sectorHeader cmdtable) 0 =
          sectorHeader cmdtable := Function.update_self ..
      exact ⟨sectorHeader cmdtable, _, ⟨_, _, hself, hset, hlist, hheader⟩, htab, hcarries⟩
    · rw [Disks.pending_setPending_of_ne (by tauto)] at hw'
      have hpp' : port' ≠ port := fun h0 ↦ by
        rw [h0, hidle] at hw'
        cases hw'
      obtain ⟨h, t', hfl, ht', hc⟩ := hi.command port' slot' w' hw'
      obtain ⟨r₀, l₀, hr₀, hset, hl₀, hh⟩ := hfl
      have htab : h.commandTableBase ≠ cmdtable :=
        hother port' slot' h ⟨r₀, l₀, hr₀, hset, hl₀, hh⟩
      have hlist : r₀.clistb ≠ r.clistb := hi.apart port' port r₀ r hr₀ hr hpp'
      refine ⟨h, t', ⟨r₀, l₀, ?_, hset, ?_, hh⟩, ?_, hc⟩
      · show (d'.ports port').registers = some r₀
        rw [hports, Function.update_of_ne hpp']
        exact hr₀
      · show d'.commandLists r₀.clistb.toNat = some l₀
        rw [hlists, Function.update_of_ne fun h0 ↦ hlist (BitVec.eq_of_toNat_eq h0)]
        exact hl₀
      · show d'.commandTables h.commandTableBase.toNat = some t'
        rw [htables, Function.update_of_ne fun h0 ↦ htab (BitVec.eq_of_toNat_eq h0)]
        exact ht'

/-- **A command in flight is served**, and its slot is clear again. -/
theorem serve (hi : s.Inv a) (hk : s.Enabled (.serve port slot)) :
    ∃ w s', a.pending port slot = some w ∧ s.step (.serve port slot) = .ok (0, s') ∧
      s'.Inv ((a.perform port w).setPending port slot none) := by
  obtain ⟨h, r, l, hr, hset, hl, hh⟩ := hk
  obtain ⟨hp, hlist, -⟩ := hi.ready port r hr
  obtain ⟨w, hw⟩ : ∃ w, a.pending port slot = some w :=
    Option.isSome_iff_exists.mp ((hi.slots port r hr slot).symm.trans hset)
  obtain ⟨h', t, ⟨r', l', hr', -, hl', hh'⟩, ht, hc⟩ := hi.command port slot w hw
  obtain rfl : r = r' := Option.some.inj (hr.symm.trans hr')
  obtain rfl : l = l' := Option.some.inj (hl.symm.trans hl')
  obtain rfl : h = h' := hh.symm.trans hh'
  subst hh
  set p : AhciPort := { s.driver.ports port with
    registers := some { r with ci := r.ci &&& ~~~BitVec.twoPow 32 slot } } with hpdef
  set d' := s.driver.setPort port p with hd'
  have hports : d'.ports = Function.update s.driver.ports port p := rfl
  have hserve : s.serve port slot = .ok { s with
      driver := d'
      disks := Function.update s.disks port (Function.update (s.disks port) w.sector
        (readBuffer s.mem w.ibuffer)) } := by
    rw [DiskSystem.serve, AhciDriver.port_of_lt hp.port_lt]
    simp only [Exec.ok_bind, AhciPort.regs, hr, Option.elim_some, aligned_eq hlist,
      deref_of_some hp.list_ne hl, aligned_eq hc.aligned, deref_of_some hc.table_ne ht,
      Exec.check_of hc.accepts, hc.sector, hc.ibuffer, aligned_eq hc.even,
      Exec.check_of (hi.clear port slot w hw)]
    rfl
  have hkeeps := keeps_setCi hr hports (fun _ ↦ rfl) fun _ ↦ rfl
  have hslots := hi.slots_setCi (w := none) hr hports
    fun slot' ↦ Bits.getLsbD_and_not_twoPow
  refine ⟨w, _, hw, Exec.bind_eq_ok.mpr ⟨_, hserve, rfl⟩, hi.mem, ?_, hi.ready_of_keeps hkeeps,
    hi.apart_of_keeps hkeeps, hslots, fun port' slot' w' hw' ↦ ?_,
    hi.clear_setPending hkeeps fun w' h0 ↦ absurd h0.symm (Option.some_ne_none w')⟩
  · show Function.update a.disks port _ = _
    rw [hi.disks, hi.mem]
  · -- the other commands are still there
    by_cases hpp : port' = port ∧ slot' = slot
    · rw [hpp.1, hpp.2, Disks.pending_setPending_self] at hw'
      cases hw'
    rw [Disks.pending_setPending_of_ne (by tauto)] at hw'
    obtain ⟨h, t', ⟨r₀, l₀, hr₀, hset₀, hl₀, hh₀⟩, ht', hc'⟩ := hi.command port' slot' w' hw'
    by_cases hport : port' = port
    · subst hport
      obtain rfl : r = r₀ := Option.some.inj (hr.symm.trans hr₀)
      refine ⟨h, t', ⟨{ r with ci := r.ci &&& ~~~BitVec.twoPow 32 slot }, l₀, ?_, ?_, hl₀, hh₀⟩,
        ht', hc'⟩
      · show (d'.ports port').registers = _
        rw [hports, Function.update_self]
      · rw [Bits.getLsbD_and_not_twoPow, if_neg fun h0 ↦ hpp ⟨rfl, h0⟩]
        exact hset₀
    · refine ⟨h, t', ⟨r₀, l₀, ?_, hset₀, hl₀, hh₀⟩, ht', hc'⟩
      show (d'.ports port').registers = _
      rw [hports, Function.update_of_ne hport]
      exact hr₀

/-- The driver sees whether its write is still pending. -/
theorem commandSlotSet (hi : s.Inv a) (hk : s.Enabled (.commandSlotSet port slot)) :
    s.step (.commandSlotSet port slot) = .ok ((a.pending port slot).isSome.toNat, s) := by
  obtain ⟨hsome, hslot⟩ := hk
  obtain ⟨r, hr⟩ := Option.isSome_iff_exists.mp hsome
  obtain ⟨hp, -⟩ := hi.ready port r hr
  rw [step, AhciDriver.port_of_lt hp.port_lt, Exec.ok_bind, AhciPort.commandSlotSet, kassert,
    Exec.check_of hslot, Exec.ok_bind, AhciPort.regs, hr, ← hi.slots port r hr slot]
  rfl

/-- A client writes into a buffer. -/
theorem store (hi : s.Inv a) {address : ℕ} (hk : ¬s.driver.Occupied address) (value : UInt8) :
    s.step (.store address value) =
        .ok (0, { s with mem := Function.update s.mem address value }) ∧
      Inv { s with mem := Function.update s.mem address value }
        { a with mem := Function.update a.mem address value } := by
  refine ⟨?_, congrArg (fun mem ↦ Function.update mem address value) hi.mem, hi.disks, hi.ready,
    hi.apart, hi.slots, hi.command, hi.clear⟩
  rw [step, Exec.check_of hk]
  rfl

/-- Before the first call nothing is pending. -/
theorem of_init (hs : diskMachine.init s) : s.Inv ⟨s.mem, s.disks, fun _ _ ↦ none⟩ := by
  obtain ⟨-, hidle, hapart⟩ := hs
  refine ⟨rfl, rfl, fun port r hr ↦ ?_, hapart, fun port r hr slot ↦ ?_, fun port slot w hw ↦ ?_,
    fun port slot w hw ↦ ?_⟩
  · obtain ⟨hp, haligned, hsact, -⟩ := hidle port r hr
    exact ⟨hp, haligned, hsact⟩
  · rw [(hidle port r hr).2.2.2]
    exact BitVec.getLsbD_zero
  · cases hw
  · cases hw

end Inv

/-- **Driver and controller refine the disks.** -/
theorem simulates : diskMachine.Simulates disksSpec Inv where
  init _ hs := ⟨_, fun _ _ ↦ rfl, Inv.of_init hs⟩
  step := by
    intro s a k hi hk
    cases k with
    | writeSector port sector ibuffer cmdtable =>
      obtain ⟨slot, s', hs, hnone, hi'⟩ := hi.writeSector hk
      exact ⟨slot, s', _, hs, ⟨hnone, rfl⟩, hi'⟩
    | commandSlotSet port slot => exact ⟨_, s, a, hi.commandSlotSet hk, ⟨rfl, rfl⟩, hi⟩
    | serve port slot =>
      obtain ⟨w, s', hw, hs, hi'⟩ := hi.serve hk
      exact ⟨0, s', _, hs, ⟨w, hw, rfl⟩, hi'⟩
    | store address value =>
      obtain ⟨hs, hi'⟩ := hi.store hk value
      exact ⟨0, _, _, hs, rfl, hi'⟩

end DiskSystem

/-- One disk, with a port whose command list is at 0x1000, and a table at 0x2000. -/
def oneDiskSystem : DiskSystem where
  driver := { oneDisk with
    ports := fun port ↦ if port = 0 then ⟨some idleRegisters, true⟩ else {} }
  mem := fun _ ↦ 0
  disks := fun _ _ _ ↦ 0

/-- Where its list and its table are. -/
theorem isSome_oneDisk (p : ℕ) : ((oneDisk.commandLists p).isSome ↔ p = 0x1000) ∧
    ((oneDisk.commandTables p).isSome ↔ p = 0x2000) := by
  simp only [oneDisk]
  constructor <;> split <;> simp_all

/-- Behind them there is room for buffers. -/
theorem not_occupied_oneDisk {address : ℕ} (h : 0x3000 ≤ address) :
    ¬oneDiskSystem.driver.Occupied address := by
  rintro (⟨k, hk, -, hp⟩ | ⟨k, hk, -, hp⟩)
  · have hp' := (isSome_oneDisk _).1.mp hp
    rw [commandListBytes] at hk
    omega
  · have hp' := (isSome_oneDisk _).2.mp hp
    rw [commandTableBytes] at hk
    omega

theorem init_oneDiskSystem : diskMachine.init oneDiskSystem := by
  have hports : ∀ port r, (oneDiskSystem.driver.ports port).registers = some r →
      port = 0 ∧ r = idleRegisters := by
    intro port r hr
    by_cases h0 : port = 0
    · subst h0
      exact ⟨rfl, (Option.some.inj hr).symm⟩
    · have hnone : oneDiskSystem.driver.ports port = {} := if_neg h0
      rw [hnone] at hr
      cases hr
  refine ⟨⟨fun p q hp hq hlt ↦ ?_, fun p q hp hq hlt ↦ ?_, fun p q hp hq ↦ .inl ?_⟩,
    fun port r hr ↦ ?_, fun port port' r r' hr hr' hne ↦ ?_⟩
  · have hp' := (isSome_oneDisk p).1.mp hp
    have hq' := (isSome_oneDisk q).1.mp hq
    omega
  · have hp' := (isSome_oneDisk p).2.mp hp
    have hq' := (isSome_oneDisk q).2.mp hq
    omega
  · rw [(isSome_oneDisk p).1.mp hp, (isSome_oneDisk q).2.mp hq]
    decide
  · obtain ⟨rfl, rfl⟩ := hports port r hr
    exact ⟨⟨by decide, rfl, by decide, rfl⟩, rfl, rfl, rfl⟩
  · exact absurd ((hports port r hr).1.trans (hports port' r' hr').1.symm) hne

end Chisaka.Ahci
