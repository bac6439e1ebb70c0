import Chisaka.Drivers.Ahci.CommandSlots
import Chisaka.Drivers.Ahci.SectorFrame
import Chisaka.Kheap.Slab.AllocatorRuns

/-!
# Disks

An `AhciDisk` is a port of the driver together with the number of its sectors, which has 32 bits.
`ReadPolled` and `WritePolled` pass a sector on to the driver, which takes 64 bits; but their own
parameter has 16, so that a sector number loses its upper half on the way.

A call issues a command only with a free slot, an even buffer and a table (`CanIssue`).  The table
is what the heap answers to `New<CommandTable>`, and after `Init` the heap has none
(`allocateObject_commandTable`).  `issues_iff` says which command a call issues, `carries_iff` that
it is the one for the sector exactly below `2 ^ 16`.

A disk can be addressed as a whole if commands can be issued and it has no more sectors than that,
and `TotalBytes`, which has 32 bits as well, is right for less than 4 GiB (`addresses_iff`).
-/

set_option autoImplicit false

namespace Chisaka.Ahci

/-! ## The class -/

namespace AhciDriver

/-- The loop of `WaitForPortInterrupt`.  `is` is what the register of the controller shows. -/
def waitInterruptBody (is : ℕ → BitVec 32) (port n : ℕ) : Exec (ℕ ⊕ Unit) :=
  if (is n).getLsbD port then return .inr () else return .inl (n + 1)

/-- `WaitForPortInterrupt`.  What it clears at its end are registers of the hardware, those of the
port through `m_registers`. -/
def waitForPortInterrupt (port : ℕ) (is : ℕ → BitVec 32) (rounds : ℕ) (d : AhciDriver) :
    Exec AhciDriver := do
  Loop.run (waitInterruptBody is port) rounds 0
  let p ← d.port port
  let _ ← p.regs
  return d

end AhciDriver

/-- `AhciDisk`. -/
structure AhciDisk where
  /-- `m_port`. -/
  port : BitVec 8
  /-- `m_totalSectors`. -/
  totalSectors : BitVec 32
  deriving DecidableEq

namespace AhciDisk

/-- `SECTOR_BYTES`. -/
def sectorBytes : BitVec 64 := 512

/-- `TotalBytes`: the product has 64 bits, the result 32. -/
def totalBytes (disk : AhciDisk) : BitVec 32 :=
  (disk.totalSectors.setWidth 64 * sectorBytes).setWidth 32

/-- What `ReadPolled` and `WritePolled` share, when the heap puts the table at `cmdtable`. -/
def polled (op : SectorOp) (disk : AhciDisk) (sector : BitVec 16) (buffer cmdtable : BitVec 64)
    (polls is : ℕ → BitVec 32) (rounds : ℕ) (d : AhciDriver) : Exec AhciDriver := do
  let d ← d.sectorWithNew op disk.port.toNat (sector.setWidth 64) buffer cmdtable polls rounds
  d.waitForPortInterrupt disk.port.toNat is rounds

/-- `ReadPolled`. -/
def readPolled := polled .read

/-- `WritePolled`. -/
def writePolled := polled .write

end AhciDisk

/-! ## What it should do -/

/-- A command table that was just made. -/
def newTable : CommandTable := ⟨fun _ ↦ 0, fun _ ↦ ⟨0, 0, 0, 0⟩⟩

variable {op : SectorOp} {disk : AhciDisk} {d : AhciDriver} {r : PortRegisters}
  {buffer cmdtable : BitVec 64}

/-- **A call issues a command with this frame**: the frame lies in the table that the header in the
slot points to.  What is left of the call then is waiting. -/
def Issues (op : SectorOp) (disk : AhciDisk) (d : AhciDriver) (r : PortRegisters)
    (buffer cmdtable : BitVec 64) (sector : BitVec 16) (fis : H2dRegisterFis) : Prop :=
  ∃ slot d' l t,
    (d.placeTable cmdtable (some newTable)).issueSector (op.fis (sector.setWidth 64))
      disk.port.toNat buffer cmdtable = .ok (slot, d') ∧
    (∀ polls is rounds, disk.polled op sector buffer cmdtable polls is rounds d = (do
      let d ← d'.waitSector disk.port.toNat slot polls rounds
      (d.placeTable cmdtable none).waitForPortInterrupt disk.port.toNat is rounds)) ∧
    d'.commandLists r.clistb.toNat = some l ∧
    d'.commandTables (l.headers slot).commandTableBase.toNat = some t ∧
    H2dRegisterFis.ofBytes t.cfis = fis

/-- Passing a sector number to the call issues a command for that sector. -/
def Carries (op : SectorOp) (disk : AhciDisk) (d : AhciDriver) (r : PortRegisters)
    (buffer cmdtable : BitVec 64) (s : BitVec 32) : Prop :=
  ∃ fis, Issues op disk d r buffer cmdtable (s.setWidth 16) fis ∧ fis.lba = s.setWidth 48

/-- **Every sector of a disk is reached**, and different ones by different commands. -/
structure Addresses (disk : AhciDisk) (d : AhciDriver) (r : PortRegisters)
    (buffer cmdtable : BitVec 64) : Prop where
  /-- A command carries the number of its sector. -/
  carries : ∀ op s, s < disk.totalSectors → Carries op disk d r buffer cmdtable s
  /-- Writes to different sectors reach different sectors. -/
  separate : ∀ s s', s < disk.totalSectors → s' < disk.totalSectors → s ≠ s' → ∀ f f',
    Issues .write disk d r buffer cmdtable (s.setWidth 16) f →
    Issues .write disk d r buffer cmdtable (s'.setWidth 16) f' → f.lba ≠ f'.lba

/-! ## What it does -/

/-- What a call needs besides its port to issue a command. -/
structure CanIssue (r : PortRegisters) (buffer cmdtable : BitVec 64) : Prop where
  /-- There is a slot for the command. -/
  free : ∃ slot, r.Free slot
  /-- There can be an entry for the buffer. -/
  even : buffer &&& 1#64 = 0
  /-- The heap has answered a table. -/
  table : cmdtable ≠ 0

/-- The size of a `CommandTable`. -/
def commandTableBytes : ℕ := 64 + 16 + 48 + 16

/-- **After `Init` the heap answers no table.** -/
theorem allocateObject_commandTable {s : Slab.AllocatorRun} (h0 : Slab.allocatorMachine.init s) :
    ¬∃ p s', s.step (.allocateObject commandTableBytes) = .ok (p, s') ∧ p ≠ 0 :=
  mt (Slab.init_served_iff h0 (by decide)).mp (by decide)

/-- A free slot and a table are all that the command for a sector needs. -/
theorem PortReady.ready {port slot : ℕ} (hp : PortReady d port r) (hfree : r.Free slot)
    (hleast : ∀ j < slot, ¬r.Free j) (ht : cmdtable ≠ 0)
    (htable : (d.commandTables cmdtable.toNat).isSome) :
    Ready d port slot r.clistb.toNat cmdtable where
  port_lt := hp.port_lt
  registers := by rw [hp.registers]; rfl
  slot_eq := emptyCommandSlot_of_free hp.registers hfree hleast
  slot_lt := hfree.1
  list_eq := hp.commandListPtr
  list_ne := hp.list_ne
  list_isSome := hp.list_isSome
  table_ne := ht
  table_isSome := htable

/-- A table is filled only if it is there and the buffer is even, and then nothing but the table
changes. -/
theorem fillTable_eq_ok {d' : AhciDriver} {fis : H2dRegisterFis}
    (h : d.fillTable fis buffer cmdtable = .ok d') :
    buffer &&& 1#64 = 0 ∧ cmdtable ≠ 0 ∧ d'.ports = d.ports ∧
      d'.commandLists = d.commandLists := by
  obtain ⟨t, ht, h⟩ := Exec.bind_eq_ok.mp h
  obtain ⟨e, he, h⟩ := Exec.bind_eq_ok.mp h
  obtain ⟨t', -, h⟩ := Exec.bind_eq_ok.mp h
  obtain rfl := Except.ok.inj h
  refine ⟨(Exec.check_bind_eq_ok.mp he).1, ?_, rfl, rfl⟩
  rintro rfl
  cases ht

/-- **A command is issued only if it can be.** -/
theorem canIssue_of_issueSector {port slot : ℕ} {d' : AhciDriver} {fis : H2dRegisterFis}
    (hp : PortReady d port r) (h : d.issueSector fis port buffer cmdtable = .ok (slot, d')) :
    CanIssue r buffer cmdtable := by
  rw [issueSector_eq] at h
  obtain ⟨d₁, hfill, hissue⟩ := Exec.bind_eq_ok.mp h
  obtain ⟨hb, ht, hports, hlists⟩ := fillTable_eq_ok hfill
  refine ⟨?_, hb, ht⟩
  by_contra hfull
  rw [(hp.congr hports hlists).issue_of_full (not_exists.mp hfull)] at hissue
  cases hissue

/-- A port stays ready when a table is placed. -/
theorem PortReady.placeTable {port : ℕ} (hp : PortReady d port r) (t : Option CommandTable) :
    PortReady (d.placeTable cmdtable t) port r :=
  hp.congr rfl rfl

/-- **What a call issues.** -/
theorem issues_iff (hp : PortReady d disk.port.toNat r) (hcan : CanIssue r buffer cmdtable)
    {sector : BitVec 16} {fis : H2dRegisterFis} :
    Issues op disk d r buffer cmdtable sector fis ↔ fis = op.fis (sector.setWidth 64) := by
  obtain ⟨slot, hslot, hleast⟩ : ∃ slot, r.Free slot ∧ ∀ j < slot, ¬r.Free j :=
    r.exists_first.resolve_right (not_forall_not.mpr hcan.free)
  have htable : ((d.placeTable cmdtable (some newTable)).commandTables cmdtable.toNat).isSome := by
    simp [AhciDriver.placeTable]
  obtain ⟨d', l, t, e, hd, hl, hheader, ht', hfis, -⟩ := issueSector_spec
    (op.fis (sector.setWidth 64)) ((hp.placeTable _).ready hslot hleast hcan.table htable) hcan.even
  have hbase : (l.headers slot).commandTableBase = cmdtable := by
    rw [hheader]
    exact Bits.halves_eq cmdtable
  rw [← hbase] at ht'
  constructor
  · rintro ⟨slot₁, d₁, l₁, t₁, hd₁, -, hl₁, ht₁, hfis₁⟩
    obtain ⟨rfl, rfl⟩ := Prod.mk.inj (Except.ok.inj (hd₁.symm.trans hd))
    rw [hl] at hl₁
    cases hl₁
    rw [ht'] at ht₁
    cases ht₁
    rw [← hfis₁, hfis]
  · rintro rfl
    refine ⟨slot, d', l, t, hd, fun polls is rounds ↦ ?_, hl, ht', hfis⟩
    rw [op.fis_eq] at hd
    rw [AhciDisk.polled, AhciDriver.sectorWithNew]
    simp only [bind_assoc]
    rw [show (some ⟨fun _ ↦ 0, fun _ ↦ ⟨0, 0, 0, 0⟩⟩ : Option CommandTable) = some newTable from
      rfl, SectorOp.run_of_issue hd]
    rfl

/-- The frame of a call has the lower half of the sector number. -/
theorem lba_fis (op : SectorOp) (s : BitVec 32) :
    (op.fis ((s.setWidth 16).setWidth 64)).lba.toNat = s.toNat % 2 ^ 16 := by
  rw [op.fis_eq, H2dRegisterFis.lba_createSector]
  simp only [BitVec.extractLsb'_toNat, BitVec.toNat_setWidth, Nat.shiftRight_zero]
  omega

/-- **A call reaches the sector exactly if it can issue a command and the number has 16 bits.** -/
theorem carries_iff (hp : PortReady d disk.port.toNat r) (s : BitVec 32) :
    Carries op disk d r buffer cmdtable s ↔ CanIssue r buffer cmdtable ∧ s.toNat < 2 ^ 16 := by
  by_cases hcan : CanIssue r buffer cmdtable
  · have hs := s.isLt
    have hcarries : Carries op disk d r buffer cmdtable s ↔
        (op.fis ((s.setWidth 16).setWidth 64)).lba = s.setWidth 48 := by
      simp only [Carries, issues_iff hp hcan, exists_eq_left]
    rw [and_iff_right hcan, hcarries, ← BitVec.toNat_inj, lba_fis, BitVec.toNat_setWidth]
    omega
  · refine iff_of_false ?_ fun h ↦ hcan h.1
    rintro ⟨fis, ⟨slot, d', l, t, hissue, -⟩, -⟩
    exact hcan (canIssue_of_issueSector (hp.placeTable _) hissue)

/-- The size in bytes is right for less than 4 GiB. -/
theorem totalBytes_eq_iff (disk : AhciDisk) :
    disk.totalBytes.toNat = disk.totalSectors.toNat * 512 ↔ disk.totalSectors.toNat < 2 ^ 23 := by
  have hlt := disk.totalSectors.isLt
  have hbytes : disk.totalBytes.toNat = disk.totalSectors.toNat * 512 % 2 ^ 32 := by
    rw [AhciDisk.totalBytes, AhciDisk.sectorBytes, BitVec.toNat_setWidth, BitVec.toNat_mul,
      BitVec.toNat_setWidth, show (512 : BitVec 64).toNat = 512 from rfl]
    omega
  rw [hbytes]
  omega

/-- **A disk can be addressed exactly if commands can be issued and it has at most `2 ^ 16`
sectors**, or none; and its size in bytes is right if it has less than `2 ^ 23`. -/
theorem addresses_iff (disk : AhciDisk) (d : AhciDriver) (r : PortRegisters)
    (buffer cmdtable : BitVec 64) (hp : PortReady d disk.port.toNat r) :
    (Addresses disk d r buffer cmdtable ↔ disk.totalSectors = 0 ∨
      CanIssue r buffer cmdtable ∧ disk.totalSectors.toNat ≤ 2 ^ 16) ∧
    (disk.totalBytes.toNat = disk.totalSectors.toNat * 512 ↔
      disk.totalSectors.toNat < 2 ^ 23) := by
  refine ⟨⟨fun h ↦ or_iff_not_imp_left.mpr fun hpos ↦ ?_, fun h ↦ ⟨fun op s hs ↦ ?_,
    fun s s' hs hs' hne f f' hf hf' heq ↦ ?_⟩⟩, totalBytes_eq_iff disk⟩
  · -- the last sector of the disk is reached
    have hpos' : disk.totalSectors.toNat ≠ 0 := fun h0 ↦ hpos (BitVec.eq_of_toNat_eq h0)
    have hlast : (disk.totalSectors - 1).toNat = disk.totalSectors.toNat - 1 := by
      have hlt := disk.totalSectors.isLt
      rw [BitVec.toNat_sub, show (1 : BitVec 32).toNat = 1 from rfl]
      omega
    have hs : disk.totalSectors - 1 < disk.totalSectors := by
      rw [BitVec.lt_def]
      omega
    obtain ⟨hcan, hlt⟩ := (carries_iff hp _).mp (h.carries .write _ hs)
    exact ⟨hcan, by omega⟩
  · rw [BitVec.lt_def] at hs
    rcases h with h0 | ⟨hcan, hle⟩
    · rw [h0] at hs
      exact absurd hs (Nat.not_lt_zero _)
    · exact (carries_iff hp s).mpr ⟨hcan, by omega⟩
  · rw [BitVec.lt_def] at hs hs'
    rcases h with h0 | ⟨hcan, hle⟩
    · rw [h0] at hs
      exact absurd hs (Nat.not_lt_zero _)
    rw [issues_iff hp hcan] at hf hf'
    have hnat := congrArg BitVec.toNat heq
    rw [hf, hf', lba_fis, lba_fis, Nat.mod_eq_of_lt (by omega), Nat.mod_eq_of_lt (by omega)] at hnat
    exact hne (BitVec.eq_of_toNat_eq hnat)

/-- A disk of 8 GiB. -/
def largeDisk : AhciDisk := ⟨0, 0x1000000⟩

/-- The registers of its port, in `oneDisk`. -/
def idleRegisters : PortRegisters := ⟨0x1000, 0, 0, 0⟩

theorem portReady_oneDisk : PortReady oneDisk 0 idleRegisters where
  port_lt := by decide
  registers := rfl
  list_ne := by decide
  list_isSome := rfl

theorem canIssue_idleRegisters : CanIssue idleRegisters 0x3000 0x2000 :=
  ⟨⟨0, by decide, by decide, by decide⟩, by decide, by decide⟩

theorem addresses_iff_largeDisk :
    (Addresses largeDisk oneDisk idleRegisters 0x3000 0x2000 ↔ largeDisk.totalSectors = 0 ∨
      CanIssue idleRegisters 0x3000 0x2000 ∧ largeDisk.totalSectors.toNat ≤ 2 ^ 16) ∧
    (largeDisk.totalBytes.toNat = largeDisk.totalSectors.toNat * 512 ↔
      largeDisk.totalSectors.toNat < 2 ^ 23) :=
  addresses_iff largeDisk oneDisk idleRegisters 0x3000 0x2000 portReady_oneDisk

/-- **A write to sector `0x10000` reaches sector 0**, without a table no sector is reached, and
8 GiB are no bytes at all. -/
theorem not_addresses_largeDisk :
    (¬∀ (disk : AhciDisk) (d : AhciDriver) (r : PortRegisters) (buffer cmdtable : BitVec 64),
      PortReady d disk.port.toNat r → CanIssue r buffer cmdtable →
        Addresses disk d r buffer cmdtable) ∧
    (∃ fis, Issues .write largeDisk oneDisk idleRegisters 0x3000 0x2000
      ((0x10000 : BitVec 32).setWidth 16) fis ∧ fis.lba = 0) ∧
    (∀ op s, ¬Carries op largeDisk oneDisk idleRegisters 0x3000 0 s) ∧
    largeDisk.totalBytes = 0 := by
  have hready : PortReady oneDisk largeDisk.port.toNat idleRegisters := portReady_oneDisk
  refine ⟨fun h ↦ ?_, ⟨SectorOp.write.fis 0, ?_, by decide⟩, fun op s hs ↦ ?_, by decide⟩
  · have haddr := h largeDisk oneDisk idleRegisters 0x3000 0x2000 hready canIssue_idleRegisters
    have hcarries := haddr.carries .write 0x10000 (by decide)
    exact absurd ((carries_iff hready _).mp hcarries).2 (by decide)
  · rw [issues_iff hready canIssue_idleRegisters]
    rfl
  · exact ((carries_iff hready s).mp hs).1.table rfl

end Chisaka.Ahci
