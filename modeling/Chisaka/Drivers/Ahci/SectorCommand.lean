import Mathlib.Data.BitVec
import Chisaka.Drivers.Ahci.AhciDriver

/-!
# The command for one sector

A command is described four times over: in the frame, in the entry for the buffer, in the header,
and in the direction bit of the header.  `SelfConsistent` says that the four agree.  `WriteSector`
and `ReadSector` differ in the frame only, so that the header says *write* in both: the command that
`WriteSector` issues is consistent, the one that `ReadSector` issues never is
(`selfConsistent_iff_write`).
-/

set_option autoImplicit false

namespace Chisaka.Ahci

/-- The two functions that send a command for a sector. -/
inductive SectorOp
  | read
  | write
  deriving DecidableEq

namespace SectorOp

/-- The command code. -/
def code : SectorOp → BitVec 8
  | read => H2dRegisterFis.readDmaExtCode
  | write => H2dRegisterFis.writeDmaExtCode

/-- The function of the driver. -/
def run (op : SectorOp) (port : ℕ) (sector ibuffer cmdtable : BitVec 64) (polls : ℕ → BitVec 32)
    (rounds : ℕ) (d : AhciDriver) : Exec AhciDriver :=
  match op with
  | read => d.readSector port sector ibuffer cmdtable polls rounds
  | write => d.writeSector port sector ibuffer cmdtable polls rounds

/-- Either function issues a command and then waits. -/
theorem run_of_issue {op : SectorOp} {port slot : ℕ} {sector ibuffer cmdtable : BitVec 64}
    {d d' : AhciDriver} (h : d.issueSector (.createSector op.code sector) port ibuffer cmdtable
      = .ok (slot, d')) (polls : ℕ → BitVec 32) (rounds : ℕ) :
    op.run port sector ibuffer cmdtable polls rounds d = d'.waitSector port slot polls rounds := by
  cases op with
  | read =>
    have h' : d.issueSector (.createRead sector) port ibuffer cmdtable = .ok (slot, d') := h
    rw [run, AhciDriver.readSector, h', Exec.ok_bind]
  | write =>
    have h' : d.issueSector (.createWrite sector) port ibuffer cmdtable = .ok (slot, d') := h
    rw [run, AhciDriver.writeSector, h', Exec.ok_bind]

end SectorOp

/-! ## Consistency -/

/-- The header and the table describe the same transfer of one sector. -/
structure SelfConsistent (op : SectorOp) (sector ibuffer cmdtable : BitVec 64) (h : CommandHeader)
    (t : CommandTable) : Prop where
  /-- The frame is a command. -/
  isC : (H2dRegisterFis.ofBytes t.cfis).isC = true
  /-- It is the command of the function that was called. -/
  command : (H2dRegisterFis.ofBytes t.cfis).commandReg = op.code
  /-- Its sector is the one that was asked for. -/
  lba : (H2dRegisterFis.ofBytes t.cfis).lba.setWidth 64 = sector
  /-- It is about one sector. -/
  count : (H2dRegisterFis.ofBytes t.cfis).sectorCountReg = 1
  /-- There is one entry for the buffer. -/
  prdtl : h.prdtl = 1
  /-- The frame is five dwords long. -/
  cfl : h.cfl = 5
  /-- The header points to the table. -/
  table : h.commandTableBase = cmdtable
  /-- The entry points to the buffer. -/
  buffer : (t.prdt 0).dataBaseAddress = ibuffer
  /-- The buffer is 512 bytes long. -/
  bytes : (t.prdt 0).dataByteCount = 511
  /-- The direction bit of the header is that of the command in the frame. -/
  direction : h.pWACfl.getLsbD 6 = true ↔
    (H2dRegisterFis.ofBytes t.cfis).commandReg = H2dRegisterFis.writeDmaExtCode

/-- A sector number of 48 bits is read back whole. -/
theorem H2dRegisterFis.lba_setWidth (code : BitVec 8) {s : BitVec 64} (hs : s < 2 ^ 48) :
    (createSector code s).lba.setWidth 64 = s := by
  refine BitVec.eq_of_toNat_eq ?_
  have hlt : s.toNat < 2 ^ 48 := hs
  rw [lba_createSector]
  simp only [BitVec.toNat_setWidth, BitVec.extractLsb'_toNat, Nat.shiftRight_zero]
  rw [Nat.mod_eq_of_lt hlt, Nat.mod_eq_of_lt s.isLt]

/-- The entry that is made for an even address. -/
theorem PrdtEntry.new_eq {ibuffer : BitVec 64} (h : ibuffer &&& 1#64 = 0) : ∃ e,
    PrdtEntry.new ibuffer true 511 = .ok e ∧ e.dataBaseAddress = ibuffer ∧
      e.dataByteCount = 511 := by
  refine ⟨⟨(ibuffer &&& 0xFFFFFFFF#64).setWidth 32, (ibuffer >>> 32).setWidth 32, 0,
    0x800001FF⟩, ?_, Bits.halves_eq ibuffer, ?_⟩
  · rw [PrdtEntry.new, kassert, Exec.check_of h]
    rfl
  · show 0x800001FF#32 &&& 0x3FFFFF#32 = 511
    decide

/-- The header that both functions make. -/
def sectorHeader (cmdtable : BitVec 64) : CommandHeader where
  pWACfl := 0b01000101
  pmpCBR := 0b00000100
  prdtl := 1
  prdbc := 0
  ctbau := (cmdtable >>> 32).setWidth 32
  ctba := (cmdtable &&& 0xFFFFFFFF#64).setWidth 32

theorem CommandHeader.new_eq (cmdtable : BitVec 64) :
    CommandHeader.new cmdtable 1 0b00000100 0b01000101 = .ok (sectorHeader cmdtable) := rfl

/-- The header says that the command writes. -/
theorem direction_sectorHeader (cmdtable : BitVec 64) :
    (sectorHeader cmdtable).pWACfl.getLsbD 6 = true := by
  show (0b01000101#8).getLsbD 6 = true
  decide

/-- The frame has 20 bytes. -/
theorem cfl_sectorHeader (cmdtable : BitVec 64) : (sectorHeader cmdtable).cfl = 5 := by
  show 0b01000101#8 &&& 0x1F#8 = 5
  decide

/-- **A header that says write is consistent with a table that says write.** -/
theorem selfConsistent_iff (op : SectorOp) {sector ibuffer cmdtable : BitVec 64}
    (hs : sector < 2 ^ 48) {t : CommandTable} {e : PrdtEntry} (hbuf : e.dataBaseAddress = ibuffer)
    (hbytes : e.dataByteCount = 511) (hfis : H2dRegisterFis.ofBytes t.cfis
      = .createSector op.code sector) (hprdt : t.prdt 0 = e) :
    SelfConsistent op sector ibuffer cmdtable (sectorHeader cmdtable) t ↔ op = .write := by
  constructor
  · intro h
    have hdir := h.direction.mp (direction_sectorHeader cmdtable)
    rw [h.command] at hdir
    cases op with
    | write => rfl
    | read => exact absurd hdir (by decide)
  · rintro rfl
    exact {
      isC := by simp [hfis]
      command := by simp [hfis]
      lba := by rw [hfis, H2dRegisterFis.lba_setWidth _ hs]
      count := by simp [hfis]
      prdtl := rfl
      cfl := cfl_sectorHeader cmdtable
      table := Bits.halves_eq cmdtable
      buffer := by rw [hprdt, hbuf]
      bytes := by rw [hprdt, hbytes]
      direction := iff_of_true (direction_sectorHeader cmdtable) (by rw [hfis]; rfl) }

/-! ## What is issued -/

/-- The port is there, with a free slot, a command list and a table. -/
structure Ready (d : AhciDriver) (port slot list : ℕ) (cmdtable : BitVec 64) : Prop where
  /-- There is such a port. -/
  port_lt : port < maxPorts
  /-- Its registers have been found. -/
  registers : (d.ports port).registers.isSome
  /-- The slot that is chosen. -/
  slot_eq : (d.ports port).emptyCommandSlot = .ok (slot : ℤ)
  /-- The slot is one of the list. -/
  slot_lt : slot < 32
  /-- The command list. -/
  list_eq : (d.ports port).commandListPtr = .ok list
  /-- The list is not null. -/
  list_ne : list ≠ 0
  /-- The list is in memory. -/
  list_isSome : (d.commandLists list).isSome
  /-- The table is not null. -/
  table_ne : cmdtable ≠ 0
  /-- The table is in memory. -/
  table_isSome : (d.commandTables cmdtable.toNat).isSome

/-- **What is issued**: the frame and the entry in the table, and the header in the slot. -/
theorem issueSector_spec {d : AhciDriver} {port slot list : ℕ} {ibuffer cmdtable : BitVec 64}
    (fis : H2dRegisterFis) (h : Ready d port slot list cmdtable) (hb : ibuffer &&& 1#64 = 0) :
    ∃ d' l t e, d.issueSector fis port ibuffer cmdtable = .ok (slot, d') ∧
      d'.commandLists list = some l ∧ l.headers slot = sectorHeader cmdtable ∧
      d'.commandTables cmdtable.toNat = some t ∧ H2dRegisterFis.ofBytes t.cfis = fis ∧
      t.prdt 0 = e ∧ e.dataBaseAddress = ibuffer ∧ e.dataByteCount = 511 := by
  obtain ⟨t, ht⟩ := Option.isSome_iff_exists.mp h.table_isSome
  obtain ⟨l, hl⟩ := Option.isSome_iff_exists.mp h.list_isSome
  obtain ⟨r, hr⟩ := Option.isSome_iff_exists.mp h.registers
  obtain ⟨e, he, hbuf, hbytes⟩ := PrdtEntry.new_eq hb
  have htable : cmdtable.toNat ≠ 0 := fun h0 ↦ h.table_ne (BitVec.eq_of_toNat_eq h0)
  have hderef := deref_of_some htable ht
  have hlist := deref_of_some h.list_ne hl
  have hissue := AhciPort.issueCommand_of_lt h.slot_lt hr
  refine ⟨{ d with
      ports := Function.update d.ports port { d.ports port with
        registers := some { r with ci := r.ci ||| BitVec.twoPow 32 slot } }
      commandLists := Function.update d.commandLists list
        (some ⟨Function.update l.headers slot (sectorHeader cmdtable)⟩)
      commandTables := Function.update d.commandTables cmdtable.toNat
        (some { t.setCommandFis fis with prdt := Function.update t.prdt 0 e }) },
    ⟨Function.update l.headers slot (sectorHeader cmdtable)⟩,
    { t.setCommandFis fis with prdt := Function.update t.prdt 0 e }, e, ?_,
    Function.update_self .., Function.update_self .., Function.update_self ..,
    t.ofBytes_setCommandFis fis, show Function.update t.prdt 0 e 0 = e from Function.update_self ..,
    hbuf, hbytes⟩
  rw [AhciDriver.issueSector, hderef]
  simp only [Exec.ok_bind, he, CommandTable.setPrdtEntry_zero, CommandHeader.new_eq,
    AhciDriver.port, if_pos h.port_lt, h.slot_eq, h.list_eq, hlist, Int.toNat_natCast, hissue]
  rw [if_neg (by omega)]
  rfl

/-- The call issues a command in the slot it chose, waits for it, and the command is consistent. -/
def IssuesConsistent (op : SectorOp) (d : AhciDriver) (port slot list : ℕ)
    (sector ibuffer cmdtable : BitVec 64) : Prop :=
  ∃ d' l t, d.issueSector (.createSector op.code sector) port ibuffer cmdtable = .ok (slot, d') ∧
    (∀ polls rounds, op.run port sector ibuffer cmdtable polls rounds d
      = d'.waitSector port slot polls rounds) ∧
    d'.commandLists list = some l ∧ d'.commandTables cmdtable.toNat = some t ∧
    SelfConsistent op sector ibuffer cmdtable (l.headers slot) t

/-- **The command is consistent exactly when it is a write**: the header of a read says write, too,
while its frame says read. -/
theorem issuesConsistent_iff_write (op : SectorOp) (d : AhciDriver) (port slot list : ℕ)
    (sector ibuffer cmdtable : BitVec 64) (h : Ready d port slot list cmdtable)
    (hs : sector < 2 ^ 48) (hb : ibuffer &&& 1#64 = 0) :
    IssuesConsistent op d port slot list sector ibuffer cmdtable ↔ op = .write := by
  obtain ⟨d', l, t, e, hd, hl, hheader, ht, hfis, hprdt, hbuf, hbytes⟩ :=
    issueSector_spec (.createSector op.code sector) h hb
  have hiff : SelfConsistent op sector ibuffer cmdtable (l.headers slot) t ↔ op = .write := by
    rw [hheader]
    exact selfConsistent_iff op hs hbuf hbytes hfis hprdt
  constructor
  · rintro ⟨d₁, l₁, t₁, hd₁, -, hl₁, ht₁, hcons⟩
    rw [hd] at hd₁
    cases hd₁
    rw [hl] at hl₁
    cases hl₁
    rw [ht] at ht₁
    cases ht₁
    exact hiff.mp hcons
  · intro hop
    exact ⟨d', l, t, hd, SectorOp.run_of_issue hd, hl, ht, hiff.mpr hop⟩

/-- A driver with one port, a command list at 0x1000 and a command table at 0x2000. -/
def oneDisk : AhciDriver where
  enabled := true
  ports := fun _ ↦ ⟨some ⟨0x1000, 0, 0, 0⟩, true⟩
  commandLists := fun p ↦ if p = 0x1000 then some ⟨fun _ ↦ ⟨0, 0, 0, 0, 0, 0⟩⟩ else none
  commandTables := fun p ↦
    if p = 0x2000 then some ⟨fun _ ↦ 0, fun _ ↦ ⟨0, 0, 0, 0⟩⟩ else none

theorem ready_oneDisk : Ready oneDisk 0 0 0x1000 0x2000 where
  port_lt := by decide
  registers := rfl
  slot_eq := rfl
  slot_lt := by decide
  list_eq := rfl
  list_ne := by decide
  list_isSome := rfl
  table_ne := by decide
  table_isSome := rfl

theorem issuesConsistent_iff_write_oneDisk :
    IssuesConsistent .write oneDisk 0 0 0x1000 7 0x3000 0x2000 ↔ SectorOp.write = .write :=
  issuesConsistent_iff_write .write oneDisk 0 0 0x1000 7 0x3000 0x2000 ready_oneDisk (by decide)
    (by decide)

/-- **A read is announced as a write.** -/
theorem not_issuesConsistent_read : ¬∀ (op : SectorOp) (d : AhciDriver) (port slot list : ℕ)
    (sector ibuffer cmdtable : BitVec 64), Ready d port slot list cmdtable → sector < 2 ^ 48 →
      ibuffer &&& 1#64 = 0 → IssuesConsistent op d port slot list sector ibuffer cmdtable := by
  intro h
  obtain ⟨d', l, t, e, hd, hl, hheader, ht, hfis, -⟩ := issueSector_spec
    (.createSector H2dRegisterFis.readDmaExtCode 7) ready_oneDisk
    (show 0x3000#64 &&& 1#64 = 0 by decide)
  obtain ⟨d₁, l₁, t₁, hd₁, -, hl₁, ht₁, hcons⟩ := h .read oneDisk 0 0 0x1000 7 0x3000 0x2000
    ready_oneDisk (by decide) (by decide)
  obtain ⟨-, rfl⟩ := Prod.mk.inj (Except.ok.inj (hd₁.symm.trans hd))
  rw [hl] at hl₁
  cases hl₁
  have hdir := hcons.direction.mp (by rw [hheader]; exact direction_sectorHeader _)
  rw [hcons.command] at hdir
  exact absurd hdir (by decide)

end Chisaka.Ahci
