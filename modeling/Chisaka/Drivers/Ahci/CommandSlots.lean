import Chisaka.Drivers.Ahci.SectorCommand

/-!
# The command slots

A port has 32 command slots, of which `EmptyCommandSlot` chooses the first that is free in the
registers `sact` and `ci`; it says -1 if there is none.  Every function that sends a command goes on
with the same sequence (`issue`): store the header in that slot of the command list, and issue it.

The sequence uses the slot as an index without looking at it.  The assertion in `IssueCommand` comes
behind the access to `m_headers[-1]`.  So the functions are `Safe` exactly when there is a free slot
(`safe_iff`).
-/

set_option autoImplicit false

namespace Chisaka.Ahci

namespace H2dRegisterFis

/-- `CreateIdentifyDevice`. -/
def createIdentifyDevice : H2dRegisterFis :=
  { commandReg := 0xec
    deviceReg := 0
    cPortMultiplier := 0x80 }

end H2dRegisterFis

/-! ## The functions that send a command -/

namespace AhciDriver

/-- What all of them do with a header: find a slot, store the header in it, and issue it.  The
result is the slot. -/
def issue (port : ℕ) (cmdheader : CommandHeader) (d : AhciDriver) : Exec (ℕ × AhciDriver) := do
  let p ← d.port port
  let freeSlot ← p.emptyCommandSlot
  let cmdlist ← p.commandListPtr
  let l ← deref d.commandLists cmdlist
  -- an index outside the array
  if freeSlot < 0 then throw .dangling
  let slot := freeSlot.toNat
  let l : CommandList := ⟨Function.update l.headers slot cmdheader⟩
  let d := { d with commandLists := Function.update d.commandLists cmdlist (some l) }
  let p ← p.issueCommand slot
  return (slot, d.setPort port p)

/-- What those that have a table do with it: put the frame and the buffer there. -/
def fillTable (fis : H2dRegisterFis) (buffer cmdtable : BitVec 64) (d : AhciDriver) :
    Exec AhciDriver := do
  let t ← deref d.commandTables cmdtable.toNat
  let t := t.setCommandFis fis
  let prdt ← PrdtEntry.new buffer true 511
  let t ← t.setPrdtEntry 0 prdt
  return { d with commandTables := Function.update d.commandTables cmdtable.toNat (some t) }

/-- A table in memory that was just allocated, or none. -/
def placeTable (cmdtable : BitVec 64) (t : Option CommandTable) (d : AhciDriver) : AhciDriver :=
  { d with commandTables := Function.update d.commandTables cmdtable.toNat t }

/-- `Perform`. -/
def perform (port : ℕ) (cmdheader : CommandHeader) (polls : ℕ → BitVec 32) (rounds : ℕ)
    (d : AhciDriver) : Exec AhciDriver := do
  let (slot, d) ← d.issue port cmdheader
  d.waitSector port slot polls rounds

/-- `IdentifyDevice`, when the page allocator gives it the page `cmdtable`, which holds `t`. -/
def identifyDevice (port : ℕ) (buffer cmdtable : BitVec 64) (t : CommandTable)
    (polls : ℕ → BitVec 32) (rounds : ℕ) (d : AhciDriver) : Exec AhciDriver := do
  let d := d.placeTable cmdtable t
  let d ← d.fillTable .createIdentifyDevice buffer cmdtable
  let cmdheader ← CommandHeader.new cmdtable 1 0b00000100 0b10000101
  let (slot, d) ← d.issue port cmdheader
  let d ← d.waitSector port slot polls rounds
  return d.placeTable cmdtable none

/-- `WriteSector(port, sector, ibuffer)` and `ReadSector(port, sector, ibuffer)`, when the heap puts
the table at `cmdtable`. -/
def sectorWithNew (op : SectorOp) (port : ℕ) (sector ibuffer cmdtable : BitVec 64)
    (polls : ℕ → BitVec 32) (rounds : ℕ) (d : AhciDriver) : Exec AhciDriver := do
  let d := d.placeTable cmdtable (some ⟨fun _ ↦ 0, fun _ ↦ ⟨0, 0, 0, 0⟩⟩)
  let d ← op.run port sector ibuffer cmdtable polls rounds d
  return d.placeTable cmdtable none

end AhciDriver

/-- The calls of these functions. -/
inductive IssuePath
  | perform (cmdheader : CommandHeader)
  | identifyDevice (buffer cmdtable : BitVec 64) (t : CommandTable)
  | sector (op : SectorOp) (sector ibuffer cmdtable : BitVec 64)
  | sectorWithNew (op : SectorOp) (sector ibuffer cmdtable : BitVec 64)

namespace IssuePath

/-- What a call does. -/
def run (path : IssuePath) (port : ℕ) (polls : ℕ → BitVec 32) (rounds : ℕ) (d : AhciDriver) :
    Exec AhciDriver :=
  match path with
  | perform cmdheader => d.perform port cmdheader polls rounds
  | identifyDevice buffer cmdtable t => d.identifyDevice port buffer cmdtable t polls rounds
  | sector op s ibuffer cmdtable => op.run port s ibuffer cmdtable polls rounds d
  | sectorWithNew op s ibuffer cmdtable =>
    d.sectorWithNew op port s ibuffer cmdtable polls rounds

/-- A call has the buffer and the table that it needs. -/
def Ready (path : IssuePath) (d : AhciDriver) : Prop :=
  match path with
  | perform _ => True
  | identifyDevice buffer cmdtable _ => buffer &&& 1#64 = 0 ∧ cmdtable ≠ 0
  | sector _ _ ibuffer cmdtable =>
    ibuffer &&& 1#64 = 0 ∧ cmdtable ≠ 0 ∧ (d.commandTables cmdtable.toNat).isSome
  | sectorWithNew _ _ ibuffer cmdtable => ibuffer &&& 1#64 = 0 ∧ cmdtable ≠ 0

end IssuePath

/-! ## What they should do -/

/-- A slot is clear in both registers. -/
def PortRegisters.Free (r : PortRegisters) (slot : ℕ) : Prop :=
  slot < 32 ∧ r.sact.getLsbD slot = false ∧ r.ci.getLsbD slot = false

/-- A port with its registers and its command list. -/
structure PortReady (d : AhciDriver) (port : ℕ) (r : PortRegisters) : Prop where
  /-- There is such a port. -/
  port_lt : port < maxPorts
  /-- Its registers. -/
  registers : (d.ports port).registers = some r
  /-- The command list is not null. -/
  list_ne : r.clistb.toNat ≠ 0
  /-- The command list is in memory. -/
  list_isSome : (d.commandLists r.clistb.toNat).isSome

/-- `EmptyCommandSlot` returns the first free slot, or -1 if there is none. -/
def FindsSlot (p : AhciPort) (r : PortRegisters) : Prop :=
  (∃ slot : ℕ, p.emptyCommandSlot = .ok (slot : ℤ) ∧ r.Free slot ∧ ∀ j < slot, ¬r.Free j) ∨
    (p.emptyCommandSlot = .ok (-1) ∧ ∀ slot, ¬r.Free slot)

/-- **A call accesses nothing outside the 32 headers** (or any other object), and it issues nothing
if there is no free slot. -/
structure Safe (path : IssuePath) (d : AhciDriver) (port : ℕ) (r : PortRegisters) : Prop where
  /-- Every access is to an object. -/
  inside : ∀ polls rounds, path.run port polls rounds d ≠ .error .dangling
  /-- Without a free slot, the ports stay as they are. -/
  idle : (∀ slot, ¬r.Free slot) → ∀ polls rounds d', path.run port polls rounds d = .ok d' →
    d'.ports = d.ports

/-! ## What they do -/

variable {d d' : AhciDriver} {p : AhciPort} {r : PortRegisters} {port slot : ℕ}
  {cmdheader : CommandHeader}

theorem emptyCommandSlot_of_free (hr : p.registers = some r) (hfree : r.Free slot)
    (hleast : ∀ j < slot, ¬r.Free j) : p.emptyCommandSlot = .ok (slot : ℤ) := by
  have hfind : (List.range 32).find? (fun i ↦ !(r.sact.getLsbD i) && !(r.ci.getLsbD i))
      = some slot := by
    rw [List.find?_range_eq_some]
    obtain ⟨hlt, hsact, hci⟩ := hfree
    refine ⟨by simp [hsact, hci], List.mem_range.mpr hlt, fun j hj ↦ ?_⟩
    have hj' : ¬r.Free j := hleast j hj
    rw [PortRegisters.Free, and_iff_right (hj.trans hlt)] at hj'
    cases hs : r.sact.getLsbD j <;> cases hc : r.ci.getLsbD j <;> simp_all
  rw [AhciPort.emptyCommandSlot, AhciPort.regs, hr]
  simp only [Option.elim_some, Exec.ok_bind, hfind]
  rfl

theorem emptyCommandSlot_of_full (hr : p.registers = some r) (hfull : ∀ slot, ¬r.Free slot) :
    p.emptyCommandSlot = .ok (-1) := by
  have hfind : (List.range 32).find? (fun i ↦ !(r.sact.getLsbD i) && !(r.ci.getLsbD i))
      = none := by
    rw [List.find?_range_eq_none]
    intro i hi
    have hi' : ¬r.Free i := hfull i
    rw [PortRegisters.Free, and_iff_right hi] at hi'
    cases hs : r.sact.getLsbD i <;> cases hc : r.ci.getLsbD i <;> simp_all
  rw [AhciPort.emptyCommandSlot, AhciPort.regs, hr]
  simp only [Option.elim_some, Exec.ok_bind, hfind]
  rfl

/-- There is a first free slot, or there is none. -/
theorem PortRegisters.exists_first (r : PortRegisters) :
    (∃ slot, r.Free slot ∧ ∀ j < slot, ¬r.Free j) ∨ ∀ slot, ¬r.Free slot := by
  classical
  by_cases h : ∃ slot, r.Free slot
  · exact .inl ⟨Nat.find h, Nat.find_spec h, fun j hj ↦ Nat.find_min h hj⟩
  · exact .inr (not_exists.mp h)

/-- **`EmptyCommandSlot` is right**, whatever the registers say. -/
theorem findsSlot (hr : p.registers = some r) : FindsSlot p r := by
  rcases r.exists_first with ⟨slot, hfree, hleast⟩ | hfull
  · exact .inl ⟨slot, emptyCommandSlot_of_free hr hfree hleast, hfree, hleast⟩
  · exact .inr ⟨emptyCommandSlot_of_full hr hfull, hfull⟩

/-! ### The sequence -/

namespace PortReady

theorem port_eq (h : PortReady d port r) : d.port port = .ok (d.ports port) :=
  AhciDriver.port_of_lt h.port_lt

theorem commandListPtr (h : PortReady d port r) :
    (d.ports port).commandListPtr = .ok r.clistb.toNat := by
  rw [AhciPort.commandListPtr, AhciPort.regs, h.registers]
  rfl

theorem list (h : PortReady d port r) :
    ∃ l, deref d.commandLists r.clistb.toNat = .ok l := by
  obtain ⟨l, hl⟩ := Option.isSome_iff_exists.mp h.list_isSome
  exact ⟨l, deref_of_some h.list_ne hl⟩

/-- **With a free slot** the header is stored in the first one, and issued there. -/
theorem issue_of_free (h : PortReady d port r) (hfree : r.Free slot)
    (hleast : ∀ j < slot, ¬r.Free j) :
    ∃ d', d.issue port cmdheader = .ok (slot, d') ∧
      d'.ports = Function.update d.ports port { d.ports port with
        registers := some { r with ci := r.ci ||| BitVec.twoPow 32 slot } } := by
  obtain ⟨l, hl⟩ := h.list
  have hissue := AhciPort.issueCommand_of_lt hfree.1 h.registers
  refine ⟨{ d with
    ports := Function.update d.ports port { d.ports port with
      registers := some { r with ci := r.ci ||| BitVec.twoPow 32 slot } }
    commandLists := Function.update d.commandLists r.clistb.toNat
      (some ⟨Function.update l.headers slot cmdheader⟩) }, ?_, rfl⟩
  rw [AhciDriver.issue, h.port_eq]
  simp only [Exec.ok_bind, emptyCommandSlot_of_free h.registers hfree hleast, h.commandListPtr, hl,
    Int.toNat_natCast, hissue]
  rw [if_neg (by omega)]
  rfl

/-- **Without one** it is stored in front of the list. -/
theorem issue_of_full (h : PortReady d port r) (hfull : ∀ slot, ¬r.Free slot) :
    d.issue port cmdheader = .error .dangling := by
  obtain ⟨l, hl⟩ := h.list
  rw [AhciDriver.issue, h.port_eq]
  simp only [Exec.ok_bind, emptyCommandSlot_of_full h.registers hfull, h.commandListPtr, hl]
  rfl

/-- Only the ports and the command lists matter. -/
theorem congr (h : PortReady d port r) (hports : d'.ports = d.ports)
    (hlists : d'.commandLists = d.commandLists) : PortReady d' port r where
  port_lt := h.port_lt
  registers := by rw [hports, h.registers]
  list_ne := h.list_ne
  list_isSome := by rw [hlists]; exact h.list_isSome

end PortReady

/-- The wait for a command stays inside the objects. -/
theorem waitSector_ne_dangling (hport : port < maxPorts)
    (hr : (d.ports port).registers = some r) (slot : ℕ) (polls : ℕ → BitVec 32) (rounds : ℕ) :
    d.waitSector port slot polls rounds ≠ .error .dangling := by
  have hrun : ∀ n k, Loop.run (AhciDriver.waitBody polls slot) n k ≠ .error .dangling := by
    intro n
    induction n with
    | zero => exact fun _ h ↦ by cases h
    | succ n ih =>
      intro k
      by_cases hk : (polls k).getLsbD slot
      · have hb : AhciDriver.waitBody polls slot k = .ok (.inl (k + 1)) := if_pos hk
        rw [Loop.run_inl hb]
        exact ih (k + 1)
      · have hb : AhciDriver.waitBody polls slot k = .ok (.inr (polls k)) := if_neg hk
        rw [Loop.run_inr hb]
        exact fun h ↦ by cases h
  rw [AhciDriver.waitSector, AhciDriver.port_of_lt hport, Exec.ok_bind]
  cases hw : Loop.run (AhciDriver.waitBody polls slot) rounds 0 with
  | error e =>
    rw [Exec.error_bind]
    intro h
    obtain rfl := Except.error.inj h
    exact hrun rounds 0 hw
  | ok ci =>
    rw [Exec.ok_bind, AhciPort.regs, hr]
    exact fun h ↦ by cases h

/-! ### The calls -/

/-- A table that is there can be filled, and nothing but the table changes. -/
theorem fillTable_spec {buffer cmdtable : BitVec 64} (fis : H2dRegisterFis)
    (hb : buffer &&& 1#64 = 0) (ht : cmdtable ≠ 0)
    (htable : (d.commandTables cmdtable.toNat).isSome) :
    ∃ d', d.fillTable fis buffer cmdtable = .ok d' ∧ d'.ports = d.ports ∧
      d'.commandLists = d.commandLists := by
  obtain ⟨t, ht'⟩ := Option.isSome_iff_exists.mp htable
  obtain ⟨e, he, -⟩ := PrdtEntry.new_eq hb
  have hne : cmdtable.toNat ≠ 0 := fun h0 ↦ ht (BitVec.eq_of_toNat_eq h0)
  refine ⟨d.placeTable cmdtable
    (some { t.setCommandFis fis with prdt := Function.update t.prdt 0 e }), ?_, rfl, rfl⟩
  rw [AhciDriver.fillTable, deref_of_some hne ht']
  simp only [Exec.ok_bind, he, CommandTable.setPrdtEntry_zero]
  rfl

/-- **The command for a sector is the sequence** with its header, behind filling the table. -/
theorem issueSector_eq (fis : H2dRegisterFis) (ibuffer cmdtable : BitVec 64) :
    d.issueSector fis port ibuffer cmdtable = (do
      let d ← d.fillTable fis ibuffer cmdtable
      d.issue port (sectorHeader cmdtable)) := by
  rw [AhciDriver.issueSector, AhciDriver.fillTable]
  simp only [bind_assoc, CommandHeader.new_eq, Exec.ok_bind, Exec.pure_eq]
  rfl

theorem sectorRun_eq (op : SectorOp) (s ibuffer cmdtable : BitVec 64) (polls : ℕ → BitVec 32)
    (rounds : ℕ) : op.run port s ibuffer cmdtable polls rounds d = (do
      let d ← d.fillTable (.createSector op.code s) ibuffer cmdtable
      d.perform port (sectorHeader cmdtable) polls rounds) := by
  cases op with
  | read =>
    rw [SectorOp.run, AhciDriver.readSector, H2dRegisterFis.createRead, issueSector_eq, bind_assoc]
    rfl
  | write =>
    rw [SectorOp.run, AhciDriver.writeSector, H2dRegisterFis.createWrite, issueSector_eq,
      bind_assoc]
    rfl

/-- **Every call is `Perform`** with some header, in a driver with the same ports and command
lists, and something behind it that keeps the ports. -/
theorem IssuePath.run_eq {path : IssuePath} (h : path.Ready d) :
    ∃ (cmdheader : CommandHeader) (d₁ : AhciDriver) (after : AhciDriver → AhciDriver),
      d₁.ports = d.ports ∧ d₁.commandLists = d.commandLists ∧
      ∀ polls rounds, path.run port polls rounds d = (do
        let d ← d₁.perform port cmdheader polls rounds
        return after d) := by
  cases path with
  | perform cmdheader =>
    exact ⟨cmdheader, d, id, rfl, rfl, fun polls rounds ↦ (bind_pure _).symm⟩
  | identifyDevice buffer cmdtable t =>
    obtain ⟨hb, ht⟩ := h
    obtain ⟨d₁, hd₁, hports, hlists⟩ := fillTable_spec (d := d.placeTable cmdtable t)
      .createIdentifyDevice hb ht (by simp [AhciDriver.placeTable])
    refine ⟨⟨0b10000101, 0b00000100, 1, 0, (cmdtable &&& 0xFFFFFFFF#64).setWidth 32,
      (cmdtable >>> 32).setWidth 32⟩, d₁, fun d ↦ d.placeTable cmdtable none, hports, hlists,
      fun polls rounds ↦ ?_⟩
    rw [run, AhciDriver.identifyDevice]
    simp only [hd₁, Exec.ok_bind, AhciDriver.perform, bind_assoc]
    rfl
  | sector op s ibuffer cmdtable =>
    obtain ⟨hb, ht, htable⟩ := h
    obtain ⟨d₁, hd₁, hports, hlists⟩ := fillTable_spec (.createSector op.code s) hb ht htable
    refine ⟨sectorHeader cmdtable, d₁, id, hports, hlists, fun polls rounds ↦ ?_⟩
    rw [run, sectorRun_eq, hd₁, Exec.ok_bind]
    exact (bind_pure _).symm
  | sectorWithNew op s ibuffer cmdtable =>
    obtain ⟨hb, ht⟩ := h
    obtain ⟨d₁, hd₁, hports, hlists⟩ := fillTable_spec
      (d := d.placeTable cmdtable (some ⟨fun _ ↦ 0, fun _ ↦ ⟨0, 0, 0, 0⟩⟩))
      (.createSector op.code s) hb ht (by simp [AhciDriver.placeTable])
    refine ⟨sectorHeader cmdtable, d₁, fun d ↦ d.placeTable cmdtable none, hports, hlists,
      fun polls rounds ↦ ?_⟩
    rw [run, AhciDriver.sectorWithNew]
    simp only [sectorRun_eq, hd₁, Exec.ok_bind]

/-- A call goes through exactly when there is a free slot. -/
theorem IssuePath.run_ne_dangling_iff {path : IssuePath} (h : path.Ready d)
    (hp : PortReady d port r) :
    (∀ polls rounds, path.run port polls rounds d ≠ .error .dangling) ↔ ∃ slot, r.Free slot := by
  obtain ⟨cmdheader, d₁, after, hports, hlists, hrun⟩ := path.run_eq h
  have hp₁ : PortReady d₁ port r := hp.congr hports hlists
  rcases r.exists_first with ⟨slot, hfree, hleast⟩ | hfull
  · refine iff_of_true (fun polls rounds ↦ ?_) ⟨slot, hfree⟩
    obtain ⟨d₂, hd₂, hports₂⟩ := hp₁.issue_of_free hfree hleast
    have hr₂ : (d₂.ports port).registers
        = some { r with ci := r.ci ||| BitVec.twoPow 32 slot } := by
      rw [hports₂, Function.update_self]
    have hwait := waitSector_ne_dangling hp.port_lt hr₂ slot polls rounds
    rw [hrun, AhciDriver.perform, hd₂, Exec.ok_bind]
    simp only
    cases hw : d₂.waitSector port slot polls rounds with
    | error e => exact fun h ↦ hwait (hw.trans h)
    | ok d₃ => exact fun h ↦ by cases h
  · refine iff_of_false (fun hne ↦ hne (fun _ ↦ 0) 0 ?_) (not_exists.mpr hfull)
    rw [hrun, AhciDriver.perform, hp₁.issue_of_full hfull]
    rfl

/-- **The calls are safe exactly when there is a free slot**, and `EmptyCommandSlot` is right in any
case. -/
theorem findsSlot_and_safe_iff (path : IssuePath) (d : AhciDriver) (port : ℕ) (r : PortRegisters)
    (hp : PortReady d port r) (h : path.Ready d) :
    FindsSlot (d.ports port) r ∧ Safe path d port r ↔ ∃ slot, r.Free slot := by
  rw [and_iff_right (findsSlot hp.registers), ← path.run_ne_dangling_iff h hp]
  refine ⟨Safe.inside, fun hin ↦ ⟨hin, fun hfull ↦ ?_⟩⟩
  exact absurd ((path.run_ne_dangling_iff h hp).mp hin) (not_exists.mpr hfull)

/-- The registers of a port with its list at 0x1000, whose commands are all in use. -/
def busyRegisters : PortRegisters := ⟨0x1000, 0, 0, 0xFFFFFFFF⟩

/-- A driver whose ports have these registers. -/
def busyDisk : AhciDriver := { oneDisk with ports := fun _ ↦ ⟨some busyRegisters, true⟩ }

theorem portReady_busyDisk : PortReady busyDisk 0 busyRegisters where
  port_lt := by decide
  registers := rfl
  list_ne := by decide
  list_isSome := rfl

theorem findsSlot_and_safe_iff_busyDisk :
    FindsSlot (busyDisk.ports 0) busyRegisters ∧
      Safe (.sector .write 7 0x3000 0x2000) busyDisk 0 busyRegisters ↔
        ∃ slot, busyRegisters.Free slot :=
  findsSlot_and_safe_iff (.sector .write 7 0x3000 0x2000) busyDisk 0 busyRegisters
    portReady_busyDisk ⟨by decide, by decide, rfl⟩

/-- **With all slots in use** a command is stored in front of the list. -/
theorem not_safe_busyDisk : ¬∀ (path : IssuePath) (d : AhciDriver) (port : ℕ) (r : PortRegisters),
    PortReady d port r → path.Ready d → Safe path d port r := by
  intro h
  have hready : (IssuePath.sector .write 7 0x3000 0x2000).Ready busyDisk :=
    ⟨by decide, by decide, rfl⟩
  have hsafe := h _ busyDisk 0 busyRegisters portReady_busyDisk hready
  obtain ⟨slot, hlt, -, hci⟩ :=
    (IssuePath.run_ne_dangling_iff hready portReady_busyDisk).mp hsafe.inside
  have hall : ∀ slot < 32, busyRegisters.ci.getLsbD slot = true := by decide
  rw [hall slot hlt] at hci
  cases hci

end Chisaka.Ahci
