import Chisaka.Lib.Bits
import Chisaka.Types

/-!
# The structures of a command

What the driver and the controller tell each other lies in memory: a slot of the command list holds
a `CommandHeader`, which points to a `CommandTable`, which holds the command itself as a frame of
bytes (`H2dRegisterFis`) and a `PrdtEntry` for the buffer.

Each is a record of the fields of its class.  Only the frame is also seen as bytes, because
`SetCommandFis` copies it into an array of bytes, where the device reads it.
-/

set_option autoImplicit false

namespace Chisaka.Ahci

/-! ## The command frame -/

/-- `ExtractAddress`: the bytes of a sector number, lowest first. -/
def extractAddress (address : BitVec 64) :
    BitVec 16 × BitVec 16 × BitVec 16 × BitVec 16 × BitVec 16 × BitVec 16 :=
  ((address &&& 0xFF#64).setWidth 16,
   (address >>> 8 &&& 0xFF#64).setWidth 16,
   (address >>> 16 &&& 0xFF#64).setWidth 16,
   (address >>> 24 &&& 0xFF#64).setWidth 16,
   (address >>> 32 &&& 0xFF#64).setWidth 16,
   (address >>> 40 &&& 0xFF#64).setWidth 16)

/-- `H2dRegisterFis`. -/
structure H2dRegisterFis where
  /-- `m_type`. -/
  type : BitVec 8 := 0x27
  /-- `m_c_portMultiplier`. -/
  cPortMultiplier : BitVec 8 := 0
  /-- `m_commandReg`. -/
  commandReg : BitVec 8 := 0
  /-- `m_featuresReg0`. -/
  featuresReg0 : BitVec 8 := 0
  /-- `m_lbaLowReg0`. -/
  lbaLowReg0 : BitVec 8 := 0
  /-- `m_lbaMidReg0`. -/
  lbaMidReg0 : BitVec 8 := 0
  /-- `m_lbaHighReg0`. -/
  lbaHighReg0 : BitVec 8 := 0
  /-- `m_deviceReg`. -/
  deviceReg : BitVec 8 := 0
  /-- `m_lbaLowReg1`. -/
  lbaLowReg1 : BitVec 8 := 0
  /-- `m_lbaMidReg1`. -/
  lbaMidReg1 : BitVec 8 := 0
  /-- `m_lbaHighReg1`. -/
  lbaHighReg1 : BitVec 8 := 0
  /-- `m_featuresReg1`. -/
  featuresReg1 : BitVec 8 := 0
  /-- `m_sectorCountReg`. -/
  sectorCountReg : BitVec 16 := 0
  /-- `m_rsv0`. -/
  rsv0 : BitVec 8 := 0
  /-- `m_controlReg`. -/
  controlReg : BitVec 8 := 0
  /-- `m_rsv1`. -/
  rsv1 : BitVec 32 := 0
  deriving DecidableEq

namespace H2dRegisterFis

/-- What `CreateWrite` and `CreateRead` share: a command for one sector. -/
def createSector (code : BitVec 8) (sectorAddress : BitVec 64) : H2dRegisterFis :=
  let (a0, a1, a2, a3, a4, a5) := extractAddress sectorAddress
  { sectorCountReg := 1
    lbaLowReg0 := a0.setWidth 8
    lbaMidReg0 := a1.setWidth 8
    lbaHighReg0 := a2.setWidth 8
    lbaLowReg1 := a3.setWidth 8
    lbaMidReg1 := a4.setWidth 8
    lbaHighReg1 := a5.setWidth 8
    deviceReg := 0x40
    cPortMultiplier := 0x80
    commandReg := code }

/-- `WRITE_DMA_EXT_CODE`. -/
def writeDmaExtCode : BitVec 8 := 0x35

/-- `READ_DMA_EXT_CODE`. -/
def readDmaExtCode : BitVec 8 := 0x25

/-- `CreateWrite`. -/
def createWrite (sectorAddress : BitVec 64) : H2dRegisterFis :=
  createSector writeDmaExtCode sectorAddress

/-- `CreateRead`. -/
def createRead (sectorAddress : BitVec 64) : H2dRegisterFis :=
  createSector readDmaExtCode sectorAddress

/-- `IsC`. -/
def isC (f : H2dRegisterFis) : Bool := f.cPortMultiplier &&& 0x80#8 != 0

/-- The sector number that the six registers spell out. -/
def lba (f : H2dRegisterFis) : BitVec 48 :=
  f.lbaHighReg1 ++ f.lbaMidReg1 ++ f.lbaLowReg1 ++ f.lbaHighReg0 ++ f.lbaMidReg0 ++ f.lbaLowReg0

/-- The bytes of the frame, as they lie in memory. -/
def bytes (f : H2dRegisterFis) : List (BitVec 8) :=
  [f.type, f.cPortMultiplier, f.commandReg, f.featuresReg0,
   f.lbaLowReg0, f.lbaMidReg0, f.lbaHighReg0, f.deviceReg,
   f.lbaLowReg1, f.lbaMidReg1, f.lbaHighReg1, f.featuresReg1,
   f.sectorCountReg.extractLsb' 0 8, f.sectorCountReg.extractLsb' 8 8, f.rsv0, f.controlReg,
   f.rsv1.extractLsb' 0 8, f.rsv1.extractLsb' 8 8, f.rsv1.extractLsb' 16 8,
   f.rsv1.extractLsb' 24 8]

/-- The frame that the device finds in the bytes at the start of a command table. -/
def ofBytes (b : ℕ → BitVec 8) : H2dRegisterFis where
  type := b 0
  cPortMultiplier := b 1
  commandReg := b 2
  featuresReg0 := b 3
  lbaLowReg0 := b 4
  lbaMidReg0 := b 5
  lbaHighReg0 := b 6
  deviceReg := b 7
  lbaLowReg1 := b 8
  lbaMidReg1 := b 9
  lbaHighReg1 := b 10
  featuresReg1 := b 11
  sectorCountReg := b 13 ++ b 12
  rsv0 := b 14
  controlReg := b 15
  rsv1 := b 19 ++ b 18 ++ b 17 ++ b 16

/-- **A frame that is copied byte by byte is found again.** -/
theorem ofBytes_bytes (f : H2dRegisterFis) (b : ℕ → BitVec 8)
    (h : ∀ i < 20, b i = f.bytes.getD i 0) : ofBytes b = f := by
  have h16 : f.sectorCountReg.extractLsb' 8 8 ++ f.sectorCountReg.extractLsb' 0 8
      = f.sectorCountReg.extractLsb' 0 16 := Bits.extract_append _ 0 8 8
  have h32 : f.rsv1.extractLsb' 24 8 ++ f.rsv1.extractLsb' 16 8 ++ f.rsv1.extractLsb' 8 8
      ++ f.rsv1.extractLsb' 0 8 = f.rsv1.extractLsb' 0 32 := by
    rw [Bits.extract_append f.rsv1 16 8 8, Bits.extract_append f.rsv1 8 8 16]
    exact Bits.extract_append f.rsv1 0 8 24
  rw [BitVec.extractLsb'_eq_self] at h16 h32
  simp only [ofBytes, h 0 (by decide), h 1 (by decide), h 2 (by decide), h 3 (by decide),
    h 4 (by decide), h 5 (by decide), h 6 (by decide), h 7 (by decide), h 8 (by decide),
    h 9 (by decide), h 10 (by decide), h 11 (by decide), h 12 (by decide), h 13 (by decide),
    h 14 (by decide), h 15 (by decide), h 16 (by decide), h 17 (by decide), h 18 (by decide),
    h 19 (by decide)]
  simp only [bytes, List.getD_cons_zero, List.getD_cons_succ, h16, h32]

@[simp] theorem isC_createSector (code : BitVec 8) (s : BitVec 64) :
    (createSector code s).isC = true := by
  rw [show (createSector code s).isC = (0x80#8 &&& 0x80#8 != 0) from rfl]
  decide

@[simp] theorem commandReg_createSector (code : BitVec 8) (s : BitVec 64) :
    (createSector code s).commandReg = code := rfl

@[simp] theorem sectorCountReg_createSector (code : BitVec 8) (s : BitVec 64) :
    (createSector code s).sectorCountReg = 1 := rfl

/-- A byte of the sector number, on its way through a 16-bit value. -/
theorem byte_eq (s : BitVec 64) (i : ℕ) :
    ((s >>> i &&& 0xFF#64).setWidth 16).setWidth 8 = s.extractLsb' i 8 := by
  have h := Bits.setWidth_ushiftRight_and s i 8 8
  rw [BitVec.setWidth_eq] at h
  rw [BitVec.setWidth_setWidth_of_le _ (by decide)]
  exact h

/-- The registers spell out the sector number, as far as its 48 bits go. -/
theorem lba_createSector (code : BitVec 8) (s : BitVec 64) :
    (createSector code s).lba = s.extractLsb' 0 48 := by
  have h0 : ((s &&& 0xFF#64).setWidth 16).setWidth 8 = s.extractLsb' 0 8 := byte_eq s 0
  simp only [lba, createSector, extractAddress, h0, byte_eq]
  rw [Bits.extract_append s 32 8 8, Bits.extract_append s 24 8 16, Bits.extract_append s 16 8 24,
    Bits.extract_append s 8 8 32]
  exact Bits.extract_append s 0 8 40

end H2dRegisterFis

/-! ## The entry of the buffer -/

/-- `PrdtEntry`. -/
structure PrdtEntry where
  /-- `m_dba`. -/
  dba : BitVec 32
  /-- `m_dbau`. -/
  dbau : BitVec 32
  /-- `resvered`. -/
  resvered : BitVec 32
  /-- `m_i_dbc`. -/
  iDbc : BitVec 32
  deriving DecidableEq

namespace PrdtEntry

/-- `PrdtEntry(dataBase, interrupt, dataSize)`: the address in two halves, and the byte count with
the interrupt bit.  The bit is set whatever `interrupt` is. -/
def new (dataBase : BitVec 64) (interrupt : Bool) (dataSize : BitVec 32) : Exec PrdtEntry := do
  kassert (dataBase &&& 0x1#64 = 0)
  kassert (dataSize &&& 0x01#32 ≠ 0)
  let word := dataSize &&& 0x3FFFFF#32
  let word := if interrupt then word ||| 0x80000000#32 else word
  return {
    dba := (dataBase &&& 0xFFFFFFFF#64).setWidth 32
    dbau := (dataBase >>> 32).setWidth 32
    resvered := 0
    iDbc := word ||| 0x80000000#32 }

/-- `DataBaseAddress`. -/
def dataBaseAddress (e : PrdtEntry) : BitVec 64 :=
  e.dbau.setWidth 64 <<< 32 ||| e.dba.setWidth 64

/-- `DataByteCount`. -/
def dataByteCount (e : PrdtEntry) : BitVec 32 := e.iDbc &&& 0x3FFFFF#32

end PrdtEntry

/-! ## The command header -/

/-- `CommandHeader`. -/
structure CommandHeader where
  /-- `m_p_w_a_cfl`. -/
  pWACfl : BitVec 8
  /-- `m_pmp_c_b_r`. -/
  pmpCBR : BitVec 8
  /-- `m_prdtl`. -/
  prdtl : BitVec 16
  /-- `m_prdbc`. -/
  prdbc : BitVec 32
  /-- `m_ctba`. -/
  ctba : BitVec 32
  /-- `m_ctbau`. -/
  ctbau : BitVec 32
  deriving DecidableEq

namespace CommandHeader

/-- `CommandHeader(commandTableBase, prdtl, controlbyte1, controlbyte2)`. -/
def new (commandTableBase : BitVec 64) (prdtl : BitVec 16) (controlbyte1 controlbyte2 : BitVec 8) :
    Exec CommandHeader := do
  kassert (¬(controlbyte1 &&& 0b1000#8 ≠ 0))
  return {
    pWACfl := controlbyte2
    pmpCBR := controlbyte1
    prdtl := prdtl
    prdbc := 0
    ctbau := (commandTableBase >>> 32).setWidth 32
    ctba := (commandTableBase &&& 0xFFFFFFFF#64).setWidth 32 }

/-- `CommandTableBase`. -/
def commandTableBase (h : CommandHeader) : BitVec 64 :=
  h.ctbau.setWidth 64 <<< 32 ||| h.ctba.setWidth 64

/-- `Cfl`. -/
def cfl (h : CommandHeader) : BitVec 8 := h.pWACfl &&& 0x1F#8

end CommandHeader

/-- `CommandList`. -/
structure CommandList where
  /-- `m_headers`. -/
  headers : ℕ → CommandHeader

/-! ## The command table -/

/-- `CommandTable`. -/
structure CommandTable where
  /-- `m_cfis`, of 64 bytes. -/
  cfis : ℕ → BitVec 8
  /-- `m_prdt`, of one entry. -/
  prdt : ℕ → PrdtEntry

namespace CommandTable

/-- `PRDT_SLOTS`. -/
def prdtSlots : ℕ := 1

/-- `SetCommandFis`: copy the bytes of the frame. -/
def setCommandFis (t : CommandTable) (fis : H2dRegisterFis) : CommandTable :=
  { t with cfis := fun i ↦ if i < 20 then fis.bytes.getD i 0 else t.cfis i }

/-- `SetPrdtEntry`. -/
def setPrdtEntry (t : CommandTable) (entry : ℕ) (prdt : PrdtEntry) : Exec CommandTable := do
  kassert (entry < prdtSlots)
  return { t with prdt := Function.update t.prdt entry prdt }

/-- There is room for one entry. -/
theorem setPrdtEntry_zero (t : CommandTable) (prdt : PrdtEntry) : t.setPrdtEntry 0 prdt
    = .ok { t with prdt := Function.update t.prdt 0 prdt } := rfl

/-- The frame in a table is the one that was put there. -/
theorem ofBytes_setCommandFis (t : CommandTable) (fis : H2dRegisterFis) :
    H2dRegisterFis.ofBytes (t.setCommandFis fis).cfis = fis :=
  fis.ofBytes_bytes _ fun _ hi ↦ if_pos hi

end CommandTable

end Chisaka.Ahci
