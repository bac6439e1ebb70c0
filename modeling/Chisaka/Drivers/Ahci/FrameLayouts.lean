import Chisaka.Drivers.Ahci.SectorFrame

/-!
# The sector in the frames of three classes

The driver sends a sector number in a `H2dRegisterFis`, and the device answers with frames of the
classes `D2HRegisterFis` and `PioSetupFis`.  All three keep the number in six registers of the same
names, which lie at the same bytes of a frame (`registers_ofBytes`), and the driver stores the bytes
of the number there in the order of `LbaRegisters` (`registers_createSector`).

Each class has getters of its own that put two registers together.  Those of `PioSetupFis` take the
upper register twice in `LbaHigh`, so that they agree with the others exactly on the sector numbers
whose bytes 2 and 5 are the same (`oneLayout_iff`).
-/

set_option autoImplicit false

namespace Chisaka.Ahci

/-- The registers of a sector number, in the order of its bytes. -/
@[ext] structure LbaRegisters where
  /-- `m_lbaLowReg0`. -/
  low0 : BitVec 8
  /-- `m_lbaMidReg0`. -/
  mid0 : BitVec 8
  /-- `m_lbaHighReg0`. -/
  high0 : BitVec 8
  /-- `m_lbaLowReg1`. -/
  low1 : BitVec 8
  /-- `m_lbaMidReg1`. -/
  mid1 : BitVec 8
  /-- `m_lbaHighReg1`. -/
  high1 : BitVec 8
  deriving DecidableEq

/-- The bytes of a sector number. -/
def LbaRegisters.ofSector (s : BitVec 48) : LbaRegisters where
  low0 := s.extractLsb' 0 8
  mid0 := s.extractLsb' 8 8
  high0 := s.extractLsb' 16 8
  low1 := s.extractLsb' 24 8
  mid1 := s.extractLsb' 32 8
  high1 := s.extractLsb' 40 8

/-! ## The classes -/

/-- The registers of a frame to the device. -/
def H2dRegisterFis.registers (f : H2dRegisterFis) : LbaRegisters :=
  ⟨f.lbaLowReg0, f.lbaMidReg0, f.lbaHighReg0, f.lbaLowReg1, f.lbaMidReg1, f.lbaHighReg1⟩

/-- `D2HRegisterFis`. -/
structure D2HRegisterFis where
  /-- `m_type`. -/
  type : BitVec 8 := 0x34
  /-- `m_i_portMultiplier`. -/
  iPortMultiplier : BitVec 8 := 0
  /-- `m_statusReg`. -/
  statusReg : BitVec 8 := 0
  /-- `m_errorReg`. -/
  errorReg : BitVec 8 := 0
  /-- `m_lbaLowReg0`. -/
  lbaLowReg0 : BitVec 8 := 0
  /-- `m_lbaMidReg0`. -/
  lbaMidReg0 : BitVec 8 := 0
  /-- `m_lbaHighReg0`. -/
  lbaHighReg0 : BitVec 8 := 0
  /-- `m_deviceReg`. -/
  deviceReg : BitVec 8 := 0
  /-- `m_lbaLowReg1`. -/
  lbaLowReg1 : BitVec 8 := 0
  /-- `m_lbaMidReg1`. -/
  lbaMidReg1 : BitVec 8 := 0
  /-- `m_lbaHighReg1`. -/
  lbaHighReg1 : BitVec 8 := 0
  /-- `m_rsv0`. -/
  rsv0 : BitVec 8 := 0
  /-- `m_sectorCountReg`. -/
  sectorCountReg : BitVec 16 := 0
  /-- `m_rsv1`. -/
  rsv1 : BitVec 16 := 0
  /-- `m_rsv2`. -/
  rsv2 : BitVec 32 := 0
  deriving DecidableEq

namespace D2HRegisterFis

/-- `LbaLow`. -/
def lbaLow (f : D2HRegisterFis) : BitVec 16 := H2dRegisterFis.word f.lbaLowReg1 f.lbaLowReg0

/-- `LbaMid`. -/
def lbaMid (f : D2HRegisterFis) : BitVec 16 := H2dRegisterFis.word f.lbaMidReg1 f.lbaMidReg0

/-- `LbaHigh`. -/
def lbaHigh (f : D2HRegisterFis) : BitVec 16 := H2dRegisterFis.word f.lbaHighReg1 f.lbaHighReg0

/-- `Low`, of a volatile frame. -/
def low (f : D2HRegisterFis) : BitVec 16 := H2dRegisterFis.word f.lbaLowReg1 f.lbaLowReg0

/-- `Mid`, of a volatile frame. -/
def mid (f : D2HRegisterFis) : BitVec 16 := H2dRegisterFis.word f.lbaMidReg1 f.lbaMidReg0

/-- `High`, of a volatile frame. -/
def high (f : D2HRegisterFis) : BitVec 16 := H2dRegisterFis.word f.lbaHighReg1 f.lbaHighReg0

/-- The registers of the sector number. -/
def registers (f : D2HRegisterFis) : LbaRegisters :=
  ⟨f.lbaLowReg0, f.lbaMidReg0, f.lbaHighReg0, f.lbaLowReg1, f.lbaMidReg1, f.lbaHighReg1⟩

/-- The frame in the bytes that the device has sent. -/
def ofBytes (b : ℕ → BitVec 8) : D2HRegisterFis where
  type := b 0
  iPortMultiplier := b 1
  statusReg := b 2
  errorReg := b 3
  lbaLowReg0 := b 4
  lbaMidReg0 := b 5
  lbaHighReg0 := b 6
  deviceReg := b 7
  lbaLowReg1 := b 8
  lbaMidReg1 := b 9
  lbaHighReg1 := b 10
  rsv0 := b 11
  sectorCountReg := b 13 ++ b 12
  rsv1 := b 15 ++ b 14
  rsv2 := b 19 ++ b 18 ++ b 17 ++ b 16

end D2HRegisterFis

/-- `PioSetupFis`. -/
structure PioSetupFis where
  /-- `m_type`. -/
  type : BitVec 8 := 0x5f
  /-- `m_i_d_portMultiplier`. -/
  iDPortMultiplier : BitVec 8
  /-- `m_statusReg`. -/
  statusReg : BitVec 8
  /-- `m_errorReg`. -/
  errorReg : BitVec 8
  /-- `m_lbaLowReg0`. -/
  lbaLowReg0 : BitVec 8
  /-- `m_lbaMidReg0`. -/
  lbaMidReg0 : BitVec 8
  /-- `m_lbaHighReg0`. -/
  lbaHighReg0 : BitVec 8
  /-- `m_deviceReg`. -/
  deviceReg : BitVec 8
  /-- `m_lbaLowReg1`. -/
  lbaLowReg1 : BitVec 8
  /-- `m_lbaMidReg1`. -/
  lbaMidReg1 : BitVec 8
  /-- `m_lbaHighReg1`. -/
  lbaHighReg1 : BitVec 8
  /-- `m_rsv0`. -/
  rsv0 : BitVec 8 := 0
  /-- `m_sectorCountReg`. -/
  sectorCountReg : BitVec 16
  /-- `m_rsv1`. -/
  rsv1 : BitVec 8 := 0
  /-- `m_e_status`. -/
  eStatus : BitVec 8
  /-- `m_transferCount`. -/
  transferCount : BitVec 16
  /-- `m_rsv2`. -/
  rsv2 : BitVec 16 := 0
  deriving DecidableEq

namespace PioSetupFis

/-- `LbaLow`. -/
def lbaLow (f : PioSetupFis) : BitVec 16 := H2dRegisterFis.word f.lbaLowReg1 f.lbaLowReg0

/-- `LbaMid`. -/
def lbaMid (f : PioSetupFis) : BitVec 16 := H2dRegisterFis.word f.lbaMidReg1 f.lbaMidReg0

/-- `LbaHigh`: the upper register, twice. -/
def lbaHigh (f : PioSetupFis) : BitVec 16 := H2dRegisterFis.word f.lbaHighReg1 f.lbaHighReg1

/-- The registers of the sector number. -/
def registers (f : PioSetupFis) : LbaRegisters :=
  ⟨f.lbaLowReg0, f.lbaMidReg0, f.lbaHighReg0, f.lbaLowReg1, f.lbaMidReg1, f.lbaHighReg1⟩

/-- The frame in the bytes that the device has sent. -/
def ofBytes (b : ℕ → BitVec 8) : PioSetupFis where
  type := b 0
  iDPortMultiplier := b 1
  statusReg := b 2
  errorReg := b 3
  lbaLowReg0 := b 4
  lbaMidReg0 := b 5
  lbaHighReg0 := b 6
  deviceReg := b 7
  lbaLowReg1 := b 8
  lbaMidReg1 := b 9
  lbaHighReg1 := b 10
  rsv0 := b 11
  sectorCountReg := b 13 ++ b 12
  rsv1 := b 14
  eStatus := b 15
  transferCount := b 17 ++ b 16
  rsv2 := b 19 ++ b 18

end PioSetupFis

/-! ## One layout -/

variable {f : H2dRegisterFis} {g : D2HRegisterFis} {p : PioSetupFis} {s : BitVec 48}

/-- The three classes have the registers at the same bytes. -/
theorem registers_ofBytes (b : ℕ → BitVec 8) :
    (D2HRegisterFis.ofBytes b).registers = (H2dRegisterFis.ofBytes b).registers ∧
      (PioSetupFis.ofBytes b).registers = (H2dRegisterFis.ofBytes b).registers :=
  ⟨rfl, rfl⟩

/-- The driver stores the bytes of a sector number in this order. -/
theorem registers_createSector (code : BitVec 8) (a : BitVec 64) :
    (H2dRegisterFis.createSector code a).registers = .ofSector (a.extractLsb' 0 48) := by
  have hbyte := H2dRegisterFis.byte_eq a
  have hlow : ∀ i, i + 8 ≤ 48 → (a.extractLsb' 0 48).extractLsb' i 8 = a.extractLsb' i 8 := by
    intro i hi
    have h := Bits.extract_extract_low a (m := 48) hi (le_refl 48)
    rwa [BitVec.setWidth_eq] at h
  ext1
  · exact (hbyte 0).trans (hlow 0 (by decide)).symm
  · exact (hbyte 8).trans (hlow 8 (by decide)).symm
  · exact (hbyte 16).trans (hlow 16 (by decide)).symm
  · exact (hbyte 24).trans (hlow 24 (by decide)).symm
  · exact (hbyte 32).trans (hlow 32 (by decide)).symm
  · exact (hbyte 40).trans (hlow 40 (by decide)).symm

/-- **What the getters of the three classes should say** of one sector number: the same, and the
sector number is found again. -/
structure OneLayout (f : H2dRegisterFis) (g : D2HRegisterFis) (p : PioSetupFis) (s : BitVec 48) :
    Prop where
  /-- `LbaLow`. -/
  low : g.lbaLow = f.lbaLow ∧ p.lbaLow = f.lbaLow
  /-- `LbaMid`. -/
  mid : g.lbaMid = f.lbaMid ∧ p.lbaMid = f.lbaMid
  /-- `LbaHigh`. -/
  high : g.lbaHigh = f.lbaHigh ∧ p.lbaHigh = f.lbaHigh
  /-- The getters of a volatile frame. -/
  volatile : g.low = f.lbaLow ∧ g.mid = f.lbaMid ∧ g.high = f.lbaHigh
  /-- The sector number. -/
  sector : sectorOf f.lbaLow f.lbaMid f.lbaHigh = s.setWidth 64

namespace H2dRegisterFis

theorem word_inj {a b c d : BitVec 8} : word a b = word c d ↔ a = c ∧ b = d := by
  refine ⟨fun h ↦ ⟨?_, ?_⟩, fun ⟨ha, hb⟩ ↦ by rw [ha, hb]⟩
  · rw [← high_word a b, h, high_word]
  · rw [← low_word a b, h, low_word]

/-- The getters of a frame to the device spell out the sector number. -/
theorem sectorOf_registers (hf : f.registers = .ofSector s) :
    sectorOf f.lbaLow f.lbaMid f.lbaHigh = s.setWidth 64 := by
  obtain ⟨h0, h1, h2, h3, h4, h5⟩ := LbaRegisters.mk.inj hf
  rw [sectorOf, lbaLow, lbaMid, lbaHigh]
  simp only [low_word, high_word, h0, h1, h2, h3, h4, h5]
  rw [Bits.extract_append s 32 8 8, Bits.extract_append s 24 8 16, Bits.extract_append s 16 8 24,
    Bits.extract_append s 8 8 32, Bits.extract_append s 0 8 40]
  exact congrArg _ BitVec.extractLsb'_eq_self

end H2dRegisterFis

/-- **The classes agree exactly on the sector numbers whose bytes 2 and 5 are the same.** -/
theorem oneLayout_iff (f : H2dRegisterFis) (g : D2HRegisterFis) (p : PioSetupFis) (s : BitVec 48)
    (hf : f.registers = .ofSector s) (hg : g.registers = .ofSector s)
    (hp : p.registers = .ofSector s) :
    OneLayout f g p s ↔ s.extractLsb' 16 8 = s.extractLsb' 40 8 := by
  obtain ⟨f0, f1, f2, f3, f4, f5⟩ := LbaRegisters.mk.inj hf
  obtain ⟨g0, g1, g2, g3, g4, g5⟩ := LbaRegisters.mk.inj hg
  obtain ⟨p0, p1, -, p3, p4, p5⟩ := LbaRegisters.mk.inj hp
  have hlow : g.lbaLow = f.lbaLow ∧ p.lbaLow = f.lbaLow := by
    rw [D2HRegisterFis.lbaLow, PioSetupFis.lbaLow, H2dRegisterFis.lbaLow, f0, f3, g0, g3, p0, p3]
    exact ⟨rfl, rfl⟩
  have hmid : g.lbaMid = f.lbaMid ∧ p.lbaMid = f.lbaMid := by
    rw [D2HRegisterFis.lbaMid, PioSetupFis.lbaMid, H2dRegisterFis.lbaMid, f1, f4, g1, g4, p1, p4]
    exact ⟨rfl, rfl⟩
  have hhigh : g.lbaHigh = f.lbaHigh := by
    rw [D2HRegisterFis.lbaHigh, H2dRegisterFis.lbaHigh, f2, f5, g2, g5]
  have hiff : p.lbaHigh = f.lbaHigh ↔ s.extractLsb' 16 8 = s.extractLsb' 40 8 := by
    rw [PioSetupFis.lbaHigh, H2dRegisterFis.lbaHigh, p5, f5, f2, H2dRegisterFis.word_inj,
      and_iff_right rfl, eq_comm]
  constructor
  · exact fun h ↦ hiff.mp h.high.2
  · intro h
    exact ⟨hlow, hmid, ⟨hhigh, hiff.mpr h⟩, ⟨hlow.1, hmid.1, hhigh⟩,
      H2dRegisterFis.sectorOf_registers hf⟩

/-- A frame that holds a sector number, and is zero elsewhere. -/
def sectorBytes (s : BitVec 48) : ℕ → BitVec 8
  | 4 => s.extractLsb' 0 8
  | 5 => s.extractLsb' 8 8
  | 6 => s.extractLsb' 16 8
  | 8 => s.extractLsb' 24 8
  | 9 => s.extractLsb' 32 8
  | 10 => s.extractLsb' 40 8
  | _ => 0

theorem registers_sectorBytes (s : BitVec 48) :
    (H2dRegisterFis.ofBytes (sectorBytes s)).registers = .ofSector s := rfl

theorem oneLayout_iff_sectorBytes :
    OneLayout (.ofBytes (sectorBytes 7)) (.ofBytes (sectorBytes 7)) (.ofBytes (sectorBytes 7)) 7 ↔
      (7 : BitVec 48).extractLsb' 16 8 = (7 : BitVec 48).extractLsb' 40 8 :=
  oneLayout_iff _ _ _ 7 (registers_sectorBytes 7)
    ((registers_ofBytes _).1.trans (registers_sectorBytes 7))
    ((registers_ofBytes _).2.trans (registers_sectorBytes 7))

/-- **Of sector `0x10000`** a `PioSetupFis` says that the high word is 0, and the others say 1. -/
theorem not_oneLayout_sectorBytes :
    (¬∀ (f : H2dRegisterFis) (g : D2HRegisterFis) (p : PioSetupFis) (s : BitVec 48),
      f.registers = .ofSector s → g.registers = .ofSector s → p.registers = .ofSector s →
        OneLayout f g p s) ∧
    (H2dRegisterFis.ofBytes (sectorBytes 0x10000)).lbaHigh = 1 ∧
      (PioSetupFis.ofBytes (sectorBytes 0x10000)).lbaHigh = 0 := by
  have hf : (H2dRegisterFis.ofBytes (sectorBytes 0x10000)).lbaHigh = 1 := by decide
  have hp : (PioSetupFis.ofBytes (sectorBytes 0x10000)).lbaHigh = 0 := by decide
  refine ⟨fun h ↦ ?_, hf, hp⟩
  have hr := registers_sectorBytes 0x10000
  have hlayout := h _ _ _ 0x10000 hr ((registers_ofBytes _).1.trans hr)
    ((registers_ofBytes _).2.trans hr)
  have heq := hlayout.high.2
  rw [hf, hp] at heq
  exact absurd heq (by decide)

end Chisaka.Ahci
