import Chisaka.Drivers.Ahci.SectorCommand

/-!
# The sector in a command frame

A frame keeps a sector number of 48 bits in three registers of two bytes.  The bytes do not lie as
one would think: the low bytes of the three registers hold the lower half of the number, and the
high bytes hold the upper half.  `encodes_and_ne` says that the frames of `CreateRead` and
`CreateWrite` encode the sector so, and that different sectors have different frames.
-/

set_option autoImplicit false

namespace Chisaka.Ahci

namespace H2dRegisterFis

/-! ## The registers -/

/-- What the getters of the registers do: a byte goes above another one. -/
def word (reg1 reg0 : BitVec 8) : BitVec 16 :=
  (reg1.setWidth 32 <<< 8 ||| reg0.setWidth 32).setWidth 16

/-- `LbaLow`. -/
def lbaLow (f : H2dRegisterFis) : BitVec 16 := word f.lbaLowReg1 f.lbaLowReg0

/-- `LbaMid`. -/
def lbaMid (f : H2dRegisterFis) : BitVec 16 := word f.lbaMidReg1 f.lbaMidReg0

/-- `LbaHigh`. -/
def lbaHigh (f : H2dRegisterFis) : BitVec 16 := word f.lbaHighReg1 f.lbaHighReg0

theorem word_eq (reg1 reg0 : BitVec 8) : word reg1 reg0 = reg1 ++ reg0 := by
  rw [word, Bits.shiftLeft_or_setWidth, BitVec.setWidth_setWidth_of_le _ (by decide)]
  exact BitVec.setWidth_eq _

theorem low_word (reg1 reg0 : BitVec 8) : (word reg1 reg0).extractLsb' 0 8 = reg0 := by
  rw [word_eq, BitVec.extractLsb'_append_eq_right]

theorem high_word (reg1 reg0 : BitVec 8) : (word reg1 reg0).extractLsb' 8 8 = reg1 := by
  rw [word_eq, BitVec.extractLsb'_append_eq_left]

end H2dRegisterFis

/-! ## The sector -/

/-- The frame that a function makes. -/
def SectorOp.fis : SectorOp → BitVec 64 → H2dRegisterFis
  | read => H2dRegisterFis.createRead
  | write => H2dRegisterFis.createWrite

/-- The sector number that the three registers hold: the low bytes, and above them the high ones. -/
def sectorOf (low mid high : BitVec 16) : BitVec 64 :=
  (high.extractLsb' 8 8 ++ mid.extractLsb' 8 8 ++ low.extractLsb' 8 8 ++
    high.extractLsb' 0 8 ++ mid.extractLsb' 0 8 ++ low.extractLsb' 0 8).setWidth 64

/-- The frame encodes the sector. -/
structure Encodes (f : H2dRegisterFis) (s : BitVec 64) : Prop where
  /-- Bits 0 to 7. -/
  low0 : f.lbaLow.extractLsb' 0 8 = s.extractLsb' 0 8
  /-- Bits 8 to 15. -/
  mid0 : f.lbaMid.extractLsb' 0 8 = s.extractLsb' 8 8
  /-- Bits 16 to 23. -/
  high0 : f.lbaHigh.extractLsb' 0 8 = s.extractLsb' 16 8
  /-- Bits 24 to 31. -/
  low1 : f.lbaLow.extractLsb' 8 8 = s.extractLsb' 24 8
  /-- Bits 32 to 39. -/
  mid1 : f.lbaMid.extractLsb' 8 8 = s.extractLsb' 32 8
  /-- Bits 40 to 47. -/
  high1 : f.lbaHigh.extractLsb' 8 8 = s.extractLsb' 40 8
  /-- The sector is found again. -/
  sector : sectorOf f.lbaLow f.lbaMid f.lbaHigh = s

variable {s s' : BitVec 64}

theorem SectorOp.fis_eq (op : SectorOp) (s : BitVec 64) :
    op.fis s = .createSector op.code s := by
  cases op <;> rfl

/-- **The registers hold the sector.** -/
theorem encodes (op : SectorOp) (hs : s < 2 ^ 48) : Encodes (op.fis s) s := by
  have hbyte := H2dRegisterFis.byte_eq s
  have hlba : ∀ f : H2dRegisterFis, sectorOf f.lbaLow f.lbaMid f.lbaHigh = f.lba.setWidth 64 := by
    intro f
    simp only [sectorOf, H2dRegisterFis.lbaLow, H2dRegisterFis.lbaMid, H2dRegisterFis.lbaHigh,
      H2dRegisterFis.low_word, H2dRegisterFis.high_word, H2dRegisterFis.lba]
  rw [op.fis_eq]
  exact {
    low0 := (H2dRegisterFis.low_word _ _).trans (hbyte 0)
    mid0 := (H2dRegisterFis.low_word _ _).trans (hbyte 8)
    high0 := (H2dRegisterFis.low_word _ _).trans (hbyte 16)
    low1 := (H2dRegisterFis.high_word _ _).trans (hbyte 24)
    mid1 := (H2dRegisterFis.high_word _ _).trans (hbyte 32)
    high1 := (H2dRegisterFis.high_word _ _).trans (hbyte 40)
    sector := by rw [hlba, H2dRegisterFis.lba_setWidth op.code hs] }

/-- **A frame encodes its sector, and the frames of different sectors are different**, be they for
reading or for writing. -/
theorem encodes_and_ne (op op' : SectorOp) (s s' : BitVec 64) (hs : s < 2 ^ 48)
    (hs' : s' < 2 ^ 48) : Encodes (op.fis s) s ∧ (s ≠ s' → op.fis s ≠ op'.fis s') := by
  refine ⟨encodes op hs, fun hne heq ↦ hne ?_⟩
  calc s = sectorOf (op.fis s).lbaLow (op.fis s).lbaMid (op.fis s).lbaHigh :=
        (encodes op hs).sector.symm
    _ = sectorOf (op'.fis s').lbaLow (op'.fis s').lbaMid (op'.fis s').lbaHigh := by rw [heq]
    _ = s' := (encodes op' hs').sector

theorem encodes_and_ne_top : Encodes (SectorOp.read.fis 0xFFFFFFFFFFFF) 0xFFFFFFFFFFFF ∧
    ((0xFFFFFFFFFFFF : BitVec 64) ≠ 7 → SectorOp.read.fis 0xFFFFFFFFFFFF ≠ SectorOp.write.fis 7) :=
  encodes_and_ne .read .write 0xFFFFFFFFFFFF 7 (by decide) (by decide)

end Chisaka.Ahci
