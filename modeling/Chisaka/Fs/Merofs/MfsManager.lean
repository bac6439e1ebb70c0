import Mathlib.Logic.Function.Basic
import Chisaka.Types

/-!
# Formatting a disk

`MfsManager` divides a disk into the super block, the inode partition and the data partition, and
writes all three.  A disk is a map from sectors to what was written there, `none` where nothing
was, and there is one for each port of the driver.  A sector holds a `SuperBlock`, an `InodeBlock`
of seven inodes or a `DataBlock`.

The super block goes to the disk that the manager was given, the inodes and the data blocks to the
disk of port 0, whichever the other is.  The frame of a command has 48 bits for the sector, and what
is above them is lost.

The functions are those of the class.  The number of inodes and of data blocks, which the
constructor of the class fixes, are arguments, and so are the buffers that it takes from the heap.
-/

set_option autoImplicit false

namespace Chisaka.Merofs

/-! ## What is on the disk -/

/-- `SuperBlock`. -/
structure SuperBlock where
  /-- `totalPhysBlocks`. -/
  totalPhysBlocks : ℕ
  /-- `totalInodeBlocks`. -/
  totalInodeBlocks : ℕ
  /-- `totalInodes`. -/
  totalInodes : ℕ
  /-- `freeInodes`. -/
  freeInodes : ℕ
  /-- `usedInodes`. -/
  usedInodes : ℕ
  /-- `totalDataBlocks`. -/
  totalDataBlocks : ℕ
  /-- `freeDataBlocks`. -/
  freeDataBlocks : ℕ
  /-- `usedDataBlocks`. -/
  usedDataBlocks : ℕ
  /-- `freeInodeHead`. -/
  freeInodeHead : ℕ
  /-- `freeDataBlockHead`. -/
  freeDataBlockHead : ℕ
  deriving DecidableEq

/-- `DiskInode::AddressStruct`. -/
structure AddressStruct where
  /-- `direct`. -/
  direct : ℕ → ℕ
  /-- `indirect`. -/
  indirect : ℕ
  /-- `doubleIndirect`. -/
  doubleIndirect : ℕ

/-- `DiskInode`. -/
structure DiskInode where
  /-- `type`. -/
  type : UInt8
  /-- `data.blockAddr`, which shares its place with `nextFreeInode`. -/
  blockAddr : AddressStruct
  /-- `rsv`. -/
  rsv : ℕ → UInt8

/-- The size of a `DiskInode`. -/
def sizeofDiskInode : ℕ := 64

/-- `DiskInode::Type::File`. -/
def DiskInode.file : UInt8 := 1

/-- `nextFreeInode`: the first word of the union. -/
def DiskInode.nextFreeInode (i : DiskInode) : ℕ := i.blockAddr.direct 0

/-- Assign `nextFreeInode`. -/
def DiskInode.setNextFreeInode (i : DiskInode) (next : ℕ) : DiskInode :=
  { i with blockAddr := { i.blockAddr with direct := Function.update i.blockAddr.direct 0 next } }

/-- `InodeBlock::INODES`. -/
def inodes : ℕ := 7

/-- `InodeBlock`. -/
structure InodeBlock where
  /-- `diskinodes`. -/
  diskinodes : ℕ → DiskInode
  /-- `rsv`. -/
  rsv : ℕ → UInt8

/-- `DataBlock`, as a member of the list of free blocks. -/
structure DataBlock where
  /-- `used`. -/
  used : Bool
  /-- `links.prev`. -/
  prev : ℕ
  /-- `links.next`. -/
  next : ℕ
  deriving DecidableEq

/-- The contents of a sector. -/
inductive Sector
  | superBlock (b : SuperBlock)
  | inodeBlock (b : InodeBlock)
  | dataBlock (b : DataBlock)

/-- `SECTOR_BYTES`. -/
def sectorSize : ℕ := 512

/-! ## The manager -/

/-- `MfsManager`, with its buffers and the disks. -/
structure MfsManager where
  /-- `m_superBlockBase`. -/
  superBlockBase : ℕ := 0
  /-- `m_inodeBase`. -/
  inodeBase : ℕ := 0
  /-- `m_dataBlockBase`. -/
  dataBlockBase : ℕ := 0
  /-- `*m_sbBuffer`. -/
  sbBuffer : SuperBlock
  /-- `*m_inodeBuffer`. -/
  inodeBuffer : InodeBlock
  /-- The port of `m_disk`. -/
  port : ℕ
  /-- The disks, by their ports. -/
  disks : ℕ → ℕ → Option Sector

namespace MfsManager

/-- `WriteSector` of the driver: the frame carries 48 bits of the sector number. -/
def writeSector (m : MfsManager) (port sector : ℕ) (contents : Sector) : MfsManager :=
  { m with
    disks := Function.update m.disks port
      (Function.update (m.disks port) (sector % 2 ^ 48) (some contents)) }

/-- `ReadSector` of the driver, as far as the contents are concerned. -/
def readSector (m : MfsManager) (port sector : ℕ) : Option Sector :=
  m.disks port (sector % 2 ^ 48)

section WriteSector

variable {m : MfsManager} {port sector p k : ℕ} {contents : Sector}

theorem disks_writeSector_self (h : sector < 2 ^ 48) :
    (m.writeSector port sector contents).disks port sector = some contents := by
  simp only [writeSector, Nat.mod_eq_of_lt h, Function.update_self]

theorem disks_writeSector_of_ne (hne : p = port → k ≠ sector % 2 ^ 48) :
    (m.writeSector port sector contents).disks p k = m.disks p k := by
  simp only [writeSector]
  by_cases hp : p = port
  · rw [hp, Function.update_self, Function.update_of_ne (hne hp)]
  · rw [Function.update_of_ne hp]

/-- A sector holds what was written there, or what it held before. -/
theorem disks_writeSector_cases (m : MfsManager) (port sector p k : ℕ) (contents : Sector) :
    (m.writeSector port sector contents).disks p k = m.disks p k ∨
      p = port ∧ (m.writeSector port sector contents).disks p k = some contents := by
  by_cases hne : p = port → k ≠ sector % 2 ^ 48
  · exact .inl (disks_writeSector_of_ne hne)
  · obtain ⟨rfl, rfl⟩ : p = port ∧ k = sector % 2 ^ 48 := by
      simpa using hne
    exact .inr ⟨rfl, by simp only [writeSector, Function.update_self]⟩

end WriteSector

/-- `FlushSuperBlock`. -/
def flushSuperBlock (m : MfsManager) : MfsManager :=
  m.writeSector m.port 0 (.superBlock m.sbBuffer)

/-- `InitialiseSuperBlock`. -/
def initialiseSuperBlock (maxInodes maxDataBlocks : ℕ) (m : MfsManager) : MfsManager :=
  let totalInodeBytes := mul64 maxInodes sizeofDiskInode
  let inodeSectors := totalInodeBytes / sectorSize
  flushSuperBlock { m with
    sbBuffer := {
      totalInodeBlocks := inodeSectors
      totalInodes := maxInodes
      freeInodes := maxInodes
      usedInodes := 0
      totalDataBlocks := maxDataBlocks
      freeDataBlocks := maxDataBlocks
      usedDataBlocks := 0
      freeInodeHead := 0
      freeDataBlockHead := 0
      totalPhysBlocks := add64 maxDataBlocks inodeSectors }
    superBlockBase := 0 }

/-- `InitialiseFreeInode`. -/
def initialiseFreeInode (nextInode : ℕ) : DiskInode :=
  let inode : DiskInode := {
    type := DiskInode.file
    blockAddr := {
      direct := fun i ↦ 0xfffffffffffffff0 + i
      indirect := 0xaaaaaaaaaaaaaaaa
      doubleIndirect := 0xeeeeeeeeeeeeeeee }
    rsv := fun _ ↦ 0x99 }
  inode.setNextFreeInode nextInode

/-- The inner loop of `InitialiseInodes`: the inodes of a sector are made one after the other, each
with the number of its successor.  The state is the buffer and `currentInode`. -/
def initialiseInode (s : InodeBlock × ℕ) (j : ℕ) : InodeBlock × ℕ :=
  let (b, currentInode) := s
  let inode := initialiseFreeInode (add64 currentInode 1)
  ({ b with diskinodes := Function.update b.diskinodes j inode }, add64 currentInode 1)

/-- The buffer after `Aii::Memset(m_inodeBuffer, 0xBB, 512)`. -/
def filledInodeBlock : InodeBlock where
  diskinodes _ := ⟨0xBB, ⟨fun _ ↦ 0xbbbbbbbbbbbbbbbb, 0xbbbbbbbbbbbbbbbb, 0xbbbbbbbbbbbbbbbb⟩,
    fun _ ↦ 0xBB⟩
  rsv _ := 0xBB

/-- The outer loop of `InitialiseInodes`, over the manager and `currentInode`. -/
def initialiseInodeSector (s : MfsManager × ℕ) (currSector : ℕ) : MfsManager × ℕ :=
  let (m, currentInode) := s
  let (b, currentInode) :=
    (List.range inodes).foldl initialiseInode (filledInodeBlock, currentInode)
  let m := { m with inodeBuffer := b }
  (m.writeSector 0 (add64 m.inodeBase currSector) (.inodeBlock b), currentInode)

/-- `InitialiseInodes`. -/
def initialiseInodes (maxInodes : ℕ) (m : MfsManager) : Exec (ℕ × MfsManager) := do
  let m := { m with inodeBase := add64 m.superBlockBase 1 }
  kassert (m.inodeBase = 1)
  let totalInodeBytes := mul64 maxInodes sizeofDiskInode
  let inodeSectors := totalInodeBytes / sectorSize
  let (m, _) := (List.range inodeSectors).foldl initialiseInodeSector (m, 0)
  return (inodeSectors, m)

/-- `InitialiseFreeDataBlock`. -/
def initialiseFreeDataBlock (blockNumber maxDBlocks : ℕ) : DataBlock where
  used := false
  prev := if blockNumber = 0 then 0 else sub64 blockNumber 1
  next := if blockNumber = sub64 maxDBlocks 1 then 0 else add64 blockNumber 1

/-- `InitialiseDataBlocks`. -/
def initialiseDataBlocks (maxDataBlocks : ℕ) (m : MfsManager) : MfsManager :=
  (List.range maxDataBlocks).foldl (fun m currSector ↦
    m.writeSector 0 (add64 m.dataBlockBase currSector)
      (.dataBlock (initialiseFreeDataBlock currSector maxDataBlocks))) m

/-- The constructor: format the disk, with its buffers at hand. -/
def new (maxInodes maxDataBlocks : ℕ) (m : MfsManager) : Exec MfsManager := do
  let m := m.initialiseSuperBlock maxInodes maxDataBlocks
  let (lastInodeSector, m) ← m.initialiseInodes m.sbBuffer.totalInodes
  let m := { m with dataBlockBase := add64 lastInodeSector 1 }
  return m.initialiseDataBlocks m.sbBuffer.totalDataBlocks

/-- `InodeBlockAddress`. -/
def inodeBlockAddress (m : MfsManager) (index : ℕ) : ℕ :=
  let blockNum := index / 7
  if m.sbBuffer.totalInodeBlocks < blockNum then 2 ^ 64 - 1 else add64 blockNum m.inodeBase

/-- `DataBlockAddress`. -/
def dataBlockAddress (m : MfsManager) (index : ℕ) : ℕ :=
  if m.sbBuffer.totalDataBlocks < index then 2 ^ 64 - 1 else add64 index m.dataBlockBase

end MfsManager

end Chisaka.Merofs
