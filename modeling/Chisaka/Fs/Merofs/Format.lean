import Chisaka.Fs.Merofs.MfsManager
import Chisaka.Lib.Chain

/-!
# The formatted disk

How many inodes there are is computed in two ways.  The size of the partition is the number of bytes
that the inodes take, divided by the size of a sector, which is eight inodes a sector; but a sector
holds seven.  So the partition has room for fewer inodes than the super block says
(`seven_mul_inodeSectors_lt`), whatever the number is.

* `Formatted` is what the constructor leaves on the disk, and `new_formatted` that it does.
* `inodeBlockAddress_inside_iff` and `dataBlockAddress_inside_iff` say for which indices the address
  lies in its partition.  There is an inode whose address lies outside, or is given although there
  are no inodes: `not_geometry`.  Within the data partition the map is right
  (`Formatted.inDataPartition`), but the inodes behind the last block of theirs get an address in it
  (`Formatted.inodeBlockAddress_eq_dataBlockAddress`).
* The list of free inodes runs through the inodes that were written and ends at an inode that was
  not (`InodesFormatted.seg`), so that it never agrees with the super block: `not_listAgrees`.
  From `2 ^ 48` sectors on the writes wrap around, and there are fewer links than inodes.
-/

set_option autoImplicit false

namespace Chisaka.Merofs

open Chain

namespace MfsManager

variable {m m' : MfsManager} {n d i j : ℕ}

/-- The number of sectors in the inode partition. -/
def inodeSectors (maxInodes : ℕ) : ℕ := mul64 maxInodes sizeofDiskInode / sectorSize

theorem inodeSectors_le (n : ℕ) : 8 * inodeSectors n ≤ n := by
  have h : mul64 n sizeofDiskInode ≤ n * 64 := Nat.mod_le _ _
  simp only [inodeSectors, sectorSize]
  omega

theorem inodeSectors_lt (n : ℕ) : inodeSectors n < 2 ^ 55 := by
  have h : mul64 n sizeofDiskInode < 2 ^ 64 := Nat.mod_lt _ (by decide)
  simp only [inodeSectors, sectorSize]
  omega

/-- **There is never room for all inodes.** -/
theorem seven_mul_inodeSectors_lt (h : 1 ≤ n) : 7 * inodeSectors n < n := by
  have := inodeSectors_le n
  omega

/-! ## Writing the inodes -/

/-- The block with the inodes from number `c` on. -/
def BlockFrom (c : ℕ) (b : InodeBlock) : Prop :=
  ∀ j < inodes, (b.diskinodes j).nextFreeInode = c + j + 1

@[simp] theorem nextFreeInode_initialiseFreeInode (next : ℕ) :
    (initialiseFreeInode next).nextFreeInode = next := rfl

theorem foldl_initialiseInode {c : ℕ} (hc : c + 7 < 2 ^ 64) (b : InodeBlock) :
    BlockFrom c ((List.range inodes).foldl initialiseInode (b, c)).1 ∧
      ((List.range inodes).foldl initialiseInode (b, c)).2 = c + 7 := by
  have h := Exec.foldl_range_induct (n := inodes) (f := initialiseInode) (s := (b, c))
    (I := fun k s ↦ (∀ j < k, (s.1.diskinodes j).nextFreeInode = c + j + 1) ∧ s.2 = c + k)
    ⟨fun j hj ↦ absurd hj (Nat.not_lt_zero j), rfl⟩ ?_
  · exact h
  rintro k hk ⟨b', c'⟩ ⟨hb, rfl⟩
  have hadd : add64 (c + k) 1 = c + k + 1 := add64_of_lt (by simp only [inodes] at hk; omega)
  refine ⟨fun j hj ↦ ?_, hadd⟩
  rcases Nat.lt_succ_iff_lt_or_eq.mp hj with hlt | rfl
  · simp only [initialiseInode, Function.update_of_ne (Nat.ne_of_lt hlt)]
    exact hb j hlt
  · simp only [initialiseInode, Function.update_self, nextFreeInode_initialiseFreeInode, hadd]

/-- A round of the outer loop writes the block with the next seven inodes. -/
theorem initialiseInodeSector_eq {c : ℕ} (hc : c + 7 < 2 ^ 64) (m : MfsManager) (k : ℕ) :
    ∃ b, BlockFrom c b ∧ initialiseInodeSector (m, c) k =
      ({ m with inodeBuffer := b }.writeSector 0 (add64 m.inodeBase k) (.inodeBlock b), c + 7) := by
  obtain ⟨hb, hnext⟩ := foldl_initialiseInode hc filledInodeBlock
  exact ⟨_, hb, Prod.ext rfl hnext⟩

/-- What `InitialiseInodes` writes: sector `k` of the partition has the inodes from `7 * k` on. -/
def InodesWritten (sectors : ℕ) (disk : ℕ → Option Sector) : Prop :=
  ∀ k < sectors, ∃ b, disk (k + 1) = some (.inodeBlock b) ∧ BlockFrom (7 * k) b

/-- What is on the disks was there before, or is a sector of inodes on the disk of port 0. -/
def AddsInodes (sectors : ℕ) (m m' : MfsManager) : Prop :=
  ∀ p k, m'.disks p k = m.disks p k ∨
    p = 0 ∧ ∃ b, m'.disks p k = some (.inodeBlock b) ∧ ∃ i < sectors, BlockFrom (7 * i) b

/-- `InitialiseInodes` returns the number of sectors it has written and adds inodes.  If the sector
numbers do not wrap around, each sector is in its place, and the others are left alone. -/
theorem initialiseInodes_spec (h : m.superBlockBase = 0) (n : ℕ) :
    ∃ m', m.initialiseInodes n = .ok (inodeSectors n, m') ∧ m'.inodeBase = 1 ∧
      m'.sbBuffer = m.sbBuffer ∧ m'.port = m.port ∧ AddsInodes (inodeSectors n) m m' ∧
      (inodeSectors n < 2 ^ 48 → InodesWritten (inodeSectors n) (m'.disks 0) ∧
        ∀ p k, p ≠ 0 ∨ k = 0 ∨ inodeSectors n < k → m'.disks p k = m.disks p k) := by
  have hlt := inodeSectors_lt n
  set q := inodeSectors n with hq
  set m₁ : MfsManager := { m with inodeBase := add64 m.superBlockBase 1 } with hm₁
  have hbase : m₁.inodeBase = 1 := by rw [hm₁, h]; rfl
  have hloop := Exec.foldl_range_induct (n := q) (f := initialiseInodeSector) (s := (m₁, 0))
    (I := fun k s ↦ (s.1.inodeBase = 1 ∧ s.1.sbBuffer = m.sbBuffer ∧ s.1.port = m.port ∧
      s.2 = 7 * k) ∧ AddsInodes k m s.1 ∧ (q < 2 ^ 48 → InodesWritten k (s.1.disks 0) ∧
        ∀ p i, p ≠ 0 ∨ i = 0 ∨ k < i → s.1.disks p i = m.disks p i))
    ⟨⟨hbase, rfl, rfl, rfl⟩, fun _ _ ↦ .inl rfl,
      fun _ ↦ ⟨fun k hk ↦ absurd hk (Nat.not_lt_zero k), fun _ _ _ ↦ rfl⟩⟩ ?_
  · obtain ⟨⟨h1, h2, h3, -⟩, h4, h5⟩ := hloop
    refine ⟨_, ?_, h1, h2, h3, h4, h5⟩
    rw [initialiseInodes, kassert]
    show (Exec.check (m₁.inodeBase = 1) >>= fun _ ↦ _) = _
    rw [Exec.check_of hbase, Exec.ok_bind]
    rfl
  rintro k hk ⟨m₂, c⟩ ⟨⟨h1, h2, h3, rfl⟩, h4, h5⟩
  obtain ⟨b, hb, hround⟩ := initialiseInodeSector_eq (c := 7 * k) (by omega) m₂ k
  have hsec : add64 m₂.inodeBase k = k + 1 := by
    rw [h1, add64_of_lt (by omega)]
    omega
  rw [hround, hsec]
  refine ⟨⟨h1, h2, h3, (Nat.mul_succ 7 k).symm⟩, fun p i ↦ ?_, fun hwrap ↦ ?_⟩
  · rcases disks_writeSector_cases { m₂ with inodeBuffer := b } 0 (k + 1) p i (.inodeBlock b) with
      hsame | ⟨rfl, hnew⟩
    · refine (h4 p i).imp hsame.trans fun ⟨hp, b', hd, j, hj, hfrom⟩ ↦ ?_
      exact ⟨hp, b', hsame.trans hd, j, Nat.lt_succ_of_lt hj, hfrom⟩
    · exact .inr ⟨rfl, b, hnew, k, Nat.lt_succ_self k, hb⟩
  · obtain ⟨hwritten, hrest⟩ := h5 hwrap
    have hmod : (k + 1) % 2 ^ 48 = k + 1 := Nat.mod_eq_of_lt (by omega)
    refine ⟨fun i hi ↦ ?_, fun p i hi ↦ ?_⟩
    · rcases Nat.lt_succ_iff_lt_or_eq.mp hi with hlt | rfl
      · obtain ⟨b', hd, hfrom⟩ := hwritten i hlt
        exact ⟨b', (disks_writeSector_of_ne fun _ ↦ by omega).trans hd, hfrom⟩
      · exact ⟨b, disks_writeSector_self (by omega), hb⟩
    · exact (disks_writeSector_of_ne fun hp ↦ by omega).trans (hrest p i (by omega))

/-! ## The geometry -/

/-- The geometry of a disk that was formatted for so many inodes and data blocks. -/
structure Formatted (maxInodes maxDataBlocks : ℕ) (m : MfsManager) : Prop where
  inodeBase : m.inodeBase = 1
  dataBlockBase : m.dataBlockBase = inodeSectors maxInodes + 1
  totalInodeBlocks : m.sbBuffer.totalInodeBlocks = inodeSectors maxInodes
  totalInodes : m.sbBuffer.totalInodes = maxInodes
  totalDataBlocks : m.sbBuffer.totalDataBlocks = maxDataBlocks

/-- Writing the data blocks leaves the geometry alone. -/
theorem Formatted.initialiseDataBlocks (h : Formatted n d m) (k : ℕ) :
    Formatted n d (m.initialiseDataBlocks k) :=
  Exec.foldl_range_induct (I := fun _ m ↦ Formatted n d m) h fun _ _ _ h ↦
    ⟨h.inodeBase, h.dataBlockBase, h.totalInodeBlocks, h.totalInodes, h.totalDataBlocks⟩

/-- **The constructor returns**, and fixes the geometry. -/
theorem new_formatted (m : MfsManager) (n d : ℕ) : ∃ m', m.new n d = .ok m' ∧ Formatted n d m' := by
  obtain ⟨m₁, h1, hbase, hsb, -⟩ :=
    initialiseInodes_spec (m := m.initialiseSuperBlock n d) rfl n
  have hlt := inodeSectors_lt n
  refine ⟨_, ?_, Formatted.initialiseDataBlocks (n := n) (d := d)
    (m := { m₁ with dataBlockBase := add64 (inodeSectors n) 1 }) ?_ d⟩
  · have htot : (m.initialiseSuperBlock n d).sbBuffer.totalInodes = n := rfl
    have hdata : m₁.sbBuffer.totalDataBlocks = d := by rw [hsb]; rfl
    rw [new]
    simp only [htot, h1, Exec.ok_bind, Exec.pure_eq, hdata]
  · exact ⟨hbase, add64_of_lt (by omega), congrArg SuperBlock.totalInodeBlocks hsb,
      congrArg SuperBlock.totalInodes hsb, congrArg SuperBlock.totalDataBlocks hsb⟩

/-- What the address of a block that does not exist is: the value `-1` of a `std::uint64_t`. -/
def noAddress : ℕ := 2 ^ 64 - 1

/-- Inside `[m_inodeBase, m_dataBlockBase)`. -/
def InInodePartition (m : MfsManager) (a : ℕ) : Prop := m.inodeBase ≤ a ∧ a < m.dataBlockBase

/-- Inside `[m_dataBlockBase, m_dataBlockBase + totalDataBlocks)`. -/
def InDataPartition (m : MfsManager) (a : ℕ) : Prop :=
  m.dataBlockBase ≤ a ∧ a < m.dataBlockBase + m.sbBuffer.totalDataBlocks

/-- **What the two address maps are for.** -/
structure Geometry (m : MfsManager) : Prop where
  inode_inside : ∀ i < m.sbBuffer.totalInodes, m.InInodePartition (m.inodeBlockAddress i)
  inode_injective : ∀ i < m.sbBuffer.totalInodes, ∀ j < m.sbBuffer.totalInodes,
    (m.inodeBlockAddress i, i % 7) = (m.inodeBlockAddress j, j % 7) → i = j
  data_inside : ∀ i < m.sbBuffer.totalDataBlocks, m.InDataPartition (m.dataBlockAddress i)
  data_injective : ∀ i < m.sbBuffer.totalDataBlocks, ∀ j < m.sbBuffer.totalDataBlocks,
    m.dataBlockAddress i = m.dataBlockAddress j → i = j
  inode_outside : ∀ i < 2 ^ 64, m.sbBuffer.totalInodes ≤ i → m.inodeBlockAddress i = noAddress
  data_outside : ∀ i < 2 ^ 64, m.sbBuffer.totalDataBlocks ≤ i → m.dataBlockAddress i = noAddress
  inode_ne_data : ∀ i < m.sbBuffer.totalInodes, ∀ j < m.sbBuffer.totalDataBlocks,
    m.inodeBlockAddress i ≠ m.dataBlockAddress j

theorem Formatted.inodeBlockAddress_of_le (h : Formatted n d m) (hi : i / 7 ≤ inodeSectors n) :
    m.inodeBlockAddress i = i / 7 + 1 := by
  have hlt := inodeSectors_lt n
  rw [inodeBlockAddress, h.totalInodeBlocks, h.inodeBase, if_neg (not_lt.mpr hi)]
  exact add64_of_lt (by omega)

theorem Formatted.inodeBlockAddress_of_lt (h : Formatted n d m) (hi : inodeSectors n < i / 7) :
    m.inodeBlockAddress i = noAddress := by
  rw [inodeBlockAddress, h.totalInodeBlocks, if_pos hi]
  rfl

/-- **An address lies in the inode partition exactly when the block exists**, seven inodes a
sector. -/
theorem Formatted.inInodePartition_iff (h : Formatted n d m) :
    m.InInodePartition (m.inodeBlockAddress i) ↔ i < 7 * inodeSectors n := by
  have hlt := inodeSectors_lt n
  rw [InInodePartition, h.inodeBase, h.dataBlockBase]
  rcases le_or_gt (i / 7) (inodeSectors n) with hi | hi
  · rw [h.inodeBlockAddress_of_le hi]
    omega
  · rw [h.inodeBlockAddress_of_lt hi, noAddress]
    omega

/-- The inodes behind the last block get the address of the first data block. -/
theorem Formatted.inodeBlockAddress_eq_dataBlockAddress (h : Formatted n d m)
    (hi : i / 7 = inodeSectors n) : m.inodeBlockAddress i = m.dataBlockAddress 0 := by
  have hlt := inodeSectors_lt n
  rw [h.inodeBlockAddress_of_le hi.le, dataBlockAddress, h.totalDataBlocks, h.dataBlockBase,
    if_neg (Nat.not_lt_zero d), add64_of_lt (by omega)]
  omega

/-- Within the data partition the map is what it should be. -/
theorem Formatted.inDataPartition (h : Formatted n d m) (hd : inodeSectors n + 1 + d < 2 ^ 64)
    (hi : i < d) : m.InDataPartition (m.dataBlockAddress i) := by
  rw [InDataPartition, dataBlockAddress, h.totalDataBlocks, h.dataBlockBase,
    if_neg (Nat.lt_asymm hi), add64_of_lt (by omega)]
  omega

/-- **The geometry is wrong for every size**: the last inode lies outside the inode partition, and
where there are no inodes, the number 0 has an address all the same. -/
theorem Formatted.not_geometry (h : Formatted n d m) : ¬m.Geometry := by
  intro hg
  rcases Nat.eq_zero_or_pos n with rfl | hpos
  · have h0 := hg.inode_outside 0 (by decide) (h.totalInodes ▸ Nat.le_refl 0)
    rw [h.inodeBlockAddress_of_le (Nat.zero_le _)] at h0
    exact absurd h0 (by decide)
  · have hin := hg.inode_inside (n - 1) (by rw [h.totalInodes]; omega)
    have := h.inInodePartition_iff.mp hin
    have := seven_mul_inodeSectors_lt hpos
    omega

/-- The manager before its disk is formatted, with whatever the kernel's heap had in the buffers. -/
def blank (port : ℕ) (sbBuffer : SuperBlock) (inodeBuffer : InodeBlock) : MfsManager where
  sbBuffer := sbBuffer
  inodeBuffer := inodeBuffer
  port := port
  disks := fun _ _ ↦ none

/-- **No size is formatted with a right geometry.** -/
theorem not_geometry_new (m : MfsManager) (maxInodes maxDataBlocks : ℕ) :
    ∃ m', m.new maxInodes maxDataBlocks = .ok m' ∧ ¬m'.Geometry := by
  obtain ⟨m', hm', h⟩ := new_formatted m maxInodes maxDataBlocks
  exact ⟨m', hm', h.not_geometry⟩

/-- The sizes that the kernel formats its disk with. -/
theorem not_geometry_kernel :
    ¬∃ m', (blank 0 ⟨0, 0, 0, 0, 0, 0, 0, 0, 0, 0⟩ filledInodeBlock).new 65534 1000 = .ok m' ∧
      m'.Geometry := by
  rintro ⟨m', hm', hg⟩
  obtain ⟨m₁, hm₁, h⟩ :=
    new_formatted (blank 0 ⟨0, 0, 0, 0, 0, 0, 0, 0, 0, 0⟩ filledInodeBlock) 65534 1000
  obtain rfl : m₁ = m' := Except.ok.inj (hm₁.symm.trans hm')
  have hin := hg.inode_inside 65533 (by rw [h.totalInodes]; decide)
  exact absurd (h.inInodePartition_iff.mp hin) (by decide)

/-! ## The list of free inodes -/

/-- `InitialiseSuperBlock`, then `InitialiseInodes`. -/
def format (maxInodes maxDataBlocks : ℕ) (m : MfsManager) : Exec MfsManager := do
  let m := m.initialiseSuperBlock maxInodes maxDataBlocks
  let (_, m) ← m.initialiseInodes maxInodes
  return m

/-- The inode with the given number on the disk, if its sector was written. -/
def storedInode (m : MfsManager) (index : ℕ) : Option DiskInode :=
  match m.readSector 0 (m.inodeBlockAddress index) with
  | some (.inodeBlock b) => some (b.diskinodes (index % inodes))
  | _ => none

/-- The number that the inode on the disk has for its successor. -/
def nextInode (m : MfsManager) (index : ℕ) : ℕ :=
  (m.storedInode index).elim 0 DiskInode.nextFreeInode

/-- **The list of free inodes agrees with the super block**: from `freeInodeHead` the links lead
through `freeInodes` different inodes, all of them written, to a number that is no inode's. -/
def ListAgrees (m : MfsManager) : Prop :=
  ∃ sb l e, m.disks m.port 0 = some (.superBlock sb) ∧ Seg m.nextInode sb.freeInodeHead l e ∧
    l.Nodup ∧ l.length = sb.freeInodes ∧ (∀ i ∈ l, (m.storedInode i).isSome) ∧ ¬e < sb.totalInodes

/-- What formatting the first two partitions leaves. -/
structure InodesFormatted (maxInodes : ℕ) (m : MfsManager) : Prop where
  inodeBase : m.inodeBase = 1
  totalInodeBlocks : m.sbBuffer.totalInodeBlocks = inodeSectors maxInodes
  freeInodeHead : m.sbBuffer.freeInodeHead = 0
  freeInodes : m.sbBuffer.freeInodes = maxInodes
  /-- There is no other super block, -/
  superBlock : ∀ p k sb, m.disks p k = some (.superBlock sb) → sb = m.sbBuffer
  /-- and there are no other inodes. -/
  inodeBlock : ∀ k b, m.disks 0 k = some (.inodeBlock b) →
    ∃ i < inodeSectors maxInodes, BlockFrom (7 * i) b
  /-- If the sector numbers do not wrap around, each sector is in its place. -/
  written : inodeSectors maxInodes < 2 ^ 48 → InodesWritten (inodeSectors maxInodes) (m.disks 0) ∧
    ∀ k b, m.disks 0 k = some (.inodeBlock b) → k ≤ inodeSectors maxInodes

theorem format_inodesFormatted (port : ℕ) (sb : SuperBlock) (b : InodeBlock) (n d : ℕ) :
    ∃ m, (blank port sb b).format n d = .ok m ∧ InodesFormatted n m := by
  set m₀ := (blank port sb b).initialiseSuperBlock n d with hm₀
  obtain ⟨m, h, hbase, hsb, -, hadds, hplaces⟩ := initialiseInodes_spec (m := m₀) rfl n
  -- there is nothing but the super block before
  have hstart : ∀ p k, m₀.disks p k = none ∨ m₀.disks p k = some (.superBlock m₀.sbBuffer) :=
    fun p k ↦ (disks_writeSector_cases _ port 0 p k _).imp id And.right
  have hnone : ∀ p k b', m₀.disks p k ≠ some (.inodeBlock b') := fun p k b' hd ↦ by
    rcases hstart p k with h0 | h0 <;> cases h0.symm.trans hd
  refine ⟨m, by rw [format]; simp only [← hm₀, h, Exec.ok_bind, Exec.pure_eq], hbase, ?_, ?_, ?_,
    fun p k sb' hd ↦ ?_, fun k b' hd ↦ ?_, fun hwrap ↦ ⟨(hplaces hwrap).1, fun k b' hd ↦ ?_⟩⟩
  · rw [hsb]
    rfl
  · rw [hsb]
    rfl
  · rw [hsb]
    rfl
  · rcases hadds p k with hsame | ⟨-, b', hb', -⟩
    · rw [hsame] at hd
      rcases hstart p k with h0 | h0
      · cases h0.symm.trans hd
      · rw [hsb]
        exact (Sector.superBlock.inj (Option.some.inj (h0.symm.trans hd))).symm
    · cases hb'.symm.trans hd
  · rcases hadds 0 k with hsame | ⟨-, b₁, hb₁, hfrom⟩
    · exact absurd (hsame.symm.trans hd) (hnone 0 k b')
    · obtain rfl : b₁ = b' := Sector.inodeBlock.inj (Option.some.inj (hb₁.symm.trans hd))
      exact hfrom
  · by_contra hk
    exact hnone 0 k b' (((hplaces hwrap).2 0 k (.inr (.inr (not_le.mp hk)))).symm.trans hd)

namespace InodesFormatted

theorem inodeBlockAddress_eq (h : InodesFormatted n m) (hi : i < 7 * inodeSectors n) :
    m.inodeBlockAddress i = i / 7 + 1 := by
  have hlt := inodeSectors_lt n
  rw [inodeBlockAddress, h.totalInodeBlocks, h.inodeBase, if_neg (by omega)]
  exact add64_of_lt (by omega)

/-- An inode on the disk is one of a block that was written. -/
theorem storedInode_cases (h : InodesFormatted n m) (i : ℕ) : m.storedInode i = none ∨
    ∃ d, m.storedInode i = some d ∧ d.nextFreeInode ≤ 7 * inodeSectors n := by
  rw [storedInode]
  split
  · rename_i b hb
    obtain ⟨k, hk, hfrom⟩ := h.inodeBlock _ b hb
    have hmod : i % inodes < inodes := Nat.mod_lt i (by decide)
    have hnext := hfrom _ hmod
    have hmod' : i % inodes < 7 := hmod
    exact .inr ⟨_, rfl, by omega⟩
  · exact .inl rfl

/-- The inodes with a sector have their successor as the next one. -/
theorem nextInode_eq (h : InodesFormatted n m) (hwrap : inodeSectors n < 2 ^ 48)
    (hi : i < 7 * inodeSectors n) : m.nextInode i = i + 1 ∧ (m.storedInode i).isSome := by
  obtain ⟨b, hb, hnext⟩ := (h.written hwrap).1 (i / 7) (by omega)
  have hstored : m.storedInode i = some (b.diskinodes (i % inodes)) := by
    rw [storedInode, h.inodeBlockAddress_eq hi, readSector]
    rcases Nat.lt_or_ge (i / 7 + 1) (2 ^ 48) with hlt | hge
    · rw [Nat.mod_eq_of_lt hlt, hb]
    · omega
  refine ⟨?_, by rw [hstored]; rfl⟩
  rw [nextInode, hstored, Option.elim_some, hnext (i % inodes) (Nat.mod_lt _ (by decide))]
  simp only [inodes]
  omega

/-- No other inode is on the disk. -/
theorem storedInode_eq_none (h : InodesFormatted n m) (hwrap : inodeSectors n + 1 < 2 ^ 48)
    (hi : 7 * inodeSectors n ≤ i) : m.storedInode i = none := by
  have hout : inodeSectors n < m.inodeBlockAddress i % 2 ^ 48 := by
    rw [inodeBlockAddress, h.totalInodeBlocks, h.inodeBase]
    split
    · rw [show (2 ^ 64 - 1) % 2 ^ 48 = 2 ^ 48 - 1 from rfl]
      omega
    · rw [add64_of_lt (by omega), Nat.mod_eq_of_lt (by omega)]
      omega
  rw [storedInode]
  split
  · rename_i b hb
    exact absurd ((h.written (by omega)).2 _ b hb) (not_le.mpr hout)
  · rfl

/-- **The list runs through the inodes that were written**, and ends at the first that was not. -/
theorem seg (h : InodesFormatted n m) (hwrap : inodeSectors n < 2 ^ 48) :
    Seg m.nextInode 0 (List.range (7 * inodeSectors n)) (7 * inodeSectors n) := by
  have hseg : ∀ k ≤ 7 * inodeSectors n, Seg m.nextInode 0 (List.range k) k := by
    intro k hk
    induction k with
    | zero => rfl
    | succ k ih =>
      rw [List.range_succ]
      exact seg_append.mpr ⟨k, ih (by omega), rfl, (h.nextInode_eq hwrap (by omega)).1⟩
  exact hseg _ le_rfl

/-- However the sectors lie, a list of different inodes is not longer than there are links to
follow, and one. -/
theorem length_le (h : InodesFormatted n m) {l : List ℕ} {e : ℕ} (hl : Seg m.nextInode 0 l e)
    (hnodup : l.Nodup) (hstored : ∀ i ∈ l, (m.storedInode i).isSome) :
    l.length ≤ 7 * inodeSectors n + 1 := by
  have hsub : l ⊆ List.range (7 * inodeSectors n + 1) := fun i hi ↦ by
    rw [List.mem_range]
    rcases hl.eq_or_exists hi with rfl | ⟨y, hy, rfl⟩
    · omega
    · rcases h.storedInode_cases y with hnone | ⟨d, hd, hle⟩
      · have hsome := hstored y hy
        rw [hnone] at hsome
        cases hsome
      · rw [nextInode, hd, Option.elim_some]
        omega
  have hle := hnodup.length_le_of_subset hsub
  rwa [List.length_range] at hle

/-- There are fewer inodes on the disk than the super block counts, so no list of them agrees with
it. -/
theorem not_listAgrees (h : InodesFormatted n m) (hn : 1 ≤ n) : ¬m.ListAgrees := by
  rintro ⟨sb, l, e, hsb, hl, hnodup, hlen, hstored, -⟩
  obtain rfl : sb = m.sbBuffer := h.superBlock _ _ _ hsb
  rw [h.freeInodes] at hlen
  rw [h.freeInodeHead] at hl
  have hsectors := inodeSectors_le n
  have hshort := seven_mul_inodeSectors_lt hn
  rcases Nat.lt_or_ge (inodeSectors n + 1) (2 ^ 48) with hwrap | hwrap
  · -- the inodes on the disk are those below `7 * inodeSectors n`
    have hsub : l ⊆ List.range (7 * inodeSectors n) := fun i hi ↦ by
      rw [List.mem_range]
      by_contra hge
      have hsome := hstored i hi
      rw [h.storedInode_eq_none hwrap (not_lt.mp hge)] at hsome
      exact Bool.noConfusion hsome
    have hle := hnodup.length_le_of_subset hsub
    rw [hlen, List.length_range] at hle
    omega
  · have hle := h.length_le hl hnodup hstored
    omega

end InodesFormatted

/-- **The list of free inodes never agrees with the super block.** -/
theorem not_listAgrees_format (port : ℕ) (sb : SuperBlock) (b : InodeBlock) {maxInodes : ℕ}
    (hn : 1 ≤ maxInodes) (maxDataBlocks : ℕ) :
    ∃ m, (blank port sb b).format maxInodes maxDataBlocks = .ok m ∧ ¬m.ListAgrees := by
  obtain ⟨m, hm, h⟩ := format_inodesFormatted port sb b maxInodes maxDataBlocks
  exact ⟨m, hm, h.not_listAgrees hn⟩

theorem not_listAgrees_format_eight :
    ∃ m, (blank 0 ⟨0, 0, 0, 0, 0, 0, 0, 0, 0, 0⟩ filledInodeBlock).format 8 1 = .ok m ∧
      ¬m.ListAgrees :=
  not_listAgrees_format 0 _ _ (by decide) 1

/-- One sector of seven inodes, and eight inodes in the super block. -/
theorem not_listAgrees_eight :
    ¬∃ m, (blank 0 ⟨0, 0, 0, 0, 0, 0, 0, 0, 0, 0⟩ filledInodeBlock).format 8 1 = .ok m ∧
      m.ListAgrees := by
  rintro ⟨m, hm, hagrees⟩
  obtain ⟨m₁, hm₁, h⟩ :=
    format_inodesFormatted 0 ⟨0, 0, 0, 0, 0, 0, 0, 0, 0, 0⟩ filledInodeBlock 8 1
  obtain rfl : m₁ = m := Except.ok.inj (hm₁.symm.trans hm)
  exact h.not_listAgrees (by decide) hagrees

end MfsManager

end Chisaka.Merofs
