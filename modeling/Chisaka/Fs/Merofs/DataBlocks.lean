import Mathlib.Logic.Function.Iterate
import Chisaka.Fs.Merofs.Format

/-!
# The whole disk, and the list of free data blocks

`new_written` says of every sector of every disk what formatting leaves there: the super block in
sector 0 of the disk that the manager was given, the inode partition and the data partition on the
disk of port 0, and what the disks held before in all other sectors.  The partitions do not overlap,
and below `2 ^ 48` the sector numbers do not wrap around, so that each sector is written once.

The free data blocks are linked in both directions, and `next` of the last one is 0.  But 0 is the
number of the first block, to which the head points as well.  So the list has no end:
`dataBlocks_ring` says that whoever follows it from the head meets each of the blocks, then the
first one again, and so on.
-/

set_option autoImplicit false

namespace Chisaka.Merofs

namespace MfsManager

variable {m m' : MfsManager} {n d i k : ℕ}

/-! ## What is written -/

/-- The data blocks, in the sectors from `base` on. -/
def DataBlocksWritten (base maxDataBlocks : ℕ) (disk : ℕ → Option Sector) : Prop :=
  ∀ i < maxDataBlocks, disk (base + i) =
    some (.dataBlock (initialiseFreeDataBlock i maxDataBlocks))

/-- `InitialiseDataBlocks` writes the data partition and nothing else. -/
theorem initialiseDataBlocks_spec (hd : m.dataBlockBase + d ≤ 2 ^ 48) :
    (m.initialiseDataBlocks d).port = m.port ∧
    DataBlocksWritten m.dataBlockBase d ((m.initialiseDataBlocks d).disks 0) ∧
      ∀ p k, p ≠ 0 ∨ k < m.dataBlockBase ∨ m.dataBlockBase + d ≤ k →
        (m.initialiseDataBlocks d).disks p k = m.disks p k := by
  have hloop := Exec.foldl_range_induct (n := d) (s := m)
    (f := fun m i ↦ m.writeSector 0 (add64 m.dataBlockBase i)
      (.dataBlock (initialiseFreeDataBlock i d)))
    (I := fun j s ↦ s.dataBlockBase = m.dataBlockBase ∧ s.port = m.port ∧
      (∀ i < j, s.disks 0 (m.dataBlockBase + i) =
        some (.dataBlock (initialiseFreeDataBlock i d))) ∧
      ∀ p k, p ≠ 0 ∨ k < m.dataBlockBase ∨ m.dataBlockBase + j ≤ k → s.disks p k = m.disks p k)
    ⟨rfl, rfl, fun i hi ↦ absurd hi (Nat.not_lt_zero i), fun _ _ _ ↦ rfl⟩ ?_
  · exact hloop.2
  rintro j hj s ⟨hbase, hport, hwritten, hrest⟩
  have hsec : add64 s.dataBlockBase j = m.dataBlockBase + j := by
    rw [hbase]
    exact add64_of_lt (by omega)
  have hmod : (m.dataBlockBase + j) % 2 ^ 48 = m.dataBlockBase + j := Nat.mod_eq_of_lt (by omega)
  rw [hsec]
  refine ⟨hbase, hport, fun i hi ↦ ?_, fun p k hk ↦ ?_⟩
  · rcases Nat.lt_succ_iff_lt_or_eq.mp hi with hlt | rfl
    · exact (disks_writeSector_of_ne fun _ ↦ by omega).trans (hwritten i hlt)
    · exact disks_writeSector_self (by omega)
  · exact (disks_writeSector_of_ne fun hp ↦ by omega).trans (hrest p k (by omega))

/-- **What formatting leaves in each sector** of disks that held `disks` before. -/
structure Written (maxInodes maxDataBlocks : ℕ) (disks : ℕ → ℕ → Option Sector) (m : MfsManager) :
    Prop where
  /-- The partitions are where they should be. -/
  formatted : Formatted maxInodes maxDataBlocks m
  /-- The super block says that all is free. -/
  superBlock : ∃ sb, m.disks m.port 0 = some (.superBlock sb) ∧ sb.totalInodes = maxInodes ∧
    sb.freeInodes = maxInodes ∧ sb.totalDataBlocks = maxDataBlocks ∧
    sb.freeDataBlocks = maxDataBlocks ∧ sb.freeInodeHead = 0 ∧ sb.freeDataBlockHead = 0
  /-- The inodes are on the disk of port 0, from sector 1 on, -/
  inodes : InodesWritten (inodeSectors maxInodes) (m.disks 0)
  /-- the data blocks behind these, -/
  dataBlocks : DataBlocksWritten (inodeSectors maxInodes + 1) maxDataBlocks (m.disks 0)
  /-- and nothing else was written. -/
  rest : ∀ p k, ¬(p = m.port ∧ k = 0) →
    ¬(p = 0 ∧ 1 ≤ k ∧ k < inodeSectors maxInodes + 1 + maxDataBlocks) → m.disks p k = disks p k

theorem new_written (m : MfsManager) (h : inodeSectors n + 1 + d ≤ 2 ^ 48) :
    ∃ m', m.new n d = .ok m' ∧ m'.port = m.port ∧ Written n d m.disks m' := by
  obtain ⟨m', hm', hformatted⟩ := new_formatted m n d
  obtain ⟨m₁, h₁, hbase, hsb, hport, -, hplaces⟩ :=
    initialiseInodes_spec (m := m.initialiseSuperBlock n d) rfl n
  obtain ⟨hinodes, hrest⟩ := hplaces (by omega)
  have hdata : m₁.sbBuffer.totalDataBlocks = d := by
    rw [hsb]
    rfl
  have hstart : add64 (inodeSectors n) 1 = inodeSectors n + 1 := add64_of_lt (by omega)
  set m₂ : MfsManager := { m₁ with dataBlockBase := add64 (inodeSectors n) 1 } with hm₂
  obtain rfl : m₂.initialiseDataBlocks d = m' := by
    have htot : (m.initialiseSuperBlock n d).sbBuffer.totalInodes = n := rfl
    rw [new] at hm'
    simp only [htot, h₁, Exec.ok_bind, Exec.pure_eq, hdata] at hm'
    exact Except.ok.inj hm'
  have hstart₂ : m₂.dataBlockBase = inodeSectors n + 1 := hstart
  obtain ⟨hport', hblocks, hsame⟩ := initialiseDataBlocks_spec (m := m₂) (d := d) (by omega)
  rw [hstart₂] at hblocks hsame
  have hport₁ : (m₂.initialiseDataBlocks d).port = m.port := hport'.trans hport
  refine ⟨_, hm', hport₁, hformatted, ⟨m₁.sbBuffer, ?_, ?_⟩, fun k hk ↦ ?_, hblocks,
    fun p k hk hk' ↦ ?_⟩
  · -- sector 0 is neither in the data partition nor among the inodes
    rw [hport₁, hsame _ 0 (.inr (.inl (by omega))), show m₂.disks = m₁.disks from rfl,
      hrest _ 0 (.inr (.inl rfl)), hsb]
    exact disks_writeSector_self (by omega)
  · rw [hsb]
    exact ⟨rfl, rfl, rfl, rfl, rfl, rfl⟩
  · obtain ⟨b, hb, hfrom⟩ := hinodes k hk
    exact ⟨b, (hsame 0 (k + 1) (.inr (.inl (by omega)))).trans hb, hfrom⟩
  · rw [hport₁] at hk
    rw [hsame p k (by omega), show m₂.disks = m₁.disks from rfl, hrest p k (by omega)]
    exact disks_writeSector_of_ne fun hp h0 ↦ hk ⟨hp, h0.trans (Nat.zero_mod _)⟩

/-! ## The list of free data blocks -/

/-- The data block with the given number on the disk, if it was written. -/
def storedBlock (m : MfsManager) (index : ℕ) : Option DataBlock :=
  match m.readSector 0 (m.dataBlockAddress index) with
  | some (.dataBlock b) => some b
  | _ => none

/-- The number that the block on the disk has for its successor. -/
def nextBlock (m : MfsManager) (index : ℕ) : ℕ := (m.storedBlock index).elim 0 DataBlock.next

/-- The one that it has for its predecessor. -/
def prevBlock (m : MfsManager) (index : ℕ) : ℕ := (m.storedBlock index).elim 0 DataBlock.prev

namespace Written

variable {disks : ℕ → ℕ → Option Sector}

theorem storedBlock_eq (h : Written n d disks m) (hd : inodeSectors n + 1 + d ≤ 2 ^ 48)
    (hi : i < d) : m.storedBlock i = some (initialiseFreeDataBlock i d) := by
  have haddr : m.dataBlockAddress i = inodeSectors n + 1 + i := by
    rw [dataBlockAddress, h.formatted.totalDataBlocks, h.formatted.dataBlockBase,
      if_neg (Nat.lt_asymm hi), add64_of_lt (by omega)]
    omega
  rw [storedBlock, haddr, readSector, Nat.mod_eq_of_lt (by omega), h.dataBlocks i hi]

/-- The successor of the last block is the first one. -/
theorem nextBlock_eq (h : Written n d disks m) (hd : inodeSectors n + 1 + d ≤ 2 ^ 48)
    (hi : i < d) : m.nextBlock i = (i + 1) % d := by
  have hlast : sub64 d 1 = d - 1 := sub64_of_le (by omega) (by omega)
  rw [nextBlock, h.storedBlock_eq hd hi, Option.elim_some, initialiseFreeDataBlock]
  simp only [hlast]
  split
  · rename_i heq
    rw [heq, Nat.sub_add_cancel (by omega), Nat.mod_self]
  · rw [add64_of_lt (by omega), Nat.mod_eq_of_lt (by omega)]

/-- The first block is its own predecessor. -/
theorem prevBlock_eq (h : Written n d disks m) (hd : inodeSectors n + 1 + d ≤ 2 ^ 48)
    (hi : i < d) : m.prevBlock i = i - 1 := by
  rw [prevBlock, h.storedBlock_eq hd hi, Option.elim_some]
  show (if i = 0 then 0 else sub64 i 1) = i - 1
  split
  · omega
  · exact sub64_of_le (by omega) (by omega)

/-- Following the links goes round. -/
theorem iterate_nextBlock (h : Written n d disks m) (hd : inodeSectors n + 1 + d ≤ 2 ^ 48)
    (hpos : 0 < d) (k : ℕ) : m.nextBlock^[k] 0 = k % d := by
  induction k with
  | zero => rw [Nat.zero_mod]; rfl
  | succ k ih =>
    rw [Function.iterate_succ_apply', ih, h.nextBlock_eq hd (Nat.mod_lt k hpos), Nat.mod_add_mod]

end Written

/-- **The list of free data blocks has no end**: from the head it goes round through all of them,
again and again, and what ends it, the number 0, is the number of the first.  Backwards, it stops at
the first block, which is its own predecessor. -/
theorem dataBlocks_ring (m : MfsManager) (maxInodes : ℕ) {maxDataBlocks : ℕ}
    (hpos : 0 < maxDataBlocks) (h : inodeSectors maxInodes + 1 + maxDataBlocks ≤ 2 ^ 48) :
    ∃ m' sb, m.new maxInodes maxDataBlocks = .ok m' ∧ m'.port = m.port ∧
      Written maxInodes maxDataBlocks m.disks m' ∧ m'.disks m.port 0 = some (.superBlock sb) ∧
      (∀ k, m'.nextBlock^[k] sb.freeDataBlockHead = k % maxDataBlocks) ∧
      (∀ i < maxDataBlocks, m'.storedBlock i ≠ none ∧ m'.prevBlock i = i - 1) := by
  obtain ⟨m', hm', hport, hw⟩ := new_written m h
  obtain ⟨sb, hsb, -, -, -, -, -, hhead⟩ := hw.superBlock
  refine ⟨m', sb, hm', hport, hw, hport ▸ hsb, fun k ↦ ?_,
    fun i hi ↦ ⟨?_, hw.prevBlock_eq h hi⟩⟩
  · rw [hhead]
    exact hw.iterate_nextBlock h hpos k
  · rw [hw.storedBlock_eq h hi]
    exact Option.some_ne_none _

theorem dataBlocks_ring_kernel : ∃ m' sb,
    (blank 0 ⟨0, 0, 0, 0, 0, 0, 0, 0, 0, 0⟩ filledInodeBlock).new 65534 1000 = .ok m' ∧
      m'.port = 0 ∧ Written 65534 1000 (fun _ _ ↦ none) m' ∧
      m'.disks 0 0 = some (.superBlock sb) ∧
      (∀ k, m'.nextBlock^[k] sb.freeDataBlockHead = k % 1000) ∧
      ∀ i < 1000, m'.storedBlock i ≠ none ∧ m'.prevBlock i = i - 1 :=
  dataBlocks_ring _ 65534 (by decide) (by decide)

end MfsManager

end Chisaka.Merofs
