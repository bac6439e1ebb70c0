import Chisaka.Lib.Bits
import Chisaka.Lib.Bytes
import Chisaka.Memmap.MemoryMap

/-!
# Page tables and their entries

An entry is a word: the address of a page, with flags in the low twelve bits.  `UpperPageEntry` and
`PageEntry` are two classes because they differ in how many bits of the address they read back: an
entry of an upper table leads to an address below `2 ^ 40`, an entry of a page table to any page.

A table is a page with 512 entries.  Its entries are words of memory, so that reading and writing
them are `entryWord` and `setEntry`; `entryWord_setEntry` and `entryWord_writeWord_of_ne` say what a
write changes.
-/

set_option autoImplicit false

namespace X8664

open Bytes Chisaka

/-! ## Entries -/

namespace UPeOpt

/-- `Present`.  The values of `PEOpt` are the same. -/
def present : BitVec 8 := 1 <<< 0

/-- `Writeable`. -/
def writeable : BitVec 8 := 1 <<< 1

/-- `UserAccessible`. -/
def userAccessible : BitVec 8 := 1 <<< 2

end UPeOpt

/-- `InitialiseBuffer`, of both classes. -/
def initialiseBuffer (pagebase : BitVec 64) (flags : BitVec 8) : BitVec 64 :=
  0#64 ||| flags.setWidth 64 ||| pagebase

/-- The flags of `CreateUser`, of both classes. -/
def userFlags : BitVec 8 := UPeOpt.present ||| UPeOpt.writeable ||| UPeOpt.userAccessible

/-- The flags of `CreateSupervisor`, of both classes. -/
def supervisorFlags : BitVec 8 := UPeOpt.present ||| UPeOpt.writeable

/-- `IsPresent`, of both classes, on the buffer. -/
def isPresent (buffer : BitVec 64) : Bool := buffer &&& UPeOpt.present.setWidth 64 ≠ 0

/-- `IsWriteable`, of both classes, on the buffer. -/
def isWriteable (buffer : BitVec 64) : Bool := buffer &&& UPeOpt.writeable.setWidth 64 ≠ 0

/-- `IsUserAccessible`, of both classes, on the buffer. -/
def isUserAccessible (buffer : BitVec 64) : Bool :=
  buffer &&& UPeOpt.userAccessible.setWidth 64 ≠ 0

/-- `UpperPageEntry`. -/
structure UpperPageEntry where
  /-- `m_buffer`. -/
  buffer : BitVec 64
  deriving DecidableEq

namespace UpperPageEntry

/-- `ADDRESS_MASK`. -/
def addressMask : BitVec 64 := 0xFFFFFFF#64 <<< 12

/-- `CreateUser`. -/
def createUser (pagebase : BitVec 64) : UpperPageEntry := ⟨initialiseBuffer pagebase userFlags⟩

/-- `CreateSupervisor`. -/
def createSupervisor (pagebase : BitVec 64) : UpperPageEntry :=
  ⟨initialiseBuffer pagebase supervisorFlags⟩

/-- `BaseAddress`. -/
def baseAddress (e : UpperPageEntry) : BitVec 64 := e.buffer &&& addressMask

/-- `IsPresent`. -/
def isPresent (e : UpperPageEntry) : Bool := X8664.isPresent e.buffer

end UpperPageEntry

/-- `PageEntry`. -/
structure PageEntry where
  /-- `m_buffer`. -/
  buffer : BitVec 64
  deriving DecidableEq

namespace PageEntry

/-- `ADDRESS_MASK`: the complement of an `int`, extended by its sign. -/
def addressMask : BitVec 64 := (~~~0xFFF#32).signExtend 64

/-- `CreateUser`. -/
def createUser (pagebase : BitVec 64) : PageEntry := ⟨initialiseBuffer pagebase userFlags⟩

/-- `BaseAddress`. -/
def baseAddress (e : PageEntry) : BitVec 64 := e.buffer &&& addressMask

/-- `IsPresent`. -/
def isPresent (e : PageEntry) : Bool := X8664.isPresent e.buffer

end PageEntry

/-! ### What is encoded is decoded -/

section Decode

variable {base : BitVec 64} {j : ℕ}

theorem getLsbD_of_aligned (h : base.toNat % pageSize = 0) (hj : j < 12) :
    base.getLsbD j = false := by
  have hmod := Nat.testBit_mod_two_pow base.toNat 12 j
  rw [show base.toNat % 2 ^ 12 = 0 from h, Nat.zero_testBit] at hmod
  rw [decide_eq_true hj, Bool.true_and] at hmod
  exact hmod.symm

/-- A flag that an entry was made with is set. -/
theorem initialiseBuffer_and_ne_zero (base : BitVec 64) {flags flag : BitVec 8} {k : ℕ}
    (hflag : flag.setWidth 64 = BitVec.twoPow 64 k) (hk : (flags.setWidth 64).getLsbD k = true) :
    initialiseBuffer base flags &&& flag.setWidth 64 ≠ 0 := by
  have hbit : (initialiseBuffer base flags).getLsbD k = true := by
    rw [initialiseBuffer, BitVec.getLsbD_or, BitVec.getLsbD_or, hk, Bool.or_true, Bool.true_or]
  rw [hflag]
  exact (Bits.and_twoPow_ne_zero _ k).mpr hbit

theorem isPresent_initialiseBuffer (base : BitVec 64) :
    isPresent (initialiseBuffer base userFlags) = true :=
  decide_eq_true (initialiseBuffer_and_ne_zero base (k := 0) (by decide) (by decide))

theorem isWriteable_initialiseBuffer (base : BitVec 64) :
    isWriteable (initialiseBuffer base userFlags) = true :=
  decide_eq_true (initialiseBuffer_and_ne_zero base (k := 1) (by decide) (by decide))

theorem isUserAccessible_initialiseBuffer (base : BitVec 64) :
    isUserAccessible (initialiseBuffer base userFlags) = true :=
  decide_eq_true (initialiseBuffer_and_ne_zero base (k := 2) (by decide) (by decide))

@[simp] theorem UpperPageEntry.isPresent_createUser (base : BitVec 64) :
    (createUser base).isPresent = true :=
  isPresent_initialiseBuffer base

@[simp] theorem PageEntry.isPresent_createUser (base : BitVec 64) :
    (createUser base).isPresent = true :=
  isPresent_initialiseBuffer base

/-- The flags stay below the address. -/
theorem getLsbD_initialiseBuffer {flags : BitVec 8} (hj : 12 ≤ j) :
    (initialiseBuffer base flags).getLsbD j = base.getLsbD j := by
  have hflag : flags.getLsbD j = false := BitVec.getLsbD_of_ge _ _ (by omega)
  simp [initialiseBuffer, hflag]

theorem UpperPageEntry.getLsbD_addressMask (hj : j < 64) :
    addressMask.getLsbD j = (decide (12 ≤ j) && decide (j < 40)) := by
  have : ∀ k : Fin 64, addressMask.getLsbD k = (decide (12 ≤ k.val) && decide (k.val < 40)) := by
    decide
  exact this ⟨j, hj⟩

theorem PageEntry.getLsbD_addressMask (hj : j < 64) :
    addressMask.getLsbD j = decide (12 ≤ j) := by
  have : ∀ k : Fin 64, addressMask.getLsbD k = decide (12 ≤ k.val) := by decide
  exact this ⟨j, hj⟩

/-- **An upper entry leads to the table it was made for**, if that lies below `2 ^ 40`. -/
theorem UpperPageEntry.baseAddress_createUser (h : base.toNat % pageSize = 0)
    (hlt : base.toNat < 2 ^ 40) : (createUser base).baseAddress = base := by
  ext j hj
  rw [← BitVec.getLsbD_eq_getElem, ← BitVec.getLsbD_eq_getElem, baseAddress, createUser,
    BitVec.getLsbD_and, getLsbD_addressMask hj]
  by_cases h12 : 12 ≤ j
  · rw [getLsbD_initialiseBuffer h12]
    by_cases h40 : j < 40
    · simp [h12, h40]
    · have hbit : base.getLsbD j = false :=
        Nat.testBit_lt_two_pow (hlt.trans_le (Nat.pow_le_pow_right (by decide) (by omega)))
      simp [hbit]
  · simp [h12, getLsbD_of_aligned h (not_le.mp h12)]

/-- **An entry of a page table leads to the page it was made for.** -/
theorem PageEntry.baseAddress_createUser (h : base.toNat % pageSize = 0) :
    (createUser base).baseAddress = base := by
  ext j hj
  rw [← BitVec.getLsbD_eq_getElem, ← BitVec.getLsbD_eq_getElem, baseAddress, createUser,
    BitVec.getLsbD_and, getLsbD_addressMask hj]
  by_cases h12 : 12 ≤ j
  · simp [h12, getLsbD_initialiseBuffer h12]
  · simp [h12, getLsbD_of_aligned h (not_le.mp h12)]

/-- What an upper entry leads to is aligned like a page. -/
theorem UpperPageEntry.baseAddress_aligned (e : UpperPageEntry) :
    e.baseAddress.toNat % pageSize = 0 := by
  refine Nat.eq_of_testBit_eq fun j ↦ ?_
  rw [show pageSize = 2 ^ 12 from rfl, Nat.testBit_mod_two_pow, Nat.zero_testBit]
  by_cases hj : j < 12
  · have hbit : e.baseAddress.getLsbD j = false := by
      rw [baseAddress, BitVec.getLsbD_and, getLsbD_addressMask (by omega)]
      simp [show ¬12 ≤ j by omega]
    simp only [hj, decide_true, Bool.true_and]
    exact hbit
  · simp [hj]

end Decode

/-! ## Tables -/

/-- `PAGE_TABLE_ENTRIES`. -/
def pageTableEntries : ℕ := 512

section Tables

variable {mem : Memory} {a b i j : ℕ} {v : BitVec 64}

/-- Where an entry of a table is. -/
def entryAddress (table index : ℕ) : ℕ := table + 8 * index

/-- The word of an entry. -/
def entryWord (mem : Memory) (table index : ℕ) : BitVec 64 :=
  BitVec.ofNat 64 (readWord mem (entryAddress table index))

/-- `UpperPageTable::GetEntry`, read. -/
def UpperPageTable.getEntry (mem : Memory) (table index : ℕ) : Exec UpperPageEntry :=
  if table = 0 then .error .nullDeref else .ok ⟨entryWord mem table index⟩

/-- `PageTable::GetEntry`, read. -/
def PageTable.getEntry (mem : Memory) (table index : ℕ) : Exec PageEntry :=
  if table = 0 then .error .nullDeref else .ok ⟨entryWord mem table index⟩

/-- `GetEntry` of both classes, written. -/
def setEntry (mem : Memory) (table index : ℕ) (buffer : BitVec 64) : Exec Memory :=
  if table = 0 then .error .nullDeref
  else .ok (writeWord mem (entryAddress table index) buffer.toNat)

/-- An entry depends on its table only. -/
theorem entryWord_congr {mem' : Memory} {i : BitVec 9}
    (h : ∀ x, a ≤ x → x < a + pageSize → mem' x = mem x) :
    entryWord mem' a i.toNat = entryWord mem a i.toNat := by
  have hilt := i.isLt
  rw [entryWord, entryWord, readWord_congr fun x hx hx' ↦ ?_]
  simp only [entryAddress, pageSize] at *
  exact h x (by omega) (by omega)

/-- An entry is the word that was written last. -/
theorem entryWord_writeWord (mem : Memory) (a i : ℕ) (v : BitVec 64) :
    entryWord (writeWord mem (entryAddress a i) v.toNat) a i = v := by
  rw [entryWord, readWord_writeWord v.isLt]
  exact BitVec.eq_of_toNat_eq (by simp)

/-- Entries of one table, or of two tables, do not overlap. -/
theorem entryAddress_disjoint (ha : a % pageSize = 0) (hb : b % pageSize = 0)
    (hi : i < pageTableEntries) (hj : j < pageTableEntries) (hne : b ≠ a ∨ j ≠ i) :
    entryAddress a i + 8 ≤ entryAddress b j ∨ entryAddress b j + 8 ≤ entryAddress a i := by
  simp only [entryAddress, pageSize, pageTableEntries] at *
  omega

/-- **Writing an entry leaves every other one alone.** -/
theorem entryWord_writeWord_of_ne {w : ℕ} (ha : a % pageSize = 0) (hb : b % pageSize = 0)
    (hi : i < pageTableEntries) (hj : j < pageTableEntries) (hne : b ≠ a ∨ j ≠ i) :
    entryWord (writeWord mem (entryAddress a i) w) b j = entryWord mem b j := by
  rw [entryWord, readWord_writeWord_of_disjoint (entryAddress_disjoint ha hb hi hj hne), entryWord]

/-- The entries of a table that is filled with zeros. -/
theorem entryWord_of_zero {i : BitVec 9} (h : ∀ x, a ≤ x → x < a + pageSize → mem x = 0) :
    entryWord mem a i.toNat = 0 := by
  have hz : entryWord mem a i.toNat = entryWord (fun _ ↦ 0) a i.toNat := entryWord_congr h
  rw [hz, entryWord, readWord_zero]
  rfl

end Tables

end X8664
