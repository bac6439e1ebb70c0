import Chisaka.X8664.Paging.EntryAttributes

/-!
# What an entry is made of, and what it says

An entry is made from the address of a page and eight flags, in the same way by both classes.  They
differ in the masks that they read the address back with: that of a `PageEntry` has all bits from 12
on, that of an `UpperPageEntry` ends with bit 39 (`toNat_baseAddresses`).  So an upper entry for a
page from `2 ^ 40` on leads elsewhere, and a word that goes beyond is another address in either
class.

`readsBack_iff` puts that together with `IsAccessed`, which reads the flag of `Present`.
-/

set_option autoImplicit false

namespace X8664

open Chisaka

/-- The constructor from an address and flags. -/
def UpperPageEntry.new (pagebase : BitVec 64) (flags : BitVec 8) : UpperPageEntry :=
  ⟨initialiseBuffer pagebase flags⟩

/-- The constructor from an address and flags. -/
def PageEntry.new (pageBase : BitVec 64) (flags : BitVec 8) : PageEntry :=
  ⟨initialiseBuffer pageBase flags⟩

/-- **What entries should say** of a page and flags that they are made from, and of the same word.
-/
structure ReadsBack (base : BitVec 64) (flags : BitVec 8) (word : BitVec 64) : Prop where
  /-- An upper entry leads to the page. -/
  upperBase : (UpperPageEntry.new base flags).baseAddress = base
  /-- An entry of a page table leads to the page. -/
  pageBase : (PageEntry.new base flags).baseAddress = base
  /-- The getters of an upper entry say what was given. -/
  upperFlags : ∀ a, (UpperPageEntry.new base flags).is a = flags.getLsbD a.bit
  /-- And so do those of an entry of a page table. -/
  pageFlags : ∀ a, (PageEntry.new base flags).is a = flags.getLsbD a.bit
  /-- The same word leads to the same page. -/
  same : (⟨word⟩ : UpperPageEntry).baseAddress = (⟨word⟩ : PageEntry).baseAddress

/-! ## Addresses -/

variable {base word : BitVec 64} {flags : BitVec 8} {j : ℕ}

/-- The bits from `i` to `i + w`, in place. -/
theorem toNat_and_mask {i w : ℕ} {mask : BitVec 64}
    (hmask : ∀ j < 64, mask.getLsbD j = (decide (i ≤ j) && decide (j < i + w))) (hi : i + w ≤ 64) :
    (word &&& mask).toNat = word.toNat / 2 ^ i % 2 ^ w * 2 ^ i := by
  refine Nat.eq_of_testBit_eq fun j ↦ ?_
  have hfield : (word.toNat / 2 ^ i % 2 ^ w * 2 ^ i).testBit j
      = (decide (i ≤ j) && (decide (j - i < w) && word.getLsbD (j - i + i))) := by
    rw [Nat.testBit_mul_two_pow, Nat.testBit_mod_two_pow, Nat.testBit_div_two_pow]
    rfl
  have hand : (word &&& mask).toNat.testBit j = (word.getLsbD j && mask.getLsbD j) :=
    BitVec.getLsbD_and
  rw [hfield, hand]
  by_cases hj : j < 64
  · rw [hmask j hj]
    by_cases hij : i ≤ j
    · rw [Nat.sub_add_cancel hij, Bool.and_comm (word.getLsbD j)]
      simp [hij, show j - i < w ↔ j < i + w by omega]
    · simp [hij]
  · have hge : 64 ≤ j := Nat.not_lt.mp hj
    simp [BitVec.getLsbD_of_ge word j hge, show ¬j - i < w by omega]

/-- **What the two classes read back**, of the address in a word. -/
theorem toNat_baseAddresses (word : BitVec 64) :
    (⟨word⟩ : UpperPageEntry).baseAddress.toNat = word.toNat / 2 ^ 12 % 2 ^ 28 * 2 ^ 12 ∧
      (⟨word⟩ : PageEntry).baseAddress.toNat = word.toNat / 2 ^ 12 % 2 ^ 52 * 2 ^ 12 := by
  constructor
  · exact toNat_and_mask (fun j hj ↦ UpperPageEntry.getLsbD_addressMask hj) (by decide)
  · refine toNat_and_mask (fun j hj ↦ ?_) (by decide)
    rw [PageEntry.getLsbD_addressMask hj, decide_eq_true (show j < 12 + 52 from hj), Bool.and_true]

/-- The flags are below the address. -/
theorem initialiseBuffer_div (base : BitVec 64) (flags : BitVec 8) :
    (initialiseBuffer base flags).toNat / 2 ^ 12 = base.toNat / 2 ^ 12 := by
  refine Nat.eq_of_testBit_eq fun j ↦ ?_
  rw [Nat.testBit_div_two_pow, Nat.testBit_div_two_pow]
  exact getLsbD_initialiseBuffer (Nat.le_add_left 12 j)

/-- An upper entry leads to the page exactly if that lies below `2 ^ 40`. -/
theorem upperBase_iff (h : base.toNat % pageSize = 0) (flags : BitVec 8) :
    (UpperPageEntry.new base flags).baseAddress = base ↔ base.toNat < 2 ^ 40 := by
  have hbase := (toNat_baseAddresses (initialiseBuffer base flags)).1
  rw [initialiseBuffer_div] at hbase
  rw [← BitVec.toNat_inj, UpperPageEntry.new, hbase]
  rw [pageSize] at h
  omega

theorem pageBase_eq (h : base.toNat % pageSize = 0) (flags : BitVec 8) :
    (PageEntry.new base flags).baseAddress = base := by
  have hbase := (toNat_baseAddresses (initialiseBuffer base flags)).2
  have hlt := base.isLt
  rw [initialiseBuffer_div] at hbase
  rw [← BitVec.toNat_inj, PageEntry.new, hbase]
  rw [pageSize] at h
  omega

/-- A word is the same address in both classes exactly if it ends below bit 40. -/
theorem same_iff (hw : word.toNat < 2 ^ 52) :
    (⟨word⟩ : UpperPageEntry).baseAddress = (⟨word⟩ : PageEntry).baseAddress ↔
      word.toNat < 2 ^ 40 := by
  obtain ⟨hupper, hpage⟩ := toNat_baseAddresses word
  rw [← BitVec.toNat_inj, hupper, hpage]
  omega

/-! ## Flags -/

/-- The low bits of an entry are the flags that it was made with. -/
theorem getLsbD_initialiseBuffer_low (h : base.toNat % pageSize = 0) (hj : j < 12) :
    (initialiseBuffer base flags).getLsbD j = flags.getLsbD j := by
  rw [initialiseBuffer, BitVec.getLsbD_or, BitVec.getLsbD_or, getLsbD_of_aligned h hj,
    BitVec.getLsbD_setWidth]
  simp
  omega

theorem pageFlags_eq (h : base.toNat % pageSize = 0) (a : PageAttribute) :
    (PageEntry.new base flags).is a = flags.getLsbD a.bit := by
  have hbit : a.bit < 12 := by cases a <;> decide
  rw [PageEntry.is_eq]
  exact getLsbD_initialiseBuffer_low h hbit

theorem upperFlags_eq (h : base.toNat % pageSize = 0) (a : UpperPageAttribute) :
    (UpperPageEntry.new base flags).is a = flags.getLsbD a.readBit := by
  have hbit : a.readBit < 12 := by cases a <;> decide
  rw [UpperPageEntry.is_eq]
  exact getLsbD_initialiseBuffer_low h hbit

/-- **An entry is read back exactly if its page lies below `2 ^ 40`** and the flags say of
`Accessed` what they say of `Present`; a word is one address if it ends below bit 40. -/
theorem readsBack_iff (base : BitVec 64) (flags : BitVec 8) (word : BitVec 64)
    (h : base.toNat % pageSize = 0) (hw : word.toNat < 2 ^ 52) :
    ReadsBack base flags word ↔
      base.toNat < 2 ^ 40 ∧ flags.getLsbD 5 = flags.getLsbD 0 ∧ word.toNat < 2 ^ 40 := by
  constructor
  · intro hr
    have haccessed := hr.upperFlags .accessed
    rw [upperFlags_eq h] at haccessed
    exact ⟨(upperBase_iff h flags).mp hr.upperBase, haccessed.symm, (same_iff hw).mp hr.same⟩
  · rintro ⟨hb40, hflags, hw40⟩
    refine ⟨(upperBase_iff h flags).mpr hb40, pageBase_eq h flags, fun a ↦ ?_, pageFlags_eq h,
      (same_iff hw).mpr hw40⟩
    rw [upperFlags_eq h]
    cases a with
    | accessed => exact hflags.symm
    | _ => rfl

theorem readsBack_iff_page : ReadsBack 0x12345000 0x21 0x12345021 ↔
    (0x12345000 : BitVec 64).toNat < 2 ^ 40 ∧
      (0x21 : BitVec 8).getLsbD 5 = (0x21 : BitVec 8).getLsbD 0 ∧
      (0x12345021 : BitVec 64).toNat < 2 ^ 40 :=
  readsBack_iff 0x12345000 0x21 0x12345021 (by decide) (by decide)

/-- **An upper entry for the page at 1 TiB leads to address 0**, and one that is present, and not
accessed, says that it is. -/
theorem not_readsBack_terabyte :
    (¬∀ (base : BitVec 64) (flags : BitVec 8) (word : BitVec 64), base.toNat % pageSize = 0 →
      base.toNat < 2 ^ 52 → word.toNat < 2 ^ 52 → ReadsBack base flags word) ∧
    (UpperPageEntry.new 0x10000000000 0x3).baseAddress = 0 ∧
      (UpperPageEntry.new 0x1000 0x3).isAccessed = true := by
  have hzero : (UpperPageEntry.new 0x10000000000 0x3).baseAddress = 0 := by decide
  refine ⟨fun h ↦ ?_, hzero, by decide⟩
  have hr := h 0x10000000000 0x3 0 (by decide) (by decide) (by decide)
  exact absurd (hzero.symm.trans hr.upperBase) (by decide)

end X8664
