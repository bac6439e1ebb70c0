import Mathlib.Data.Int.ModEq
import Chisaka.Kheap.Slab.ListDescriptorSpec

/-!
# The geometry of a slab

What a descriptor says about the layout of its slab is computed from the number of pages and the
size of the buffers, with products and quotients in 32 bits and more, and kept or returned in 16
bits, an index even in 8.  Each number has a bound of its own, up to which it is right: the number
of buffers (`totalBuffers_new`), the free space (`initialFreeSpace_new`) and the index of a buffer
(`bufferIndex_new`).  What is left behind the last buffer is always right, since it has 16 bits and
what is lost on the way there is a multiple of `2 ^ 16` (`spaceAfterAllocation_new`).

Together they are `Exact` up to 15 pages, if there are no more than 256 buffers (`exact_iff`).
-/

set_option autoImplicit false

namespace Chisaka.Slab

namespace ListDescriptor

/-! ## The methods -/

/-- `InitialFreeSpace`, 16 bits. -/
def initialFreeSpace (ld : ListDescriptor) : ℕ := sub64 ld.limit ld.baseAddress % 2 ^ 16

/-- `SpaceAfterAllocation`: the difference of two `int`s, as 16 bits. -/
def spaceAfterAllocation (ld : ListDescriptor) : ℕ :=
  (((ld.initialFreeSpace : ℤ) - ld.totalBuffers * ld.bufferSize) % 2 ^ 16).toNat

/-- `BufferIndex`, 8 bits. -/
def bufferIndex (ld : ListDescriptor) (pbuffer : ℕ) : ℕ :=
  sub64 pbuffer ld.baseAddress / ld.bufferSize % 2 ^ 8

/-- **The geometry of a slab** of `pages` pages, cut into buffers of `size` bytes. -/
structure Exact (ld : ListDescriptor) (size pages : ℕ) : Prop where
  /-- As many buffers as fit. -/
  totalBuffers : ld.totalBuffers = pages * 0x1000 / size
  /-- All pages are free at first. -/
  initialFreeSpace : ld.initialFreeSpace = pages * 0x1000
  /-- What is left behind the last buffer. -/
  spaceAfterAllocation : ld.spaceAfterAllocation = pages * 0x1000 % size
  /-- The buffers are numbered in the order of their addresses. -/
  bufferIndex : ∀ i < ld.totalBuffers, ld.bufferIndex (add64 ld.baseAddress (i * size)) = i

/-! ## What they return -/

variable {this base : ℕ} {size : UInt16} {pages : UInt8}

/-- A difference of addresses, however far they are apart. -/
theorem sub64_add64 {a n : ℕ} (ha : a < 2 ^ 64) (hn : n < 2 ^ 64) : sub64 (add64 a n) a = n := by
  rw [sub64, add64]
  omega

theorem bufferSize_new (this base : ℕ) (size : UInt16) (pages : UInt8) :
    (new this base size pages).bufferSize = max size.toNat 8 := by
  have hlt : size < 8 ↔ size.toNat < 8 := UInt16.lt_iff_toNat_lt
  simp only [new, hlt]
  split <;> omega

theorem totalBuffers_new : (new this base size pages).totalBuffers =
    pages.toNat * 0x1000 / max size.toNat 8 % 2 ^ 16 := by
  rw [← bufferSize_new this base size pages]
  rfl

theorem initialFreeSpace_new (hbase : base < 2 ^ 64) :
    (new this base size pages).initialFreeSpace = pages.toNat * 0x1000 % 2 ^ 16 := by
  have hpages := pages.toNat_lt
  have hsub : sub64 (add64 base (0x1000 * pages.toNat)) base = 0x1000 * pages.toNat :=
    sub64_add64 hbase (by omega)
  have hlimit : (new this base size pages).initialFreeSpace =
      sub64 (add64 base (0x1000 * pages.toNat)) base % 2 ^ 16 := rfl
  rw [hlimit, hsub, Nat.mul_comm]

/-- **What is left behind the last buffer is always right.** -/
theorem spaceAfterAllocation_new (hbase : base < 2 ^ 64) :
    (new this base size pages).spaceAfterAllocation =
      pages.toNat * 0x1000 % max size.toNat 8 := by
  have hsize := size.toNat_lt
  rw [spaceAfterAllocation, initialFreeSpace_new hbase, totalBuffers_new, bufferSize_new]
  generalize hs : max size.toNat 8 = s
  generalize pages.toNat * 0x1000 = n
  have hdiv := Nat.div_add_mod' n s
  have hlt : n % s < 2 ^ 16 := (Nat.mod_lt n (by omega)).trans (by omega)
  -- the two remainders do not matter
  have hmod : (((n % 2 ^ 16 : ℕ) : ℤ) - (n / s % 2 ^ 16 : ℕ) * s) ≡ ((n % s : ℕ) : ℤ)
      [ZMOD 2 ^ 16] := by
    have hn : ((n % 2 ^ 16 : ℕ) : ℤ) ≡ n [ZMOD 2 ^ 16] := by
      push_cast
      exact Int.mod_modEq _ _
    have hq : ((n / s % 2 ^ 16 : ℕ) : ℤ) ≡ (n / s : ℕ) [ZMOD 2 ^ 16] := by
      push_cast
      exact Int.mod_modEq _ _
    have hrest : (n : ℤ) - (n / s : ℕ) * s = (n % s : ℕ) := by
      have hcast := congrArg (Nat.cast (R := ℤ)) hdiv
      rw [Nat.cast_add, Nat.cast_mul] at hcast
      omega
    exact hrest ▸ hn.sub (hq.mul_right s)
  rw [hmod.eq]
  omega

/-- An index has 8 bits. -/
theorem bufferIndex_lt (ld : ListDescriptor) (pbuffer : ℕ) : ld.bufferIndex pbuffer < 2 ^ 8 :=
  Nat.mod_lt _ (by decide)

/-- **The index of the `i`-th buffer**, of which the low 8 bits are kept. -/
theorem bufferIndex_new {i : ℕ} (hbase : base < 2 ^ 64) (hi : i < 2 ^ 16) :
    (new this base size pages).bufferIndex (add64 base (i * max size.toNat 8)) = i % 2 ^ 8 := by
  have hsize := size.toNat_lt
  have hs : max size.toNat 8 < 2 ^ 16 := by omega
  have hmul : i * max size.toNat 8 < 2 ^ 64 :=
    (Nat.mul_lt_mul'' hi hs).trans (by decide)
  have hsub : sub64 (add64 base (i * max size.toNat 8)) (new this base size pages).baseAddress =
      i * max size.toNat 8 := sub64_add64 hbase hmul
  rw [bufferIndex, hsub, bufferSize_new, Nat.mul_div_cancel i (by omega)]

/-- **How far the geometry of a slab is right**: up to 15 pages, and 256 buffers. -/
theorem exact_iff (this : ℕ) (size : UInt16) (pages : UInt8) (hbase : base < 2 ^ 64) :
    (new this base size pages).Exact (max size.toNat 8) pages.toNat ↔
      pages.toNat ≤ 15 ∧ pages.toNat * 0x1000 / max size.toNat 8 ≤ 256 := by
  constructor
  · intro h
    refine ⟨?_, Nat.le_of_not_lt fun hlt ↦ ?_⟩
    · have hfree := h.initialFreeSpace
      rw [initialFreeSpace_new hbase] at hfree
      omega
    · -- buffer 256 has an index of 9 bits
      have hindex := h.bufferIndex 256 (h.totalBuffers ▸ hlt)
      have hbits := (new this base size pages).bufferIndex_lt
        (add64 (new this base size pages).baseAddress (256 * max size.toNat 8))
      omega
  · rintro ⟨hpages, hcount⟩
    have htotal : (new this base size pages).totalBuffers =
        pages.toNat * 0x1000 / max size.toNat 8 := by
      rw [totalBuffers_new]
      exact Nat.mod_eq_of_lt (by omega)
    refine ⟨htotal, ?_, spaceAfterAllocation_new hbase, fun i hi ↦ ?_⟩
    · rw [initialFreeSpace_new hbase]
      exact Nat.mod_eq_of_lt (by omega)
    · rw [htotal] at hi
      exact (bufferIndex_new hbase (by omega)).trans (Nat.mod_eq_of_lt (by omega))

/-- One page of 8-byte buffers has 512, and one of 64-byte buffers 64. -/
theorem exact_iff_onePage :
    ((new 64 0x1000 8 1).Exact 8 1 ↔ 1 ≤ 15 ∧ 1 * 0x1000 / 8 ≤ 256) ∧
      ((new 64 0x1000 64 1).Exact 64 1 ↔ 1 ≤ 15 ∧ 1 * 0x1000 / 64 ≤ 256) :=
  ⟨exact_iff 64 8 1 (by decide), exact_iff 64 64 1 (by decide)⟩

/-- **Buffer 256 of a page of 8-byte buffers has index 0, and 16 pages have no free space.** -/
theorem not_exact_onePage :
    (new 64 0x1000 8 1).totalBuffers = 512 ∧
      (new 64 0x1000 8 1).bufferIndex (add64 0x1000 (256 * 8)) = 0 ∧
      ¬(new 64 0x1000 8 1).Exact 8 1 ∧
      (new 64 0x1000 4096 16).initialFreeSpace = 0 ∧ ¬(new 64 0x1000 4096 16).Exact 4096 16 := by
  have hindex : (new 64 0x1000 8 1).bufferIndex (add64 0x1000 (256 * 8)) = 0 := by decide
  have hfree : (new 64 0x1000 4096 16).initialFreeSpace = 0 := by decide
  refine ⟨by decide, hindex, fun h ↦ ?_, hfree, fun h ↦ ?_⟩
  · have h256 : (new 64 0x1000 8 1).bufferIndex (add64 0x1000 (256 * 8)) = 256 :=
      h.bufferIndex 256 (by decide)
    rw [hindex] at h256
    cases h256
  · have hpages := h.initialFreeSpace
    rw [hfree] at hpages
    cases hpages

end ListDescriptor

end Chisaka.Slab
