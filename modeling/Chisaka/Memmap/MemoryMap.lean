import Mathlib.Data.List.Basic
import Mathlib.Order.Interval.Set.Basic
import Chisaka.Types

/-!
# The memory map

What the boot loader says about physical memory, as `MemoryMap` holds it: an array of
`maxEntries` entries, those the boot loader did not fill marked `Empty`.

`MemoryMap.Wellformed` is what the boot loader promises about the `Useable` entries and about no
others: they are listed in the order of their bases, they do not overlap, and each is a non-empty
run of whole pages that does not start at address 0.  `MemoryMap.BelowTop` is a separate statement
because nothing in that list implies it: an entry may reach the very end of the 64-bit address
space, where `base + length` is 0.
-/

set_option autoImplicit false

namespace Chisaka

/-- `MemoryMapEntry::Type`. -/
inductive EntryType
  | Useable | Reserved | AcpiReclaimable | AcpiNVS | BadMemory | BootLoaderReclaimable | Kernel
  | FrameBuffer | Empty | Unknown
  deriving DecidableEq, Repr

/-- A region of physical memory. -/
structure MemoryMapEntry where
  /-- Its first address. -/
  base : UInt64
  /-- Its length in bytes. -/
  length : UInt64
  /-- What it may be used for. -/
  type : EntryType
  deriving DecidableEq, Repr

/-- `MAX_ENTRIES`. -/
def maxEntries : ℕ := 20

/-- The array of entries. -/
structure MemoryMap where
  /-- `m_entries`. -/
  entries : List MemoryMapEntry
  /-- It is an array of fixed size. -/
  size_eq : entries.length = maxEntries

/-- The entry that fills the rest of the array. -/
def MemoryMapEntry.empty : MemoryMapEntry := ⟨0, 0, .Empty⟩

/-- The memory map with the given entries, the rest of the array filled with `Empty` ones, as
`Init` leaves it.  The kernel asserts that the entries fit. -/
def MemoryMap.ofList (src : List MemoryMapEntry) (h : src.length ≤ maxEntries) : MemoryMap :=
  ⟨src ++ List.replicate (maxEntries - src.length) .empty, by simp; omega⟩

/-- The `Useable` entries. -/
def MemoryMap.useable (m : MemoryMap) : List MemoryMapEntry :=
  m.entries.filter fun e ↦ e.type = .Useable

/-! ## Pages -/

/-- The size of a page. -/
def pageSize : ℕ := 0x1000

/-- The bases of the `n` pages from `a` on. -/
def pagesFrom (a n : ℕ) : List ℕ := (List.range n).map fun i ↦ a + i * pageSize

theorem mem_pagesFrom {a n p : ℕ} : p ∈ pagesFrom a n ↔ ∃ i < n, p = a + i * pageSize := by
  simp [pagesFrom, eq_comm]

theorem lt_of_mem_pagesFrom {a n p : ℕ} (h : p ∈ pagesFrom a n) :
    a ≤ p ∧ p < a + n * pageSize := by
  obtain ⟨i, hi, rfl⟩ := mem_pagesFrom.mp h
  simp only [pageSize]
  omega

@[simp] theorem length_pagesFrom (a n : ℕ) : (pagesFrom a n).length = n := by
  simp [pagesFrom]

@[simp] theorem pagesFrom_zero (a : ℕ) : pagesFrom a 0 = [] := rfl

theorem pagesFrom_succ (a n : ℕ) :
    pagesFrom a (n + 1) = a :: pagesFrom (a + pageSize) n := by
  rw [pagesFrom, List.range_succ_eq_map, List.map_cons, List.map_map, pagesFrom]
  simp only [Nat.zero_mul, Nat.add_zero, List.cons.injEq, true_and]
  refine List.map_congr_left fun i _ ↦ ?_
  simp only [Function.comp_apply, Nat.succ_mul]
  omega

theorem pagesFrom_snoc (a n : ℕ) :
    pagesFrom a (n + 1) = pagesFrom a n ++ [a + n * pageSize] := by
  rw [pagesFrom, List.range_succ, List.map_append, pagesFrom]
  rfl

theorem pairwise_pagesFrom (a n : ℕ) : (pagesFrom a n).Pairwise (· < ·) := by
  refine List.pairwise_map.mpr (List.pairwise_lt_range.imp ?_)
  intro i j hij
  exact Nat.add_lt_add_left (Nat.mul_lt_mul_of_pos_right hij (by decide)) a

/-- A page of physical memory: aligned, not at address 0, addressable. -/
structure IsPage (p : ℕ) : Prop where
  /-- Pages are aligned to their size. -/
  aligned : p % pageSize = 0
  /-- The page at address 0 is not used. -/
  pos : p ≠ 0
  /-- Addresses have 64 bits. -/
  lt : p < 2 ^ 64

instance (p : ℕ) : Decidable (IsPage p) :=
  decidable_of_iff (p % pageSize = 0 ∧ p ≠ 0 ∧ p < 2 ^ 64)
    ⟨fun ⟨h1, h2, h3⟩ ↦ ⟨h1, h2, h3⟩, fun h ↦ ⟨h.aligned, h.pos, h.lt⟩⟩

/-- Two pages do not overlap. -/
theorem IsPage.disjoint {p q : ℕ} (hp : IsPage p) (hq : IsPage q) (hne : p ≠ q) :
    p + pageSize ≤ q ∨ q + pageSize ≤ p := by
  have h1 := hp.aligned
  have h2 := hq.aligned
  simp only [pageSize] at *
  omega

/-- The pages of an entry. -/
def MemoryMapEntry.pages (e : MemoryMapEntry) : List ℕ :=
  pagesFrom e.base.toNat (e.length.toNat / pageSize)

/-- The pages of the `Useable` entries. -/
def MemoryMap.useablePages (m : MemoryMap) : List ℕ := m.useable.flatMap MemoryMapEntry.pages

/-! ## What the boot loader promises -/

/-- A non-empty run of whole pages that does not start at address 0. -/
structure MemoryMapEntry.Paged (e : MemoryMapEntry) : Prop where
  /-- The base is not null. -/
  base_ne : e.base.toNat ≠ 0
  /-- The base is aligned. -/
  base_aligned : e.base.toNat % pageSize = 0
  /-- The region is not empty. -/
  length_ne : e.length.toNat ≠ 0
  /-- The region consists of whole pages. -/
  length_aligned : e.length.toNat % pageSize = 0

/-- The addresses of a region. -/
def MemoryMapEntry.region (e : MemoryMapEntry) : Set ℕ :=
  Set.Ico e.base.toNat (e.base.toNat + e.length.toNat)

/-- The `Useable` entries are sorted by base, pairwise disjoint, and made of whole pages. -/
structure MemoryMap.Wellformed (m : MemoryMap) : Prop where
  /-- Sorted by base. -/
  sorted : m.useable.Pairwise fun e f ↦ e.base.toNat ≤ f.base.toNat
  /-- No address is in two of them. -/
  disjoint : m.useable.Pairwise fun e f ↦ ∀ x ∈ e.region, x ∉ f.region
  /-- Every entry is made of pages. -/
  paged : ∀ e ∈ m.useable, e.Paged

/-- Every `Useable` entry ends below the top of the 64-bit address space. -/
def MemoryMap.BelowTop (m : MemoryMap) : Prop :=
  ∀ e ∈ m.useable, e.base.toNat + e.length.toNat < 2 ^ 64

/-- Sorted, disjoint and non-empty: an entry starts at or above the end of every earlier one. -/
theorem MemoryMap.Wellformed.end_le {m : MemoryMap} (h : m.Wellformed) :
    m.useable.Pairwise fun e f ↦ e.base.toNat + e.length.toNat ≤ f.base.toNat := by
  refine (h.sorted.and h.disjoint).imp_of_mem fun {e f} _ hf hef ↦ ?_
  by_contra hlt
  have hmem : f.base.toNat ∈ f.region := by
    have := (h.paged f hf).length_ne
    exact ⟨le_refl _, by omega⟩
  exact hef.2 _ ⟨hef.1, by omega⟩ hmem

/-- The first page is of no region. -/
theorem MemoryMapEntry.Paged.pageSize_le {e : MemoryMapEntry} (he : e.Paged) :
    pageSize ≤ e.base.toNat :=
  Nat.le_of_dvd (Nat.pos_of_ne_zero he.base_ne) (Nat.dvd_of_mod_eq_zero he.base_aligned)

theorem MemoryMapEntry.isPage_of_mem_pages {e : MemoryMapEntry} (he : e.Paged)
    (ht : e.base.toNat + e.length.toNat < 2 ^ 64) {p : ℕ} (hp : p ∈ e.pages) : IsPage p := by
  obtain ⟨i, hi, rfl⟩ := mem_pagesFrom.mp hp
  have h1 := he.base_ne
  have h2 := he.base_aligned
  have h3 := he.length_aligned
  simp only [pageSize] at *
  exact ⟨by simp only [pageSize]; omega, by omega, by omega⟩

end Chisaka
