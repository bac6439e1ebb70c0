import Chisaka.Lib.Walk
import Chisaka.Ram.Freelist
import Chisaka.X8664.Paging.PageTable

/-!
# Mapping pages

`X86Pages` translates addresses by a tree of tables, four levels deep, and maps pages into it.  The
tables it needs for that come from the page allocator, so that the memory that the tables live in is
the memory of `Freelist`.

`child` is the tree that the upper three levels form, in the terms of `Walk`: which table an upper
entry leads to.  `leaf` is what an entry of a page table translates to.  `translate` puts the two
together, and `virtToPhys_eq` says that `VirtToPhys` is `translate` at the indices of the address.
The indices determine the page of a canonical address (`samePage_of_indices`).
-/

set_option autoImplicit false

namespace X8664

open Bytes Chisaka Chisaka.PageAllocators Walk

/-! ## The class -/

/-- `X86Pages::PageIndices`. -/
structure PageIndices where
  /-- `pm4le`. -/
  pm4le : BitVec 16
  /-- `pdpte`. -/
  pdpte : BitVec 16
  /-- `pde`. -/
  pde : BitVec 16
  /-- `pt`. -/
  pt : BitVec 16
  deriving DecidableEq

/-- `CANONCIAL_MASK`. -/
def canoncialMask : BitVec 64 := 0xFFFF800000000000#64

/-- `IsCanoncial`. -/
def isCanoncial (virtAddr : BitVec 64) : Bool :=
  let upperCanonical := virtAddr &&& canoncialMask = canoncialMask
  let lowerCanonical := virtAddr &&& canoncialMask = 0
  upperCanonical ∨ lowerCanonical

/-- `ExtractPageIndicies`. -/
def extractPageIndicies (virtAddr : BitVec 64) : Exec PageIndices := do
  kassert (isCanoncial virtAddr)
  return {
    pm4le := ((virtAddr &&& 0x1FF#64 <<< 39) >>> 39).setWidth 16
    pdpte := ((virtAddr &&& 0x1FF#64 <<< 30) >>> 30).setWidth 16
    pde := ((virtAddr &&& 0x1FF#64 <<< 21) >>> 21).setWidth 16
    pt := ((virtAddr &&& 0x1FF#64 <<< 12) >>> 12).setWidth 16 }

/-- `X86Pages`. -/
structure X86Pages where
  /-- `m_pml4`. -/
  pml4 : ℕ

namespace X86Pages

/-- `VirtToPhys`. -/
def virtToPhys (pages : X86Pages) (mem : Memory) (virtAddr : BitVec 64) : Exec (BitVec 64) := do
  kassert (isCanoncial virtAddr)
  let index ← extractPageIndicies virtAddr
  let pml4e ← UpperPageTable.getEntry mem pages.pml4 index.pm4le.toNat
  if !pml4e.isPresent then
    return 0
  let pdpt := pml4e.baseAddress.toNat
  let pdpte ← UpperPageTable.getEntry mem pdpt index.pdpte.toNat
  if !pdpte.isPresent then
    return 0
  let pd := pdpte.baseAddress.toNat
  let pde ← UpperPageTable.getEntry mem pd index.pde.toNat
  if !pde.isPresent then
    return 0
  let pt := pde.baseAddress.toNat
  let pte ← PageTable.getEntry mem pt index.pt.toNat
  if !pte.isPresent then
    return 0
  let pagebase := pte.baseAddress
  return pagebase + (virtAddr &&& 0xFFF#64)

/-- What `MapUserPage` does at each of the upper levels: unless the entry is present, make a table
for it.  The result is the table that the entry leads to. -/
def nextTable (fl : Freelist) (table : ℕ) (index : BitVec 16) : Exec (ℕ × Freelist) := do
  let entry ← UpperPageTable.getEntry fl.mem table index.toNat
  let fl ←
    if !entry.isPresent then do
      let (page, fl) ← allocatePage fl
      let entry := UpperPageEntry.createUser (BitVec.ofNat 64 page)
      let mem ← setEntry fl.mem table index.toNat entry.buffer
      pure { fl with mem := mem }
    else pure fl
  let entry ← UpperPageTable.getEntry fl.mem table index.toNat
  return (entry.baseAddress.toNat, fl)

/-- `MapUserPage`. -/
def mapUserPage (pages : X86Pages) (virtAddr pageBase : BitVec 64) (fl : Freelist) :
    Exec Freelist := do
  kassert (isCanoncial virtAddr)
  kassert (pageBase % 0x1000#64 = 0)
  let index ← extractPageIndicies virtAddr
  let (pdpt, fl) ← nextTable fl pages.pml4 index.pm4le
  let (pd, fl) ← nextTable fl pdpt index.pdpte
  let (pt, fl) ← nextTable fl pd index.pde
  let mem ← setEntry fl.mem pt index.pt.toNat (PageEntry.createUser pageBase).buffer
  return { fl with mem := mem }

end X86Pages

/-! ## Indices -/

/-- The index into a table, in the type of its bits. -/
abbrev Index := BitVec 9

theorem Index.lt (i : Index) : i.toNat < pageTableEntries := i.isLt

/-- The indices into the upper tables. -/
def upperPath (v : BitVec 64) : List Index :=
  [v.extractLsb' 39 9, v.extractLsb' 30 9, v.extractLsb' 21 9]

/-- The index into the page table. -/
def leafIndex (v : BitVec 64) : Index := v.extractLsb' 12 9

theorem indices_eq (v : BitVec 64) (k : ℕ) :
    ((v &&& 0x1FF#64 <<< k) >>> k).setWidth 16 = (v.extractLsb' k 9).setWidth 16 :=
  Bits.setWidth_and_shiftLeft_ushiftRight v k 9 16

theorem toNat_setWidth_index (i : Index) : (i.setWidth 16).toNat = i.toNat :=
  BitVec.toNat_setWidth_of_le (by decide)

theorem extractPageIndicies_of_canoncial {v : BitVec 64} (h : isCanoncial v) :
    extractPageIndicies v = .ok ⟨(v.extractLsb' 39 9).setWidth 16, (v.extractLsb' 30 9).setWidth 16,
      (v.extractLsb' 21 9).setWidth 16, (leafIndex v).setWidth 16⟩ := by
  simp only [extractPageIndicies, kassert, Exec.check_of h, Exec.ok_bind, Exec.pure_eq, indices_eq,
    leafIndex]

/-- Two addresses are in the same page. -/
def SamePage (v w : BitVec 64) : Prop := v >>> 12 = w >>> 12

theorem getLsbD_canoncialMask {j : ℕ} (hj : j < 64) :
    canoncialMask.getLsbD j = decide (47 ≤ j) := by
  have : ∀ k : Fin 64, canoncialMask.getLsbD k = decide (47 ≤ k.val) := by decide
  exact this ⟨j, hj⟩

/-- The bits above bit 47 of a canonical address repeat it. -/
theorem getLsbD_of_canoncial {v : BitVec 64} (h : isCanoncial v) {j : ℕ} (hj : 47 ≤ j)
    (hlt : j < 64) : v.getLsbD j = v.getLsbD 47 := by
  have hbit : ∀ {m : BitVec 64}, v &&& canoncialMask = m → ∀ k < 64, 47 ≤ k →
      v.getLsbD k = m.getLsbD k := by
    intro m hm k hk hge
    rw [← hm, BitVec.getLsbD_and, getLsbD_canoncialMask hk, decide_eq_true hge, Bool.and_true]
  rcases (decide_eq_true_iff.mp h) with hu | hl
  · rw [hbit hu j hlt hj, hbit hu 47 (by decide) (le_refl _), getLsbD_canoncialMask hlt,
      getLsbD_canoncialMask (by decide), decide_eq_true hj, decide_eq_true (le_refl _)]
  · rw [hbit hl j hlt hj, hbit hl 47 (by decide) (le_refl _)]
    simp

/-- **The indices of a canonical address are the indices of no other page.** -/
theorem samePage_of_indices {v w : BitVec 64} (hv : isCanoncial v) (hw : isCanoncial w)
    (hpath : upperPath v = upperPath w) (hleaf : leafIndex v = leafIndex w) : SamePage v w := by
  obtain ⟨h39, h30, h21, -⟩ := List.cons_eq_cons.mp hpath |>.imp_right
    fun h ↦ (List.cons_eq_cons.mp h).imp_right List.cons_eq_cons.mp
  -- a bit of a field is a bit of the address
  have hfield : ∀ {k : ℕ}, v.extractLsb' k 9 = w.extractLsb' k 9 → ∀ j, k ≤ j → j < k + 9 →
      v.getLsbD j = w.getLsbD j := by
    intro k hk j hj hlt
    have hbit := congrArg (fun x ↦ x.getLsbD (j - k)) hk
    simp only [BitVec.getLsbD_extractLsb'] at hbit
    rw [show k + (j - k) = j by omega] at hbit
    simpa [show j - k < 9 by omega] using hbit
  have hlow : ∀ j, 12 ≤ j → j < 48 → v.getLsbD j = w.getLsbD j := by
    intro j hj hlt
    by_cases h1 : j < 21
    · exact hfield hleaf j hj (by omega)
    by_cases h2 : j < 30
    · exact hfield h21 j (by omega) (by omega)
    by_cases h3 : j < 39
    · exact hfield h30 j (by omega) (by omega)
    · exact hfield h39 j (by omega) (by omega)
  refine BitVec.eq_of_getLsbD_eq fun j hj ↦ ?_
  rw [BitVec.getLsbD_ushiftRight, BitVec.getLsbD_ushiftRight]
  by_cases h48 : 12 + j < 48
  · exact hlow (12 + j) (by omega) h48
  by_cases h64 : 12 + j < 64
  · rw [getLsbD_of_canoncial hv (by omega) h64, getLsbD_of_canoncial hw (by omega) h64]
    exact hlow 47 (by decide) (by decide)
  · rw [BitVec.getLsbD_of_ge _ _ (by omega), BitVec.getLsbD_of_ge _ _ (by omega)]

/-- Addresses of one page have the same indices. -/
theorem SamePage.indices {v w : BitVec 64} (h : SamePage v w) :
    upperPath v = upperPath w ∧ leafIndex v = leafIndex w := by
  have hfield : ∀ k, 12 ≤ k → v.extractLsb' k 9 = w.extractLsb' k 9 := by
    intro k hk
    refine BitVec.eq_of_getLsbD_eq fun j hj ↦ ?_
    have hbit := congrArg (fun x ↦ x.getLsbD (k - 12 + j)) (show v >>> 12 = w >>> 12 from h)
    simp only [BitVec.getLsbD_ushiftRight] at hbit
    rw [BitVec.getLsbD_extractLsb', BitVec.getLsbD_extractLsb']
    rw [show 12 + (k - 12 + j) = k + j by omega] at hbit
    rw [hbit]
  refine ⟨?_, hfield 12 (le_refl _)⟩
  rw [upperPath, upperPath, hfield 39 (by decide), hfield 30 (by decide), hfield 21 (by decide)]

/-! ## The tree -/

/-- The entry of an upper table. -/
def upperEntry (mem : Memory) (table : ℕ) (i : Index) : UpperPageEntry :=
  ⟨entryWord mem table i.toNat⟩

/-- The table that an entry of an upper table leads to. -/
def child (mem : Memory) (table : ℕ) (i : Index) : Option ℕ :=
  if (upperEntry mem table i).isPresent then some (upperEntry mem table i).baseAddress.toNat
  else none

/-- The page that an entry of a page table leads to. -/
def leaf (mem : Memory) (table : ℕ) (i : Index) : Option (BitVec 64) :=
  let pte : PageEntry := ⟨entryWord mem table i.toNat⟩
  if pte.isPresent then some pte.baseAddress else none

/-- **The page tables as a map**, from the indices of a page to a page. -/
def translate (mem : Memory) (pml4 : ℕ) (path : List Index) (i : Index) : Option (BitVec 64) :=
  (walk (child mem) pml4 path).bind fun pt ↦ leaf mem pt i

section Tree

variable {mem : Memory} {pml4 table b : ℕ} {i : Index} {v : BitVec 64}

theorem child_of_isPresent (h : (upperEntry mem table i).isPresent) :
    child mem table i = some (upperEntry mem table i).baseAddress.toNat := if_pos h

theorem child_of_not_isPresent (h : ¬(upperEntry mem table i).isPresent) :
    child mem table i = none := if_neg h

/-- A present entry, and where it leads. -/
theorem upperEntry_of_eq_some (h : child mem table i = some b) :
    (upperEntry mem table i).isPresent ∧ (upperEntry mem table i).baseAddress.toNat = b := by
  rw [child] at h
  split at h
  · rename_i hpres
    exact ⟨hpres, Option.some.inj h⟩
  · exact absurd h (by simp)

theorem isPresent_of_eq_none (h : child mem table i = none) :
    (upperEntry mem table i).isPresent = false := by
  by_contra hpres
  rw [child_of_isPresent (by simpa using hpres)] at h
  exact absurd h (by simp)

theorem child_congr {mem' : Memory}
    (h : entryWord mem' table i.toNat = entryWord mem table i.toNat) :
    child mem' table i = child mem table i := by
  rw [child, child, upperEntry, upperEntry, h]

theorem leaf_congr {mem' : Memory}
    (h : entryWord mem' table i.toNat = entryWord mem table i.toNat) :
    leaf mem' table i = leaf mem table i := by
  rw [leaf, leaf, h]

/-- Where an entry leads to is aligned like a page. -/
theorem aligned_of_child (h : child mem table i = some b) : b % pageSize = 0 := by
  obtain ⟨-, rfl⟩ := upperEntry_of_eq_some h
  exact UpperPageEntry.baseAddress_aligned _

/-- No table within the upper levels is null. -/
def NonNull (mem : Memory) (pml4 : ℕ) : Prop := ∀ a, Reaches (child mem) pml4 3 a → a ≠ 0

/-- **`VirtToPhys` is the map at the indices of the address.** -/
theorem virtToPhys_eq (hn : NonNull mem pml4) (hv : isCanoncial v) :
    X86Pages.virtToPhys ⟨pml4⟩ mem v = .ok ((translate mem pml4 (upperPath v) (leafIndex v)).elim 0
      fun pagebase ↦ pagebase + (v &&& 0xFFF#64)) := by
  have hget : ∀ {a : ℕ} (i : Index), a ≠ 0 →
      UpperPageTable.getEntry mem a i.toNat = .ok (upperEntry mem a i) :=
    fun _ ha ↦ if_neg ha
  have hpt : ∀ {a : ℕ} (i : Index), a ≠ 0 →
      PageTable.getEntry mem a i.toNat = .ok ⟨entryWord mem a i.toNat⟩ :=
    fun _ ha ↦ if_neg ha
  have h0 : pml4 ≠ 0 := hn pml4 ⟨[], by simp, rfl⟩
  simp only [X86Pages.virtToPhys, kassert, Exec.check_of hv, extractPageIndicies_of_canoncial hv,
    Exec.ok_bind, Exec.pure_eq, toNat_setWidth_index, hget _ h0, translate, upperPath]
  generalize v.extractLsb' 39 9 = i₁, v.extractLsb' 30 9 = i₂, v.extractLsb' 21 9 = i₃,
    leafIndex v = i₄ at *
  by_cases h1 : (upperEntry mem pml4 i₁).isPresent
  swap
  · simp [h1, walk, child_of_not_isPresent h1]
  have hc1 := child_of_isPresent h1
  obtain ⟨pdpt, hb1⟩ : ∃ b, (upperEntry mem pml4 i₁).baseAddress.toNat = b := ⟨_, rfl⟩
  rw [hb1] at hc1
  have hp1 : pdpt ≠ 0 := hn pdpt ⟨[i₁], by simp, by simp [walk, hc1]⟩
  by_cases h2 : (upperEntry mem pdpt i₂).isPresent
  swap
  · simp [h1, hb1, hget _ hp1, h2, walk, hc1, child_of_not_isPresent h2]
  have hc2 := child_of_isPresent h2
  obtain ⟨pd, hb2⟩ : ∃ b, (upperEntry mem pdpt i₂).baseAddress.toNat = b := ⟨_, rfl⟩
  rw [hb2] at hc2
  have hp2 : pd ≠ 0 := hn pd ⟨[i₁, i₂], by simp, by simp [walk, hc1, hc2]⟩
  by_cases h3 : (upperEntry mem pd i₃).isPresent
  swap
  · simp [h1, hb1, hget _ hp1, h2, hb2, hget _ hp2, h3, walk, hc1, hc2, child_of_not_isPresent h3]
  have hc3 := child_of_isPresent h3
  obtain ⟨pt, hb3⟩ : ∃ b, (upperEntry mem pd i₃).baseAddress.toNat = b := ⟨_, rfl⟩
  rw [hb3] at hc3
  have hp3 : pt ≠ 0 := hn pt ⟨[i₁, i₂, i₃], by simp, by simp [walk, hc1, hc2, hc3]⟩
  by_cases h4 : PageEntry.isPresent ⟨entryWord mem pt i₄.toNat⟩ <;>
    simp [h1, hb1, hget _ hp1, h2, hb2, hget _ hp2, h3, hb3, hpt _ hp3, h4, walk, hc1, hc2, hc3,
      leaf]

end Tree

end X8664
