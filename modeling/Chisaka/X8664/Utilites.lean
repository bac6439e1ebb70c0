import Chisaka.X8664.X86Pages

/-!
# Addresses and page indices

Besides `X86Pages`, the free functions `KVirtFromPageIndex` and `ExtractPageIndicies` translate
between kernel addresses and the indices of the four levels of page tables.  They have a
`PageIndices` of their own, with the same members.

An address that is put together is 16 ones, the four indices and the offset side by side
(`kVirtFromPageIndex_eq`), and an index is cut out of an address where it was put.
`PageIndexCodec` is what follows: the functions undo each other, the result is canonical exactly if
its bit 47 is set as well, and the two functions that extract indices are one.
-/

set_option autoImplicit false

namespace X8664

open Chisaka

/-! ## The functions -/

/-- `KVirtFromPageIndex`. -/
def kVirtFromPageIndex (indices : PageIndices) (offset : BitVec 16) : BitVec 64 :=
  let vaddr : BitVec 64 := 0
  -- canonicality
  let vaddr := vaddr ||| 0xFFFF#64
  let vaddr := vaddr <<< 9
  let vaddr := vaddr ||| (indices.pm4le &&& 0x1FF#16).setWidth 64
  let vaddr := vaddr <<< 9
  let vaddr := vaddr ||| (indices.pdpte &&& 0x1FF#16).setWidth 64
  let vaddr := vaddr <<< 9
  let vaddr := vaddr ||| (indices.pde &&& 0x1FF#16).setWidth 64
  let vaddr := vaddr <<< 9
  let vaddr := vaddr ||| (indices.pt &&& 0x1FF#16).setWidth 64
  let vaddr := vaddr <<< 12
  vaddr ||| (offset &&& 0xFFF#16).setWidth 64

/-- The free function `ExtractPageIndicies`. -/
def Utilites.extractPageIndicies (vaddr : BitVec 64) : PageIndices where
  pm4le := ((vaddr &&& 0x1FF#64 <<< 39) >>> 39).setWidth 16
  pdpte := ((vaddr &&& 0x1FF#64 <<< 30) >>> 30).setWidth 16
  pde := ((vaddr &&& 0x1FF#64 <<< 21) >>> 21).setWidth 16
  pt := ((vaddr &&& 0x1FF#64 <<< 12) >>> 12).setWidth 16

/-! ## What they should do -/

/-- The indices are those of entries. -/
structure PageIndices.Inside (i : PageIndices) : Prop where
  /-- `pm4le`. -/
  pm4le : i.pm4le.toNat < pageTableEntries
  /-- `pdpte`. -/
  pdpte : i.pdpte.toNat < pageTableEntries
  /-- `pde`. -/
  pde : i.pde.toNat < pageTableEntries
  /-- `pt`. -/
  pt : i.pt.toNat < pageTableEntries

/-- **Indices and addresses are translated into each other.** -/
structure PageIndexCodec : Prop where
  /-- The indices and the offset are found in the address. -/
  extract : ∀ (i : PageIndices) (offset : BitVec 16), i.Inside → offset.toNat < pageSize →
    Utilites.extractPageIndicies (kVirtFromPageIndex i offset) = i ∧
      kVirtFromPageIndex i offset &&& 0xFFF#64 = offset.setWidth 64
  /-- An address whose upper 16 bits are set is put together again. -/
  combine : ∀ v : BitVec 64, v.extractLsb' 48 16 = 0xFFFF →
    kVirtFromPageIndex (Utilites.extractPageIndicies v) ((v &&& 0xFFF#64).setWidth 16) = v
  /-- The address is canonical in the upper half. -/
  canoncial : ∀ (i : PageIndices) (offset : BitVec 16), i.Inside → offset.toNat < pageSize →
    (isCanoncial (kVirtFromPageIndex i offset) = true ↔ 256 ≤ i.pm4le.toNat)
  /-- `X86Pages` extracts the same indices. -/
  agree : ∀ v, isCanoncial v → extractPageIndicies v = .ok (Utilites.extractPageIndicies v)
  /-- The indices of canonical addresses are those of their pages. -/
  samePage : ∀ v w, isCanoncial v → isCanoncial w →
    (Utilites.extractPageIndicies v = Utilites.extractPageIndicies w ↔ SamePage v w)

/-! ## What they do -/

variable {i : PageIndices} {offset x : BitVec 16} {v w : BitVec 64}

/-- A word that is short enough is its low bits. -/
theorem setWidth_low {k : ℕ} (n : ℕ) (h : x.toNat < 2 ^ k) :
    (x.extractLsb' 0 k).setWidth n = x.setWidth n := by
  refine BitVec.eq_of_toNat_eq ?_
  rw [BitVec.toNat_setWidth, BitVec.extractLsb'_toNat, Nat.shiftRight_zero, Nat.mod_eq_of_lt h,
    BitVec.toNat_setWidth]

theorem extractLsb'_setWidth_self {k m : ℕ} {y : BitVec k} (h : k ≤ m) :
    (y.setWidth m).extractLsb' 0 k = y := by
  ext j hj
  have hjm : j < m := by omega
  simp [hjm, BitVec.getLsbD_eq_getElem hj]

/-- An address is its fields side by side. -/
theorem append_fields (v : BitVec 64) :
    v.extractLsb' 48 16 ++ v.extractLsb' 39 9 ++ v.extractLsb' 30 9 ++ v.extractLsb' 21 9 ++
      v.extractLsb' 12 9 ++ v.extractLsb' 0 12 = v := by
  calc _ = v.extractLsb' 39 25 ++ v.extractLsb' 30 9 ++ v.extractLsb' 21 9 ++
          v.extractLsb' 12 9 ++ v.extractLsb' 0 12 := by rw [← Bits.extract_append v 39 9 16]
    _ = v.extractLsb' 30 34 ++ v.extractLsb' 21 9 ++ v.extractLsb' 12 9 ++
          v.extractLsb' 0 12 := by rw [← Bits.extract_append v 30 9 25]
    _ = v.extractLsb' 21 43 ++ v.extractLsb' 12 9 ++ v.extractLsb' 0 12 := by
        rw [← Bits.extract_append v 21 9 34]
    _ = v.extractLsb' 12 52 ++ v.extractLsb' 0 12 := by rw [← Bits.extract_append v 12 9 43]
    _ = v.extractLsb' 0 64 := Bits.extract_append v 0 12 52
    _ = v := BitVec.extractLsb'_eq_self

/-- **The fields of an address**, side by side. -/
theorem kVirtFromPageIndex_eq (i : PageIndices) (offset : BitVec 16) :
    kVirtFromPageIndex i offset = 0xFFFF#16 ++ i.pm4le.extractLsb' 0 9 ++ i.pdpte.extractLsb' 0 9 ++
      i.pde.extractLsb' 0 9 ++ i.pt.extractLsb' 0 9 ++ offset.extractLsb' 0 12 := by
  have hindex : ∀ x : BitVec 16, (x &&& 0x1FF#16).setWidth 64 = (x.extractLsb' 0 9).setWidth 64 :=
    fun x ↦ Bits.setWidth_and x 9 64
  have hoffset : (offset &&& 0xFFF#16).setWidth 64 = (offset.extractLsb' 0 12).setWidth 64 :=
    Bits.setWidth_and offset 12 64
  have hones : (0 : BitVec 64) ||| 0xFFFF#64 = (0xFFFF#16).setWidth 64 := by decide
  simp only [kVirtFromPageIndex, hindex, hoffset, hones, Bits.shiftLeft_or_setWidth]
  exact BitVec.setWidth_eq _

theorem Utilites.extractPageIndicies_eq (v : BitVec 64) :
    Utilites.extractPageIndicies v = ⟨(v.extractLsb' 39 9).setWidth 16,
      (v.extractLsb' 30 9).setWidth 16, (v.extractLsb' 21 9).setWidth 16,
      (v.extractLsb' 12 9).setWidth 16⟩ := by
  rw [extractPageIndicies, indices_eq, indices_eq, indices_eq, indices_eq]

/-- Where the fields are. -/
theorem extractLsb'_kVirtFromPageIndex (i : PageIndices) (offset : BitVec 16) :
    (kVirtFromPageIndex i offset).extractLsb' 48 16 = 0xFFFF ∧
      (kVirtFromPageIndex i offset).extractLsb' 39 9 = i.pm4le.extractLsb' 0 9 ∧
      (kVirtFromPageIndex i offset).extractLsb' 30 9 = i.pdpte.extractLsb' 0 9 ∧
      (kVirtFromPageIndex i offset).extractLsb' 21 9 = i.pde.extractLsb' 0 9 ∧
      (kVirtFromPageIndex i offset).extractLsb' 12 9 = i.pt.extractLsb' 0 9 ∧
      (kVirtFromPageIndex i offset).extractLsb' 0 12 = offset.extractLsb' 0 12 := by
  rw [kVirtFromPageIndex_eq]
  generalize i.pm4le.extractLsb' 0 9 = a, i.pdpte.extractLsb' 0 9 = b,
    i.pde.extractLsb' 0 9 = c, i.pt.extractLsb' 0 9 = d, offset.extractLsb' 0 12 = e
  -- a field above the last one is a field of what is in front of that
  have hup : ∀ {n k : ℕ} (x : BitVec n) (y : BitVec k) (start len : ℕ),
      (x ++ y).extractLsb' (k + start) len = x.extractLsb' start len := by
    intro n k x y start len
    rw [BitVec.extractLsb'_append_eq_of_le (Nat.le_add_right k start), Nat.add_sub_cancel_left]
  have hlast : ∀ {n k : ℕ} (x : BitVec n) (y : BitVec k), (x ++ y).extractLsb' 0 k = y :=
    fun _ _ ↦ BitVec.extractLsb'_append_eq_right
  refine ⟨?_, ?_, ?_, ?_, ?_, hlast _ e⟩
  · calc _ = (0xFFFF#16 ++ a ++ b ++ c ++ d).extractLsb' (9 + 27) 16 := hup _ e 36 16
      _ = (0xFFFF#16 ++ a ++ b ++ c).extractLsb' (9 + 18) 16 := hup _ d 27 16
      _ = (0xFFFF#16 ++ a ++ b).extractLsb' (9 + 9) 16 := hup _ c 18 16
      _ = (0xFFFF#16 ++ a).extractLsb' (9 + 0) 16 := hup _ b 9 16
      _ = (0xFFFF#16).extractLsb' 0 16 := hup _ a 0 16
      _ = 0xFFFF := by decide
  · calc _ = (0xFFFF#16 ++ a ++ b ++ c ++ d).extractLsb' (9 + 18) 9 := hup _ e 27 9
      _ = (0xFFFF#16 ++ a ++ b ++ c).extractLsb' (9 + 9) 9 := hup _ d 18 9
      _ = (0xFFFF#16 ++ a ++ b).extractLsb' (9 + 0) 9 := hup _ c 9 9
      _ = (0xFFFF#16 ++ a).extractLsb' 0 9 := hup _ b 0 9
      _ = a := hlast _ a
  · calc _ = (0xFFFF#16 ++ a ++ b ++ c ++ d).extractLsb' (9 + 9) 9 := hup _ e 18 9
      _ = (0xFFFF#16 ++ a ++ b ++ c).extractLsb' (9 + 0) 9 := hup _ d 9 9
      _ = (0xFFFF#16 ++ a ++ b).extractLsb' 0 9 := hup _ c 0 9
      _ = b := hlast _ b
  · calc _ = (0xFFFF#16 ++ a ++ b ++ c ++ d).extractLsb' (9 + 0) 9 := hup _ e 9 9
      _ = (0xFFFF#16 ++ a ++ b ++ c).extractLsb' 0 9 := hup _ d 0 9
      _ = c := hlast _ c
  · calc _ = (0xFFFF#16 ++ a ++ b ++ c ++ d).extractLsb' 0 9 := hup _ e 0 9
      _ = d := hlast _ d

theorem isCanoncial_iff (v : BitVec 64) :
    isCanoncial v = true ↔ ∀ j, 47 ≤ j → j < 64 → v.getLsbD j = v.getLsbD 47 := by
  refine ⟨fun h j hj hlt ↦ getLsbD_of_canoncial h hj hlt, fun h ↦ ?_⟩
  have hbit : ∀ j < 64, (v &&& canoncialMask).getLsbD j
      = (v.getLsbD 47 && decide (47 ≤ j)) := by
    intro j hj
    rw [BitVec.getLsbD_and, getLsbD_canoncialMask hj]
    by_cases hge : 47 ≤ j
    · rw [h j hge hj]
    · simp [hge]
  refine decide_eq_true ?_
  cases h47 : v.getLsbD 47 with
  | true =>
    refine .inl (BitVec.eq_of_getLsbD_eq fun j hj ↦ ?_)
    rw [hbit j hj, h47, Bool.true_and, getLsbD_canoncialMask hj]
  | false =>
    refine .inr (BitVec.eq_of_getLsbD_eq fun j hj ↦ ?_)
    rw [hbit j hj, h47, Bool.false_and]
    exact BitVec.getLsbD_zero.symm

/-- The address is canonical exactly if the upper bit of the first index is set, too. -/
theorem isCanoncial_kVirtFromPageIndex_iff (i : PageIndices) (offset : BitVec 16) :
    isCanoncial (kVirtFromPageIndex i offset) = true ↔ i.pm4le.getLsbD 8 = true := by
  obtain ⟨hones, hpm4le, -⟩ := extractLsb'_kVirtFromPageIndex i offset
  have hupper : ∀ j, 48 ≤ j → j < 64 → (kVirtFromPageIndex i offset).getLsbD j = true := by
    intro j hj hlt
    have hall : ∀ k < 16, (0xFFFF : BitVec 16).getLsbD k = true := by decide
    have hbit := congrArg (fun x ↦ x.getLsbD (j - 48)) hones
    simp only [BitVec.getLsbD_extractLsb'] at hbit
    rw [hall (j - 48) (by omega), decide_eq_true (show j - 48 < 16 by omega), Bool.true_and,
      Nat.add_sub_cancel' hj] at hbit
    exact hbit
  have h47 : (kVirtFromPageIndex i offset).getLsbD 47 = i.pm4le.getLsbD 8 := by
    have hbit := congrArg (fun x ↦ x.getLsbD 8) hpm4le
    simpa using hbit
  rw [isCanoncial_iff, h47]
  refine ⟨fun h ↦ (h 48 (by decide) (by decide)).symm.trans
    (hupper 48 (le_refl _) (by decide)), fun h j hj hlt ↦ ?_⟩
  rcases Nat.eq_or_lt_of_le hj with rfl | hgt
  · exact h47
  · rw [hupper j hgt hlt, h]

/-- Nine bits of which the upper one is set. -/
theorem getLsbD_eight_iff (h : x.toNat < pageTableEntries) :
    x.getLsbD 8 = true ↔ 256 ≤ x.toNat := by
  have hdiv : x.getLsbD 8 = decide (x.toNat / 2 ^ 8 % 2 = 1) := Nat.testBit_eq_decide_div_mod_eq
  rw [hdiv, decide_eq_true_iff]
  rw [pageTableEntries] at h
  omega

/-- **The indices are those of the page.** -/
theorem extractPageIndicies_eq_iff (hv : isCanoncial v) (hw : isCanoncial w) :
    Utilites.extractPageIndicies v = Utilites.extractPageIndicies w ↔ SamePage v w := by
  have hinj : ∀ a b : Index, a.setWidth 16 = b.setWidth 16 → a = b := by
    intro a b h
    have hnat := congrArg BitVec.toNat h
    rw [toNat_setWidth_index, toNat_setWidth_index] at hnat
    exact BitVec.eq_of_toNat_eq hnat
  rw [Utilites.extractPageIndicies_eq, Utilites.extractPageIndicies_eq]
  constructor
  · intro h
    obtain ⟨h39, h30, h21, h12⟩ := PageIndices.mk.inj h
    refine samePage_of_indices hv hw ?_ (hinj _ _ h12)
    rw [upperPath, upperPath, hinj _ _ h39, hinj _ _ h30, hinj _ _ h21]
  · intro h
    obtain ⟨hpath, hleaf⟩ := h.indices
    obtain ⟨h39, htail⟩ := List.cons_eq_cons.mp hpath
    obtain ⟨h30, htail⟩ := List.cons_eq_cons.mp htail
    obtain ⟨h21, -⟩ := List.cons_eq_cons.mp htail
    rw [leafIndex, leafIndex] at hleaf
    rw [h39, h30, h21, hleaf]

/-- **Indices and addresses are translated into each other**, by either function. -/
theorem pageIndexCodec : PageIndexCodec where
  extract i offset hi ho := by
    obtain ⟨-, h39, h30, h21, h12, h0⟩ := extractLsb'_kVirtFromPageIndex i offset
    constructor
    · rw [Utilites.extractPageIndicies_eq, h39, h30, h21, h12, setWidth_low 16 hi.pm4le,
        setWidth_low 16 hi.pdpte, setWidth_low 16 hi.pde, setWidth_low 16 hi.pt,
        BitVec.setWidth_eq, BitVec.setWidth_eq, BitVec.setWidth_eq, BitVec.setWidth_eq]
    · have hlow := Bits.setWidth_and (kVirtFromPageIndex i offset) 12 64
      rw [BitVec.setWidth_eq, h0] at hlow
      have hlt : offset.toNat < 2 ^ 12 := ho
      exact hlow.trans (setWidth_low 64 hlt)
  combine v hv := by
    have hoffset : (v &&& 0xFFF#64).setWidth 16 = (v.extractLsb' 0 12).setWidth 16 :=
      Bits.setWidth_and v 12 16
    have hones : 0xFFFF#16 = v.extractLsb' 48 16 := hv.symm
    have hnine : ∀ y : BitVec 9, (y.setWidth 16).extractLsb' 0 9 = y :=
      fun _ ↦ extractLsb'_setWidth_self (by decide)
    have htwelve : ∀ y : BitVec 12, (y.setWidth 16).extractLsb' 0 12 = y :=
      fun _ ↦ extractLsb'_setWidth_self (by decide)
    rw [hoffset, Utilites.extractPageIndicies_eq, kVirtFromPageIndex_eq, hnine, hnine, hnine,
      hnine, htwelve, hones]
    exact append_fields v
  canoncial i offset hi _ :=
    (isCanoncial_kVirtFromPageIndex_iff i offset).trans (getLsbD_eight_iff hi.pm4le)
  agree v hv := by
    rw [extractPageIndicies, kassert, Exec.check_of hv]
    rfl
  samePage v w hv hw := extractPageIndicies_eq_iff hv hw

end X8664
