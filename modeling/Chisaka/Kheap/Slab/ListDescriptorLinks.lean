import Chisaka.Kheap.Slab.ListDescriptorSpec

/-!
# Where `SetupLinkage` writes

`SetupLinkage` walks over the region in steps of a buffer and writes a link wherever it comes by.
The places are `place ld 0`, `place ld 1` and so on, computed with 64 bits, and it goes on from one
to the next as long as the next one lies below the limit (`writes_iff`).

* A buffer that starts in the region may end behind it, and its link with it: the bound of the loop
  is about the start of the next buffer.
* Behind the last place the sum may wrap around, when the region ends close to the top of the
  address space.  The walk then goes on below the base.

`setupLinkage_writesInside_iff` is the condition under which all links lie in the region, and
`setupLinkage_returns_iff` the one under which the walk ends.
-/

set_option autoImplicit false

namespace Chisaka.Slab

open Bytes

namespace ListDescriptor

variable {ld : ListDescriptor} {mem : Memory} {c i n : ℕ}

/-! ## The walk -/

/-- The value of `currentBuffer` after `i` rounds. -/
def place (ld : ListDescriptor) (i : ℕ) : ℕ := (ld.baseAddress + i * ld.bufferSize) % 2 ^ 64

theorem place_zero (h : ld.baseAddress < 2 ^ 64) : ld.place 0 = ld.baseAddress := by
  rw [place, Nat.zero_mul, Nat.add_zero, Nat.mod_eq_of_lt h]

theorem place_succ (ld : ListDescriptor) (i : ℕ) :
    ld.place (i + 1) = add64 (ld.place i) ld.bufferSize := by
  rw [place, place, add64, Nat.mod_add_mod, Nat.succ_mul, Nat.add_assoc]

theorem place_of_lt (h : ld.baseAddress + i * ld.bufferSize < 2 ^ 64) :
    ld.place i = ld.baseAddress + i * ld.bufferSize := Nat.mod_eq_of_lt h

/-- The walk goes on from the `i`-th place. -/
def GoesOn (ld : ListDescriptor) (i : ℕ) : Prop := ld.place i ≠ 0 ∧ ld.place (i + 1) < ld.limit

/-- The loop of `SetupLinkage`. -/
abbrev linkBody (ld : ListDescriptor) : Memory × ℕ → Exec ((Memory × ℕ) ⊕ (Memory × ℕ)) :=
  setupLinkageBody ld.bufferSize ld.limit

theorem linkBody_inl (h : ld.GoesOn i) : ld.linkBody (mem, ld.place i)
    = .ok (.inl (writeWord mem (ld.place i) (ld.place (i + 1)), ld.place (i + 1))) := by
  have hlt := h.2
  rw [place_succ] at hlt ⊢
  simp [linkBody, setupLinkageBody, hlt, h.1]

theorem linkBody_inr (h : ld.limit ≤ ld.place (i + 1)) :
    ld.linkBody (mem, ld.place i) = .ok (.inr (mem, ld.place i)) := by
  rw [place_succ] at h
  simp [linkBody, setupLinkageBody, not_lt.mpr h]

theorem linkBody_error (h0 : ld.place i = 0) (h : ld.place (i + 1) < ld.limit) :
    ld.linkBody (mem, ld.place i) = .error .nullDeref := by
  rw [place_succ, h0] at h
  simp [linkBody, setupLinkageBody, h0, h]

/-- `SetupLinkage` writes to `c`.  It does so to every value that `currentBuffer` has at the start
of a round: the address of the next buffer in a round that goes on, and null in the last one. -/
def Writes (ld : ListDescriptor) (mem : Memory) (c : ℕ) : Prop :=
  ∃ mem', Loop.Visits ld.linkBody (mem, ld.baseAddress) (mem', c)

/-- **The places that are written to.** -/
theorem writes_iff (hb : ld.baseAddress < 2 ^ 64) :
    ld.Writes mem c ↔ ∃ i, c = ld.place i ∧ ∀ j < i, ld.GoesOn j := by
  constructor
  · rintro ⟨mem', hv⟩
    generalize hs : (mem', c) = s at hv
    induction hv generalizing mem' c with
    | refl =>
      obtain ⟨-, rfl⟩ := Prod.mk.inj hs
      exact ⟨0, (place_zero hb).symm, by simp⟩
    | @step t u _ hbody ih =>
      obtain ⟨m, d⟩ := t
      obtain ⟨i, rfl, hi⟩ := ih m rfl
      by_cases hlt : ld.place (i + 1) < ld.limit
      · by_cases h0 : ld.place i = 0
        · rw [linkBody_error h0 hlt] at hbody
          cases hbody
        · rw [linkBody_inl ⟨h0, hlt⟩] at hbody
          cases hbody
          obtain ⟨-, rfl⟩ := Prod.mk.inj hs
          refine ⟨i + 1, rfl, fun j hj ↦ ?_⟩
          rcases Nat.lt_succ_iff_lt_or_eq.mp hj with hj | rfl
          · exact hi j hj
          · exact ⟨h0, hlt⟩
      · rw [linkBody_inr (not_lt.mp hlt)] at hbody
        cases hbody
  · rintro ⟨i, rfl, hi⟩
    induction i with
    | zero => exact ⟨mem, place_zero hb ▸ .refl⟩
    | succ i ih =>
      obtain ⟨m, hv⟩ := ih fun j hj ↦ hi j (by omega)
      exact ⟨_, hv.step (linkBody_inl (hi i (Nat.lt_succ_self i)))⟩

/-! ## Where the walk stays inside -/

/-- What the constructor makes of its arguments, for a page at least. -/
structure Made (ld : ListDescriptor) : Prop where
  /-- The base is an address, or null. -/
  base_lt : ld.baseAddress < 2 ^ 64
  /-- A buffer can hold a link. -/
  size_le : 8 ≤ ld.bufferSize
  /-- The size has 16 bits. -/
  size_lt : ld.bufferSize < 2 ^ 16
  /-- There is a page. -/
  pages_pos : 1 ≤ ld.pages
  /-- The number of pages has 8 bits. -/
  pages_lt : ld.pages < 2 ^ 8

theorem made_new (this : ℕ) (base : UInt64) (size : UInt16) {pages : UInt8} (h : 1 ≤ pages) :
    (new this base.toNat size pages).Made where
  base_lt := base.toNat_lt
  size_le := le_new_bufferSize
  size_lt := by
    simp only [new]
    split
    · decide
    · exact size.toNat_lt
  pages_pos := h
  pages_lt := pages.toNat_lt

/-- The last of the linked buffers starts in the region, and ends at its end or behind. -/
theorem Made.mul_linked (h : ld.Made) : (ld.linked - 1) * ld.bufferSize < 0x1000 * ld.pages ∧
    ld.linked * ld.bufferSize = (ld.linked - 1) * ld.bufferSize + ld.bufferSize ∧
    0x1000 * ld.pages ≤ ld.linked * ld.bufferSize := by
  have hpages := h.pages_pos
  have hsize := h.size_le
  obtain ⟨hle, hsucc, hge⟩ := ListDescriptor.mul_linked (show 0 < ld.bufferSize by omega)
  exact ⟨by omega, hsucc, hge⟩

/-- The link of the last buffer has eight bytes left exactly if the region divides into buffers, or
if eight bytes remain. -/
theorem Made.last_le_iff (h : ld.Made) : (ld.linked - 1) * ld.bufferSize + 8 ≤ 0x1000 * ld.pages ↔
    0x1000 * ld.pages % ld.bufferSize = 0 ∨ 8 ≤ 0x1000 * ld.pages % ld.bufferSize := by
  obtain ⟨hlt, hsucc, hge⟩ := h.mul_linked
  have hsize := h.size_le
  -- `r` bytes of the last buffer lie in the region
  obtain ⟨r, hr⟩ : ∃ r, 0x1000 * ld.pages = (ld.linked - 1) * ld.bufferSize + r :=
    ⟨_, (Nat.add_sub_of_le hlt.le).symm⟩
  have hmod : 0x1000 * ld.pages % ld.bufferSize = r % ld.bufferSize := by
    rw [hr, Nat.mul_comm, Nat.mul_add_mod]
  rw [hmod]
  rcases Nat.lt_or_ge r ld.bufferSize with hlt' | hge'
  · rw [Nat.mod_eq_of_lt hlt']
    omega
  · obtain rfl : r = ld.bufferSize := by omega
    rw [Nat.mod_self]
    omega

/-- While nothing has wrapped around, a place is what it looks like, and the walk goes on. -/
theorem Made.goesOn (h : ld.Made) (hb : ld.baseAddress ≠ 0)
    (hlimit : ld.limit = ld.baseAddress + 0x1000 * ld.pages) (hi : i + 1 < ld.linked) :
    ld.GoesOn i := by
  obtain ⟨hlt, -⟩ := h.mul_linked
  have hltl : ld.limit < 2 ^ 64 := Nat.mod_lt _ (by decide)
  have hle : (i + 1) * ld.bufferSize ≤ (ld.linked - 1) * ld.bufferSize :=
    Nat.mul_le_mul_right _ (by omega)
  have hle' : i * ld.bufferSize ≤ (i + 1) * ld.bufferSize :=
    Nat.mul_le_mul_right _ (Nat.le_succ i)
  rw [GoesOn, place_of_lt (by omega), place_of_lt (by omega)]
  omega

/-- Every link that `SetupLinkage` writes lies in the region of the descriptor. -/
def WritesInside (ld : ListDescriptor) : Prop :=
  ∀ mem c, ld.Writes mem c → ld.baseAddress ≤ c ∧ c + 8 ≤ ld.limit

/-- From null the walk does not go anywhere. -/
theorem Made.writesInside_null (h : ld.Made) (hb : ld.baseAddress = 0) : ld.WritesInside := by
  intro mem c hc
  obtain ⟨i, rfl, hi⟩ := (writes_iff h.base_lt).mp hc
  have hplace := place_zero h.base_lt
  cases i with
  | succ i => exact absurd (hplace.trans hb) (hi 0 (Nat.succ_pos i)).1
  | zero =>
    have h1 := h.pages_pos
    have h2 := h.pages_lt
    have hlimit : ld.limit = 0x1000 * ld.pages := by
      rw [limit, hb, add64, Nat.zero_add]
      exact Nat.mod_eq_of_lt (by omega)
    omega

/-- **Below the top of the address space** the links are those of the buffers. -/
theorem Made.writes_iff (h : ld.Made) (hb : ld.baseAddress ≠ 0)
    (htop : ld.baseAddress + ld.linked * ld.bufferSize < 2 ^ 64) :
    ld.Writes mem c ↔ ∃ i < ld.linked, c = ld.baseAddress + i * ld.bufferSize := by
  obtain ⟨-, -, hge⟩ := h.mul_linked
  have hlimit : ld.limit = ld.baseAddress + 0x1000 * ld.pages := add64_of_lt (by omega)
  have hlinked : 1 ≤ ld.linked := Nat.succ_le_succ (Nat.zero_le _)
  have hplace : ∀ i < ld.linked, ld.place i = ld.baseAddress + i * ld.bufferSize := fun i hi ↦ by
    have hle : i * ld.bufferSize ≤ ld.linked * ld.bufferSize := Nat.mul_le_mul_right _ hi.le
    exact place_of_lt (by omega)
  rw [ListDescriptor.writes_iff h.base_lt]
  constructor
  · rintro ⟨i, rfl, hi⟩
    have hi' : i < ld.linked := by
      by_contra hno
      have hgo := (hi (ld.linked - 1) (by omega)).2
      rw [Nat.sub_add_cancel hlinked, place_of_lt htop, hlimit] at hgo
      omega
    exact ⟨i, hi', hplace i hi'⟩
  · rintro ⟨i, hi, rfl⟩
    exact ⟨i, (hplace i hi).symm, fun j hj ↦ h.goesOn hb hlimit (by omega)⟩

/-- **At the top of the address space** the walk goes on below the base. -/
theorem Made.writes_wrapped (h : ld.Made) (hb : ld.baseAddress ≠ 0)
    (hlimit : ld.limit = ld.baseAddress + 0x1000 * ld.pages)
    (hwrap : 2 ^ 64 ≤ ld.baseAddress + ld.linked * ld.bufferSize) (mem : Memory) :
    ∃ c < ld.baseAddress, ld.Writes mem c := by
  obtain ⟨hlt, hsucc, hge⟩ := h.mul_linked
  have h1 := h.base_lt
  have h2 := h.pages_lt
  have h3 := h.size_lt
  have hltl : ld.limit < 2 ^ 64 := Nat.mod_lt _ (by decide)
  have hplace : ld.place ld.linked = ld.baseAddress + ld.linked * ld.bufferSize - 2 ^ 64 := by
    rw [place]
    omega
  have hlinked : 1 ≤ ld.linked := Nat.succ_le_succ (Nat.zero_le _)
  have hgo : ∀ j < ld.linked, ld.GoesOn j := by
    intro j hj
    rcases Nat.lt_or_ge (j + 1) ld.linked with hj' | hj'
    · exact h.goesOn hb hlimit hj'
    · obtain rfl : j = ld.linked - 1 := by omega
      have hpos : ld.place (ld.linked - 1) ≠ 0 := by
        rw [place_of_lt (by omega)]
        omega
      refine ⟨hpos, ?_⟩
      rw [Nat.sub_add_cancel hlinked, hplace]
      omega
  exact ⟨_, by omega, (ListDescriptor.writes_iff h.base_lt).mpr ⟨ld.linked, hplace.symm, hgo⟩⟩

/-- **With room for the last link, and below the top, the walk stays inside.** -/
theorem Made.writesInside (h : ld.Made) (hb : ld.baseAddress ≠ 0)
    (hlast : (ld.linked - 1) * ld.bufferSize + 8 ≤ 0x1000 * ld.pages)
    (htop : ld.baseAddress + ld.linked * ld.bufferSize < 2 ^ 64) : ld.WritesInside := by
  obtain ⟨-, -, hge⟩ := h.mul_linked
  have hlimit : ld.limit = ld.baseAddress + 0x1000 * ld.pages := add64_of_lt (by omega)
  intro mem c hc
  obtain ⟨i, hi, rfl⟩ := (h.writes_iff hb htop).mp hc
  have hle : i * ld.bufferSize ≤ (ld.linked - 1) * ld.bufferSize :=
    Nat.mul_le_mul_right _ (by omega)
  rw [hlimit]
  omega

theorem Made.writesInside_iff (h : ld.Made) : ld.WritesInside ↔ ld.baseAddress = 0 ∨
    (0x1000 * ld.pages % ld.bufferSize = 0 ∨ 8 ≤ 0x1000 * ld.pages % ld.bufferSize) ∧
      ld.baseAddress + ld.linked * ld.bufferSize < 2 ^ 64 := by
  rw [← h.last_le_iff]
  constructor
  · intro hin
    by_cases hb : ld.baseAddress = 0
    · exact .inl hb
    · obtain ⟨hlt, hsucc, hge⟩ := h.mul_linked
      have hmem : ∀ i, (∀ j < i, ld.GoesOn j) →
          ld.baseAddress ≤ ld.place i ∧ ld.place i + 8 ≤ ld.limit := fun i hi ↦
        hin (fun _ ↦ 0) _ ((ListDescriptor.writes_iff h.base_lt).mpr ⟨i, rfl, hi⟩)
      have h1 := h.base_lt
      have h2 := h.pages_lt
      -- the first link is inside, so that the limit has not wrapped around
      have hfirst := (hmem 0 (by simp)).2
      rw [place_zero h1] at hfirst
      have hlimit : ld.limit = ld.baseAddress + 0x1000 * ld.pages := by
        rw [limit, add64] at *
        omega
      have hltl : ld.limit < 2 ^ 64 := Nat.mod_lt _ (by decide)
      have hlast := hmem (ld.linked - 1) fun j hj ↦ h.goesOn hb hlimit (by omega)
      rw [place_of_lt (by omega)] at hlast
      refine .inr ⟨by omega, ?_⟩
      -- nor has the place behind the last one
      by_contra hwrap
      obtain ⟨c, hc, hw⟩ := h.writes_wrapped hb hlimit (not_lt.mp hwrap) fun _ ↦ 0
      exact absurd (hin _ c hw).1 (not_le.mpr hc)
  · rintro (hb | ⟨hlast, htop⟩)
    · exact h.writesInside_null hb
    · by_cases hb : ld.baseAddress = 0
      · exact h.writesInside_null hb
      · exact h.writesInside hb hlast htop

/-- **All links lie in the region** exactly if the region divides into buffers or eight bytes
remain, and the last buffer ends below the top of the address space. -/
theorem setupLinkage_writesInside_iff (this : ℕ) (base : UInt64) (size : UInt16) (pages : UInt8)
    (hs : 8 ≤ size) (hp : 1 ≤ pages) : (new this base.toNat size pages).WritesInside ↔ base = 0 ∨
      (0x1000 * pages.toNat % size.toNat = 0 ∨ 8 ≤ 0x1000 * pages.toNat % size.toNat) ∧
        base.toNat + ((0x1000 * pages.toNat - 1) / size.toNat + 1) * size.toNat < 2 ^ 64 := by
  have hsize : (new this base.toNat size pages).bufferSize = size.toNat :=
    new_bufferSize (UInt16.le_iff_toNat_le.mp hs)
  rw [(made_new this base size hp).writesInside_iff, linked, hsize, ← UInt64.toNat_inj]
  rfl

/-- Buffers of 16 bytes divide a page. -/
theorem setupLinkage_writesInside_page : (new 0 0x1000 16 1).WritesInside :=
  (setupLinkage_writesInside_iff 0 0x1000 16 1 (by decide) (by decide)).mpr (by decide)

/-- Buffers of 10 bytes leave six bytes of a page, and the last of them gets a link of eight. -/
theorem not_writesInside_ten : ¬∀ (this : ℕ) (base : UInt64) (size : UInt16) (pages : UInt8),
    8 ≤ size → 1 ≤ pages → (new this base.toNat size pages).WritesInside := by
  intro h
  have hm : (new 0 0x1000 10 1).Made := made_new 0 0x1000 10 (by decide)
  obtain hb | ⟨hrest | hrest, -⟩ :=
    hm.writesInside_iff.mp (h 0 0x1000 10 1 (by decide) (by decide))
  · exact absurd hb (by decide)
  · exact absurd hrest (by decide)
  · exact absurd hrest (by decide)

/-! ## Where the walk ends -/

/-- The walk comes to a last place before it comes to null. -/
def Ends (ld : ListDescriptor) : Prop :=
  ∃ n < 2 ^ 64, (∀ i < n, ld.GoesOn i) ∧ ld.place n ≠ 0 ∧ ld.limit ≤ ld.place (n + 1)

/-- What the loop answers, from the `i`-th place. -/
theorem run_linkBody_eq_ok {r : Memory × ℕ}
    (hr : Loop.run ld.linkBody n (mem, ld.place i) = .ok r) :
    ∃ j < n, (∀ k < j, ld.GoesOn (i + k)) ∧ r.2 = ld.place (i + j) ∧
      ld.limit ≤ ld.place (i + j + 1) := by
  induction n generalizing i mem with
  | zero => cases hr
  | succ n ih =>
    by_cases hlt : ld.place (i + 1) < ld.limit
    · by_cases h0 : ld.place i = 0
      · rw [Loop.run_error (linkBody_error h0 hlt)] at hr
        cases hr
      · rw [Loop.run_inl (linkBody_inl ⟨h0, hlt⟩)] at hr
        obtain ⟨j, hj, hgo, heq, hend⟩ := ih hr
        rw [Nat.add_assoc i 1 j, Nat.add_comm 1 j] at heq hend
        refine ⟨j + 1, Nat.succ_lt_succ hj, fun k hk ↦ ?_, heq, hend⟩
        cases k with
        | zero => exact ⟨h0, hlt⟩
        | succ k =>
          have hk' := hgo k (Nat.lt_of_succ_lt_succ hk)
          rwa [Nat.add_assoc i 1 k, Nat.add_comm 1 k] at hk'
    · rw [Loop.run_inr (linkBody_inr (not_lt.mp hlt))] at hr
      cases hr
      exact ⟨0, Nat.succ_pos n, fun k hk ↦ absurd hk (Nat.not_lt_zero k), rfl, not_lt.mp hlt⟩

theorem run_linkBody_of_goesOn {j : ℕ} (hj : j < n) (hgo : ∀ k < j, ld.GoesOn (i + k))
    (hend : ld.limit ≤ ld.place (i + j + 1)) (mem : Memory) :
    ∃ mem', Loop.run ld.linkBody n (mem, ld.place i) = .ok (mem', ld.place (i + j)) := by
  induction j generalizing i n mem with
  | zero =>
    obtain ⟨n, rfl⟩ := Nat.exists_eq_succ_of_ne_zero (Nat.ne_of_gt hj)
    exact ⟨mem, Loop.run_inr (linkBody_inr hend) n⟩
  | succ j ih =>
    obtain ⟨n, rfl⟩ := Nat.exists_eq_succ_of_ne_zero (Nat.ne_of_gt (Nat.zero_lt_of_lt hj))
    have hshift : ∀ k, i + 1 + k = i + (k + 1) := fun k ↦ by omega
    obtain ⟨mem', hrun⟩ := ih (i := i + 1) (Nat.lt_of_succ_lt_succ hj)
      (fun k hk ↦ by rw [hshift]; exact hgo (k + 1) (Nat.succ_lt_succ hk))
      (by rw [hshift]; exact hend) (writeWord mem (ld.place i) (ld.place (i + 1)))
    refine ⟨mem', ?_⟩
    rw [Loop.run_inl (linkBody_inl (i := i) (hgo 0 (Nat.succ_pos j))), hrun, hshift]

/-- **`SetupLinkage` returns** exactly if its walk ends, and the base is then the first buffer. -/
theorem setupLinkage_returns_iff (hb : ld.baseAddress < 2 ^ 64) (mem : Memory) :
    (∃ r, ld.setupLinkage mem = .ok r) ↔ ld.Ends := by
  constructor
  · rintro ⟨r, hr⟩
    obtain ⟨⟨m, current⟩, hrun, hstore⟩ := Exec.bind_eq_ok.mp hr
    obtain ⟨m', hm', -⟩ := Exec.bind_eq_ok.mp hstore
    rw [Loop.exec, ← place_zero hb] at hrun
    obtain ⟨n, hn, hgo, heq, hend⟩ := run_linkBody_eq_ok hrun
    rw [Nat.zero_add] at heq hend
    refine ⟨n, hn, fun i hi ↦ ?_, fun h0 ↦ ?_, hend⟩
    · have hi' := hgo i hi
      rwa [Nat.zero_add] at hi'
    · obtain rfl : current = 0 := heq.trans h0
      cases hm'
  · rintro ⟨n, hn, hgo, h0, hend⟩
    obtain ⟨mem', hrun⟩ := run_linkBody_of_goesOn (i := 0) hn
      (fun k hk ↦ by rw [Nat.zero_add]; exact hgo k hk) (by rw [Nat.zero_add]; exact hend) mem
    rw [place_zero hb, Nat.zero_add] at hrun
    have hexec : Loop.exec (setupLinkageBody ld.bufferSize ld.limit) (mem, ld.baseAddress)
        = .ok (mem', ld.place n) := hrun
    refine ⟨(writeWord mem' (ld.place n) 0, { ld with nextFree := ld.baseAddress }), ?_⟩
    simp only [setupLinkage, hexec, Exec.ok_bind, store_of_ne h0, Exec.pure_eq]

theorem nextFree_setupLinkage {mem' : Memory} {ld' : ListDescriptor}
    (h : ld.setupLinkage mem = .ok (mem', ld')) :
    ld' = { ld with nextFree := ld.baseAddress } := by
  obtain ⟨⟨m, current⟩, -, hstore⟩ := Exec.bind_eq_ok.mp h
  obtain ⟨m', -, heq⟩ := Exec.bind_eq_ok.mp hstore
  cases heq
  rfl

end ListDescriptor

end Chisaka.Slab
