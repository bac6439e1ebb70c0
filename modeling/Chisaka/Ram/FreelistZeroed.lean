import Chisaka.Ram.FreelistLists

/-!
# Zeroed pages

With the option `Z` the pages are zeroed before they are handed out.  `AllocatePages(pages, Z)`
passes `pages*PAGESIZE` to `Memset`, a product of 32-bit numbers, which is 0 for a block of 4 GiB.

What is known about the rest of such a block is that it still holds its links: `ExtractImpl` writes
none of them (`mem_of_allocatePagesImpl`), and the link of every page but the last is the next page
(`Listed.readWord_eq`).  `allocatePagesOpt_zeroes_iff` is the result.
-/

set_option autoImplicit false

namespace Chisaka.PageAllocators

open Bytes Chain

variable {memset : Memset} {fl fl' fl₀ : Freelist} {mem mem' : Memory} {head head' b n : ℕ}
  {L : List ℕ}

/-! ## Links inside a block -/

theorem pagesFrom_add (b k n : ℕ) :
    pagesFrom b (k + n) = pagesFrom b k ++ pagesFrom (b + k * pageSize) n := by
  induction n with
  | zero => simp
  | succ n ih =>
    rw [← Nat.add_assoc, pagesFrom_snoc, ih, pagesFrom_snoc, List.append_assoc, Nat.add_mul,
      Nat.add_assoc]

/-- **In a block every page but the last is linked to the next.** -/
theorem Listed.readWord_eq {k : ℕ} (h : FreeList mem head L) (hb : b ∈ L) (hl : Listed L b n)
    (hk : k + 1 < n) :
    readWord mem (b + k * pageSize) = b + k * pageSize + pageSize := by
  obtain ⟨l, m, hL, -⟩ := hl.split h.sorted h.page hb
  obtain ⟨j, rfl⟩ : ∃ j, n = k + (j + 2) := ⟨n - k - 2, by omega⟩
  have hseg := h.seg
  rw [hL, pagesFrom_add, pagesFrom_succ, pagesFrom_succ, List.append_assoc,
    ← List.append_assoc l, List.cons_append] at hseg
  exact hseg.next_eq

/-- What is handed out has been extracted. -/
theorem extractImpl_of_allocatePagesImpl
    (h : allocatePagesImpl mem head n = .ok (b, mem', head')) (hb : b ≠ 0) :
    extractImpl mem head b n = .ok (mem', head') := by
  rw [allocatePagesImpl] at h
  split at h
  · cases h
    exact absurd rfl hb
  · obtain ⟨next, -, h⟩ := Exec.bind_eq_ok.mp h
    split at h
    · cases h
      exact absurd rfl hb
    · obtain ⟨res, -, h⟩ := Exec.bind_eq_ok.mp h
      cases res with
      | none =>
        cases h
        exact absurd rfl hb
      | some c =>
        obtain ⟨⟨mem₁, head₁⟩, he, h⟩ := Exec.bind_eq_ok.mp h
        cases h
        exact he

/-- **The block that is handed out**, and what has become of memory by then. -/
theorem mem_of_allocatePagesImpl (h : FreeList mem head L)
    (he : allocatePagesImpl mem head n = .ok (b, mem', head')) (hb : b ≠ 0) :
    b ∈ L ∧ Listed L b n ∧ FreeList mem' head' (without L b n) ∧
      WordsOnly (without L b n) mem mem' := by
  obtain ⟨hbL, hl⟩ : b ∈ L ∧ Listed L b n := by
    rcases allocatePagesImpl_cutsLowest (n := n) h with ⟨-, hno⟩ | ⟨c, mem₁, head₁, hc, -, hyes, -⟩
    · rw [he] at hno
      cases hno
      exact absurd rfl hb
    · rw [he] at hyes
      cases hyes
      exact ⟨(blockOf_eq_some hc).2.1, (blockOf_eq_some hc).2.2⟩
  obtain ⟨mem₁, head₁, he₁, hf, hw⟩ := extractImpl_without h hbL hl
  rw [extractImpl_of_allocatePagesImpl he hb] at he₁
  cases he₁
  exact ⟨hbL, hl, hf, hw⟩

/-! ## Zeroing -/

/-- `Memset` that does nothing: the call returns in the state in which the pages would have been
zeroed. -/
def unset : Memset := fun mem _ _ _ ↦ mem

@[simp] theorem zeroed_unset {o : RamOptions} {len : ℕ} : zeroed unset o mem b len = mem := by
  simp [zeroed, unset]

/-- The `n` pages at `b` are zero, the list is left with the pages `L`, and zeroing has changed no
byte of any page outside the block since the state `fl₀`. -/
structure Zeroes (fl₀ fl' : Freelist) (b n : ℕ) (L : List ℕ) : Prop where
  /-- All of the block is zero. -/
  zero : ∀ x, b ≤ x → x < b + n * pageSize → fl'.mem x = 0
  /-- These pages are still free. -/
  list : FreeList fl'.mem (fl'.headOf .Z) L
  /-- Other pages are as they were, on this list, on the other, and elsewhere. -/
  frame : ∀ p, IsPage p → p ∉ pagesFrom b n → ∀ x, p ≤ x → x < p + pageSize → fl'.mem x = fl₀.mem x

/-- With a length that is that of the block, or less, the zeroing stays in the block. -/
theorem zeroes_of_length {len : ℕ} (hset : MemsetSpec memset) (hb : IsPage b)
    (hL : FreeList mem head (without L b n)) (hlen : len = n * pageSize) (c c' : ℕ) :
    Zeroes (fl.setList mem head c .Z)
      (fl.setList (zeroed memset .Z mem b len) head c' .Z) b n (without L b n) where
  zero x h1 h2 := by
    rw [Freelist.mem_setList, zeroed, if_pos ⟨hb.pos, rfl⟩, hset, if_pos ⟨h1, hlen ▸ h2⟩]
    rfl
  list := by
    rw [Freelist.mem_setList, Freelist.headOf_setList, Function.update_self]
    refine hL.congr fun q hq ↦ readWord_zeroed hset ?_
    have hout := (mem_without.mp hq).2
    have hd := fun hne ↦ (hL.page q hq).disjoint hb hne
    simp only [pageSize] at *
    rcases hout with hlt | hge
    · have := hd (ne_of_lt hlt)
      omega
    · omega
  frame p hp hout x h1 h2 := by
    have hpb := outside_of_notMem hb hp hout
    rw [Freelist.mem_setList, Freelist.mem_setList, zeroed, if_pos ⟨hb.pos, rfl⟩, hset,
      if_neg (by simp only [pageSize] at *; omega)]

/-- **The first page behind the bytes that are zeroed keeps its link.** -/
theorem not_zero_of_short {k : ℕ} (hset : MemsetSpec memset) (h : FreeList mem head L)
    (hb : b ∈ L) (hl : Listed L b n) (hw : WordsOnly (without L b n) mem mem') (hk : k + 1 < n) :
    ¬∀ x, b ≤ x → x < b + n * pageSize →
      zeroed memset .Z mem' b (k * pageSize) x = 0 := by
  intro hzero
  have hq : b + k * pageSize ∈ pagesFrom b n := mem_pagesFrom.mpr ⟨k, by omega, rfl⟩
  have hqp : IsPage (b + k * pageSize) := h.page _ (hl _ hq)
  have hlink : readWord mem' (b + k * pageSize) = b + k * pageSize + pageSize := by
    rw [← hl.readWord_eq h hb hk]
    refine readWord_page hw (fun p hp ↦ h.page p (mem_without.mp hp).1) hqp fun hin ↦ ?_
    have h1 := (mem_without.mp hin).2
    have h2 := lt_of_mem_pagesFrom hq
    omega
  have hin : b + k * pageSize + 8 ≤ b + n * pageSize := by
    have : (k + 1) * pageSize ≤ n * pageSize := Nat.mul_le_mul_right _ hk.le
    simp only [pageSize] at *
    omega
  have hnull : readWord (zeroed memset .Z mem' b (k * pageSize)) (b + k * pageSize) = 0 := by
    rw [← readWord_zero (b + k * pageSize)]
    exact readWord_congr fun x h1 h2 ↦ hzero x (by omega) (by omega)
  rw [readWord_zeroed hset (.inr (le_refl _)), hlink] at hnull
  simp [pageSize] at hnull

/-- **A block of 4 GiB is not zeroed to its end.** -/
theorem not_zeroes_of_le (hset : MemsetSpec memset) (h : FreeList fl.mem (fl.headOf .Z) L)
    (he : allocatePagesOpt memset n .Z fl = .ok (b, fl')) (hb : b ≠ 0) (hn : 2 ^ 20 ≤ n) :
    ¬Zeroes fl₀ fl' b n (without L b n) := by
  intro hz
  obtain ⟨mem, head, himpl, -⟩ := allocatePagesImpl_spec (n := n) h
  rw [allocatePagesOpt_of_ok himpl] at he
  obtain ⟨hbe, rfl⟩ := Prod.mk.inj (Except.ok.inj he)
  rw [hbe] at himpl hz
  obtain ⟨hbL, hl, -, hw⟩ := mem_of_allocatePagesImpl h himpl hb
  have hlen : n * pageSize % 2 ^ 32 = n % 2 ^ 20 * pageSize := by
    simp only [pageSize]
    omega
  have hzero := hz.zero
  rw [Freelist.mem_setList, hlen] at hzero
  exact not_zero_of_short hset h hbL hl hw (by omega) hzero

/-- **`AllocatePages(n, Z)` zeroes its block exactly if the block is smaller than 4 GiB**, and
`AllocatePage(Z)` always zeroes its page. -/
theorem allocatePagesOpt_zeroes_iff (memset : Memset) (hset : MemsetSpec memset) (fl : Freelist)
    {L : List ℕ} (h : FreeList fl.mem (fl.headOf .Z) L) :
    (∀ n b fl', 1 ≤ n → allocatePagesOpt memset n .Z fl = .ok (b, fl') → b ≠ 0 →
      ∃ fl₀, allocatePagesOpt unset n .Z fl = .ok (b, fl₀) ∧
        (Zeroes fl₀ fl' b n (without L b n) ↔ n < 2 ^ 20)) ∧
      ∀ b fl', allocatePageOpt memset .Z fl = .ok (b, fl') →
        ∃ fl₀, allocatePageOpt unset .Z fl = .ok (b, fl₀) ∧ Zeroes fl₀ fl' b 1 (without L b 1) := by
  refine ⟨fun n b fl' hn he hb0 ↦ ?_, fun b fl' he ↦ ?_⟩
  · obtain ⟨mem, head, himpl, -⟩ := allocatePagesImpl_spec (n := n) h
    have hcall := he
    rw [allocatePagesOpt_of_ok himpl] at he
    obtain ⟨hb, rfl⟩ := Prod.mk.inj (Except.ok.inj he)
    rw [hb] at himpl ⊢
    obtain ⟨hbL, -, hrest, -⟩ := mem_of_allocatePagesImpl h himpl hb0
    refine ⟨_, allocatePagesOpt_of_ok himpl, fun hz ↦ ?_, fun hlt ↦ ?_⟩
    · by_contra hge
      rw [hb] at hcall
      exact not_zeroes_of_le hset h hcall hb0 (not_lt.mp hge) hz
    · rw [zeroed_unset]
      refine zeroes_of_length hset (h.page b hbL) hrest ?_ _ _
      simp only [pageSize]
      omega
  · cases L with
    | nil =>
      rw [allocatePageOpt_of_error (allocatePageImpl_nil h)] at he
      cases he
    | cons p L =>
      obtain ⟨himpl, hrest⟩ := allocatePageImpl_cons h
      rw [allocatePageOpt_of_ok himpl] at he
      obtain ⟨rfl, rfl⟩ := Prod.mk.inj (Except.ok.inj he)
      refine ⟨_, allocatePageOpt_of_ok himpl, ?_⟩
      rw [zeroed_unset]
      exact zeroes_of_length hset (h.page p List.mem_cons_self) (by rwa [h.without_head])
        (Nat.one_mul _).symm _ _

theorem allocatePagesOpt_zeroes_apartPages :
    ∃ fl₀ fl', allocatePagesOpt memsetBytes 2 .Z apartPages = .ok (0x3000, fl') ∧
      Zeroes fl₀ fl' 0x3000 2 (without [0x1000, 0x3000, 0x4000] 0x3000 2) := by
  obtain ⟨mem, head, himpl, -⟩ := allocatePagesImpl_spec (n := 2) freeList_apartPages.1
  have he : allocatePagesOpt memsetBytes 2 .Z apartPages = _ := allocatePagesOpt_of_ok himpl
  obtain ⟨fl₀, -, hz⟩ := (allocatePagesOpt_zeroes_iff memsetBytes memsetBytes_spec apartPages
    freeList_apartPages.1).1 2 _ _ (by decide) he (by decide)
  exact ⟨fl₀, _, he, hz.mpr (by decide)⟩

/-- A memory map with 4 GiB of memory above 4 GiB. -/
def fourGib : MemoryMap := .ofList [region 0x100000000 0x100000000] (by decide)

theorem init_fourGib (fl : Freelist) : ∃ fl', init fourGib fl = .ok fl' ∧
    FreeList fl'.mem (fl'.headOf .Z) (pagesFrom 0x100000000 (2 ^ 20)) := by
  have huse : fourGib.useable = [region 0x100000000 0x100000000] := rfl
  have hwf : fourGib.Wellformed := wellformed_of_single huse (by constructor <;> decide)
  have htop : fourGib.BelowTop := by
    intro e he
    rw [huse, List.mem_singleton] at he
    rw [he]
    decide
  have hhigh : highPages fourGib = pagesFrom 0x100000000 (2 ^ 20) := by
    have hfilter : [region 0x100000000 0x100000000].filter
        (fun e ↦ decide (cutoff < e.base.toNat + e.length.toNat))
        = [region 0x100000000 0x100000000] := rfl
    rw [highPages, huse, hfilter, List.flatMap_singleton]
    rfl
  obtain ⟨fl', he, hlist, -⟩ := init_spec hwf htop fl
  exact ⟨fl', he, hhigh ▸ hlist⟩

/-- A list that is a block is handed out as one. -/
theorem blockOf_pagesFrom (hn : 2 ≤ n) : blockOf (pagesFrom b n) n = some b := by
  obtain ⟨k, rfl⟩ : ∃ k, n = k + 1 := ⟨n - 1, by omega⟩
  have hl : Listed (pagesFrom b (k + 1)) b (k + 1) := fun p hp ↦ hp
  rw [blockOf, if_pos (by simpa using hn)]
  conv_lhs =>
    rw [pagesFrom_succ]
  exact List.find?_cons_of_pos (decide_eq_true (by rwa [← pagesFrom_succ]))

/-- **Nothing is zeroed of the 4 GiB of `fourGib`**: the block still begins with the link of its
first page. -/
theorem not_zeroes_fourGib :
    (¬∀ (memset : Memset), MemsetSpec memset → ∀ (fl : Freelist) (L : List ℕ),
      FreeList fl.mem (fl.headOf .Z) L → ∀ n b fl', 1 ≤ n → n < 2 ^ 32 →
        allocatePagesOpt memset n .Z fl = .ok (b, fl') → b ≠ 0 →
        ∃ fl₀, allocatePagesOpt unset n .Z fl = .ok (b, fl₀) ∧
          Zeroes fl₀ fl' b n (without L b n)) ∧
    ∀ fl, ∃ fl₁ fl₂, init fourGib fl = .ok fl₁ ∧
      allocatePagesOpt memsetBytes (2 ^ 20) .Z fl₁ = .ok (0x100000000, fl₂) ∧
      ∀ fl₀, ¬Zeroes fl₀ fl₂ 0x100000000 (2 ^ 20) [] := by
  have hserved : ∀ fl, ∃ fl₁ fl₂, init fourGib fl = .ok fl₁ ∧
      FreeList fl₁.mem (fl₁.headOf .Z) (pagesFrom 0x100000000 (2 ^ 20)) ∧
      allocatePagesOpt memsetBytes (2 ^ 20) .Z fl₁ = .ok (0x100000000, fl₂) := by
    intro fl
    obtain ⟨fl₁, hinit, hlist⟩ := init_fourGib fl
    obtain ⟨mem, head, himpl, -⟩ := allocatePagesImpl_spec (n := 2 ^ 20) hlist
    rw [blockOf_pagesFrom (by decide), Option.getD_some] at himpl
    exact ⟨fl₁, _, hinit, hlist, allocatePagesOpt_of_ok himpl⟩
  have hwithout : without (pagesFrom 0x100000000 (2 ^ 20)) 0x100000000 (2 ^ 20) = [] := by
    refine List.filter_eq_nil_iff.mpr fun p hp ↦ ?_
    have := lt_of_mem_pagesFrom hp
    rw [decide_eq_true_eq]
    omega
  refine ⟨fun hall ↦ ?_, fun fl ↦ ?_⟩
  · obtain ⟨fl₁, fl₂, -, hlist, he⟩ := hserved ⟨fun _ ↦ 0, 0, 0, 0, 0⟩
    obtain ⟨fl₀, -, hz⟩ := hall memsetBytes memsetBytes_spec fl₁ _ hlist (2 ^ 20) _ fl₂
      (by decide) (by decide) he (by decide)
    exact not_zeroes_of_le memsetBytes_spec hlist he (by decide) (le_refl _) hz
  · obtain ⟨fl₁, fl₂, hinit, hlist, he⟩ := hserved fl
    refine ⟨fl₁, fl₂, hinit, he, fun fl₀ ↦ ?_⟩
    rw [← hwithout]
    exact not_zeroes_of_le memsetBytes_spec hlist he (by decide) (le_refl _)

end Chisaka.PageAllocators
