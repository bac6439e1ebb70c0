import Chisaka.Ram.FreelistRuns

/-!
# One call on any two lists

The pool of `FreelistPool` is what the lists are in a run.  Here are two calls on lists that are
given as they are, null-terminated and ascending.

* `deallocPage_inserted_iff`: when a page is inserted in its list and the other list stays.  A
  returned page may hold anything, and behind a single page its word is taken for a link.
* `allocatePages_servesBlock`: a block is the lowest one there is, and what is left is the list
  without it.
* `coincide_iff`: a block of one page is the page that `AllocatePage(options)` takes, unless it is
  the last one.
-/

set_option autoImplicit false

namespace Chisaka.PageAllocators

open Bytes Chain

variable {mem mem' : Memory} {fl : Freelist} {head head' n p q : ℕ} {L L' : List ℕ}

/-! ## Links -/

/-- A list determines the links of its pages. -/
theorem FreeList.readWord_eq (h : FreeList mem head L) (h' : FreeList mem' head' L) (hq : q ∈ L) :
    readWord mem' q = readWord mem q := by
  obtain ⟨l, m, rfl⟩ := List.append_of_mem hq
  rw [h.seg.next_eq, h'.seg.next_eq]

/-- The link of a page is null or a page of the list. -/
theorem FreeList.readWord_mem (h : FreeList mem head L) (hq : q ∈ L) :
    readWord mem q = 0 ∨ readWord mem q ∈ L := by
  obtain ⟨l, m, rfl⟩ := List.append_of_mem hq
  rw [h.seg.next_eq]
  cases m with
  | nil => exact .inl rfl
  | cons r m => exact .inr (by simp)

/-! ## Returning a page -/

/-- `DeallocPage(p)` returns, with `p` inserted in its list and with the other list as it was. -/
def Inserts (fl : Freelist) (p : ℕ) (L L' : List ℕ) : Prop :=
  ∃ fl', deallocPage p fl = .ok fl' ∧
    FreeList fl'.mem (fl'.headOf (side p)) (L.orderedInsert (· ≤ ·) p) ∧
    FreeList fl'.mem (fl'.headOf (side p).other) L'

/-- **Neither of the two links that are written belongs to the other list.**  That is so in every
state of a run: the lists have no page in common there, and a page that is returned is on none. -/
structure Spares (mem : Memory) (L L' : List ℕ) (p : ℕ) : Prop where
  /-- The page in front of `p` is not on the other list. -/
  front : ∀ q ∈ lastBelow L p, q ∉ L'
  /-- Nor is `p`, unless its link is the right one already. -/
  page : p ∈ L' → readWord mem p = (firstAbove L p).getD 0

/-- Lists without a common page. -/
theorem Spares.of_disjoint (hd : ∀ q ∈ L, q ∉ L') (hp : p ∉ L') : Spares mem L L' p where
  front q hq := hd q (mem_of_lastBelow hq).1
  page hp' := absurd hp' hp

section Inserts

variable (hp : IsPage p) (h : FreeList fl.mem (fl.headOf (side p)) L)
  (h' : FreeList fl.mem (fl.headOf (side p).other) L') (hpL : p ∉ L)

include hp h

/-- What is left behind a single page is not a list. -/
theorem LeavesOpen.not_inserts (ho : LeavesOpen fl.mem L p) : ¬Inserts fl p L L' := by
  rintro ⟨fl', hd, hf, -⟩
  obtain ⟨q, rfl, hqp, hw⟩ := ho
  obtain ⟨hhead, hnext⟩ : fl.headOf (side p) = q ∧ readWord fl.mem q = 0 := h.seg
  have hq : IsPage q := h.page q List.mem_cons_self
  have himpl : deallocPageImpl fl.mem (fl.headOf (side p)) p = .ok (writeWord fl.mem q p, q) := by
    simp [deallocPageImpl, hhead, hq.pos, not_lt.mpr hqp.le, hnext]
  rw [deallocPage_of_ok hp.pos himpl] at hd
  cases hd
  -- the last link is the word that the page holds
  rw [Freelist.mem_setList, List.orderedInsert_of_not_le _ _ (not_le.mpr hqp)] at hf
  have hlast : readWord (writeWord fl.mem q p) p = 0 := hf.seg.2.2
  rw [readWord_writeWord_page hq hp (ne_of_gt hqp)] at hlast
  exact hw hlast

include hpL

/-- The call, when it leaves no list open. -/
theorem deallocPage_links (ho : ¬LeavesOpen fl.mem L p) :
    ∃ mem head, deallocPage p fl
        = .ok (fl.setList mem head (add64 (fl.countOf (side p)) 1) (side p)) ∧
      FreeList mem head (L.orderedInsert (· ≤ ·) p) ∧
      WordsOnly (p :: (lastBelow L p).toList) fl.mem mem ∧
      readWord mem p = (firstAbove L p).getD 0 ∧ ∀ q ∈ lastBelow L p, readWord mem q = p := by
  obtain ⟨mem, head, himpl, hlinks⟩ := deallocPageImpl_links h hp hpL ho
  exact ⟨mem, head, deallocPage_of_ok hp.pos himpl, hlinks⟩

include h'

theorem inserts_of_spares (ho : ¬LeavesOpen fl.mem L p) (hs : Spares fl.mem L L' p) :
    Inserts fl p L L' := by
  obtain ⟨mem, head, hd, hf, hw, hlink, -⟩ := deallocPage_links hp h hpL ho
  have hpages : ∀ r ∈ p :: (lastBelow L p).toList, IsPage r := by
    intro r hr
    rcases List.mem_cons.mp hr with rfl | hr
    · exact hp
    · exact h.page r (mem_of_lastBelow (Option.mem_toList.mp hr)).1
  refine ⟨_, hd, ?_, ?_⟩
  · rw [Freelist.mem_setList, Freelist.headOf_setList, Function.update_self]
    exact hf
  · rw [Freelist.mem_setList, Freelist.headOf_setList,
      Function.update_of_ne (RamOptions.other_ne _)]
    refine h'.congr fun r hr ↦ ?_
    by_cases hrp : r = p
    · subst hrp
      rw [hlink, hs.page hr]
    · refine readWord_page hw hpages (h'.page r hr) fun hr' ↦ ?_
      have hfront := Option.mem_toList.mp ((List.mem_cons.mp hr').resolve_left hrp)
      exact hs.front r hfront hr

theorem spares_of_inserts (ho : ¬LeavesOpen fl.mem L p) (hi : Inserts fl p L L') :
    Spares fl.mem L L' p := by
  obtain ⟨mem, head, hd, -, -, hlink, hfront⟩ := deallocPage_links hp h hpL ho
  obtain ⟨fl', hd', -, hf'⟩ := hi
  obtain rfl := Except.ok.inj (hd.symm.trans hd')
  rw [Freelist.mem_setList, Freelist.headOf_setList,
    Function.update_of_ne (RamOptions.other_ne _)] at hf'
  refine ⟨fun q hq hqL' ↦ ?_, fun hpL' ↦ ?_⟩
  · -- the link of `q` has become `p`, which it was not
    have hword : readWord fl.mem q = p := by
      rw [← h'.readWord_eq hf' hqL', hfront q hq]
    rcases h.readWord_mem (mem_of_lastBelow hq).1 with h0 | hmem
    · exact hp.pos (hword ▸ h0)
    · exact hpL (hword ▸ hmem)
  · rw [← h'.readWord_eq hf' hpL', hlink]

end Inserts

/-- **Returning a page inserts it in its list and leaves the other one alone**, exactly if the list
is not left open and no link of the other list is written. -/
theorem deallocPage_inserts_iff (fl : Freelist) {p : ℕ} {L L' : List ℕ} (hp : IsPage p)
    (h : FreeList fl.mem (fl.headOf (side p)) L)
    (h' : FreeList fl.mem (fl.headOf (side p).other) L') (hpL : p ∉ L) :
    Inserts fl p L L' ↔ ¬LeavesOpen fl.mem L p ∧ Spares fl.mem L L' p := by
  constructor
  · intro hi
    have ho : ¬LeavesOpen fl.mem L p := fun ho ↦ ho.not_inserts hp h hi
    exact ⟨ho, spares_of_inserts hp h h' hpL ho hi⟩
  · rintro ⟨ho, hs⟩
    exact inserts_of_spares hp h h' hpL ho hs

/-- The page at 0x1000 is free, and `w` is the first word of the page at 0x2000. -/
def onePageFree (w : ℕ) : Freelist := ⟨writeWord (fun _ ↦ 0) 0x2000 w, 0, 0x1000, 0, 1⟩

theorem freeList_onePageFree (w : ℕ) : FreeList (onePageFree w).mem 0x1000 [0x1000] where
  seg := ⟨rfl, by
    rw [onePageFree, readWord_writeWord_of_disjoint (by decide)]
    rfl⟩
  sorted := by simp
  page := by decide

theorem freeList_high_onePageFree (w : ℕ) :
    FreeList (onePageFree w).mem ((onePageFree w).headOf (side 0x2000).other) [] :=
  ⟨rfl, by simp, by simp⟩

theorem deallocPage_inserts_onePageFree : Inserts (onePageFree 0) 0x2000 [0x1000] [] :=
  (deallocPage_inserts_iff (onePageFree 0) (p := 0x2000) (by decide) (freeList_onePageFree 0)
    (freeList_high_onePageFree 0) (by decide)).mpr
    ⟨fun ⟨_, _, _, hw⟩ ↦ hw rfl, .of_disjoint (by simp) (by simp)⟩

/-- **The word 7 in a returned page becomes a link.** -/
theorem not_inserts_dirty :
    (¬∀ (fl : Freelist) (p : ℕ) (L L' : List ℕ), IsPage p →
      FreeList fl.mem (fl.headOf (side p)) L → FreeList fl.mem (fl.headOf (side p).other) L' →
      p ∉ L → (∀ q ∈ L, q ∉ L') → p ∉ L' → Inserts fl p L L') ∧
    ∃ fl', deallocPage 0x2000 (onePageFree 7) = .ok fl' ∧ fl'.lowHead = 0x1000 ∧
      readWord fl'.mem 0x1000 = 0x2000 ∧ readWord fl'.mem 0x2000 = 7 := by
  refine ⟨fun hall ↦ ?_, _, rfl, rfl, by decide, by decide⟩
  have ho : LeavesOpen (onePageFree 7).mem [0x1000] 0x2000 := ⟨0x1000, rfl, by decide, by decide⟩
  have hi : Inserts (onePageFree 7) 0x2000 [0x1000] [] :=
    hall _ 0x2000 _ _ (by decide) (freeList_onePageFree 7) (freeList_high_onePageFree 7) (by decide)
      (by simp) (by simp)
  exact ho.not_inserts (by decide) (freeList_onePageFree 7) hi

/-! ## Allocating a block -/

/-- The block is the lowest one on the list, and the list is left without it; or there is no block,
and nothing happens. -/
def ServesBlock (fl : Freelist) (o : RamOptions) (n : ℕ) (L : List ℕ)
    (outcome : Exec (ℕ × Freelist)) : Prop :=
  (∃ b fl', outcome = .ok (b, fl') ∧ Listed L b n ∧ (∀ c, Listed L c n → b ≤ c) ∧
      FreeList fl'.mem (fl'.headOf o) (L.filter (· ∉ pagesFrom b n))) ∨
    (∀ c, ¬Listed L c n) ∧ outcome = .ok (0, fl)

/-- For pages, being outside the block is not being one of its pages. -/
theorem without_eq_filter {b : ℕ} (hpage : ∀ p ∈ L, IsPage p) (hb : b ∈ L) :
    without L b n = L.filter (· ∉ pagesFrom b n) := by
  refine List.filter_congr fun p hp ↦ decide_eq_decide.mpr ⟨fun hout hin ↦ ?_, fun hin ↦ ?_⟩
  · have := lt_of_mem_pagesFrom hin
    omega
  · by_contra hout
    exact hin (mem_pagesFrom_of_mem (hpage b hb).aligned (hpage p hp).aligned (by omega) (by omega))

/-- A block of two pages or more is on no shorter list. -/
theorem Listed.mem_and_length (hn : 2 ≤ n) (h : Listed L p n) : p ∈ L ∧ 2 ≤ L.length := by
  have hmem := listed_iff.mp h
  have h0 : p ∈ L := by simpa using hmem 0 (by omega)
  have h1 : p + pageSize ∈ L := by simpa using hmem 1 (by omega)
  have hsub : [p, p + pageSize] ⊆ L := by simp [h0, h1]
  have hnd : [p, p + pageSize].Nodup := by simp [pageSize]
  exact ⟨h0, (hnd.subperm hsub).length_le⟩

/-- What `AllocatePagesImpl` does to a list is to serve a block. -/
theorem CutsLowest.servesBlock {o : RamOptions} {outcome : Exec (ℕ × Freelist)} (hn : 2 ≤ n)
    (h : FreeList fl.mem (fl.headOf o) L) (hcut : CutsLowest fl.mem (fl.headOf o) n L)
    (hout : ∀ b mem head, allocatePagesImpl fl.mem (fl.headOf o) n = .ok (b, mem, head) →
      outcome = .ok (b, fl.setList mem head (fl.countOf o) o)) : ServesBlock fl o n L outcome := by
  rcases hcut with ⟨hnone, he⟩ | ⟨b, mem, head, hsome, hleast, he, hf, -⟩
  · refine .inr ⟨fun c hc ↦ ?_, ?_⟩
    · obtain ⟨hcL, hlen⟩ := hc.mem_and_length hn
      exact (blockOf_eq_none_iff.mp hnone).elim (fun hlt ↦ by omega) fun hno ↦ hno c hcL hc
    · rw [hout _ _ _ he]
      cases o <;> rfl
  · obtain ⟨-, hbL, hb⟩ := blockOf_eq_some hsome
    refine .inl ⟨b, _, hout _ _ _ he, hb, fun c hc ↦ hleast c (hc.mem_and_length hn).1 hc, ?_⟩
    rw [Freelist.mem_setList, Freelist.headOf_setList, Function.update_self,
      ← without_eq_filter h.page hbL]
    exact hf

/-- **A block of two pages or more is the lowest one there is**, on the list of `Head()` and, with
the option, on that of `LowHead()`. -/
theorem allocatePages_servesBlock (fl : Freelist) (memset : Memset) {n : ℕ} (hn : 2 ≤ n) :
    (∀ L, FreeList fl.mem (fl.headOf .Z) L → ServesBlock fl .Z n L (allocatePages n fl)) ∧
      ∀ L, FreeList fl.mem (fl.headOf .LOW) L →
        ServesBlock fl .LOW n L (allocatePagesOpt memset n .LOW fl) := by
  refine ⟨fun L h ↦ ?_, fun L h ↦ ?_⟩
  · exact (allocatePagesImpl_cutsLowest h).servesBlock hn h fun _ _ _ ↦ allocatePages_of_ok
  · refine (allocatePagesImpl_cutsLowest h).servesBlock hn h fun b mem head he ↦ ?_
    rw [allocatePagesOpt_of_ok he]
    simp [zeroed]

/-- A page, a gap, and two pages on the one list, and two pages on the other. -/
def apartPages : Freelist :=
  ⟨writeWord (writeWord (writeWord (fun _ ↦ 0) 0x1000 0x3000) 0x3000 0x4000) 0x6000 0x7000,
    0x1000, 0x6000, 3, 2⟩

theorem freeList_apartPages :
    FreeList apartPages.mem (apartPages.headOf .Z) [0x1000, 0x3000, 0x4000] ∧
      FreeList apartPages.mem (apartPages.headOf .LOW) [0x6000, 0x7000] := by
  refine ⟨⟨⟨rfl, by decide, by decide, ?_⟩, by decide, by decide⟩,
    ⟨⟨rfl, by decide, ?_⟩, by decide, by decide⟩⟩
  · show readWord apartPages.mem 0x4000 = 0
    decide
  · show readWord apartPages.mem 0x7000 = 0
    decide

theorem allocatePages_servesBlock_apartPages :
    ServesBlock apartPages .Z 2 [0x1000, 0x3000, 0x4000] (allocatePages 2 apartPages) ∧
      ServesBlock apartPages .LOW 2 [0x6000, 0x7000]
        (allocatePagesOpt (fun mem _ _ _ ↦ mem) 2 .LOW apartPages) :=
  ⟨(allocatePages_servesBlock apartPages (fun mem _ _ _ ↦ mem) (le_refl 2)).1 _
      freeList_apartPages.1,
    (allocatePages_servesBlock apartPages (fun mem _ _ _ ↦ mem) (le_refl 2)).2 _
      freeList_apartPages.2⟩

/-! ## One page by two paths

`AllocatePage(options)` takes the first page off.  The scan for a block looks at two entries before
it compares its count with the length that is wanted, and gives up on a list of one. -/

/-- A list survives the zeroing of pages that are not on it. -/
theorem FreeList.zeroed {memset : Memset} {o : RamOptions} {b len : ℕ} (hset : MemsetSpec memset)
    (h : FreeList mem head L) (hout : ∀ q ∈ L, q + 8 ≤ b ∨ b + len ≤ q) :
    FreeList (PageAllocators.zeroed memset o mem b len) head L :=
  h.congr fun q hq ↦ readWord_zeroed hset (hout q hq)

/-- `AllocatePage(options)` and `AllocatePages(1, options)` return the same page, and they leave
the same list. -/
def Coincide (memset : Memset) (fl : Freelist) (o : RamOptions) : Prop :=
  ∃ p fl₁ fl₂ L, allocatePageOpt memset o fl = .ok (p, fl₁) ∧
    allocatePagesOpt memset 1 o fl = .ok (p, fl₂) ∧
    FreeList fl₁.mem (fl₁.headOf o) L ∧ FreeList fl₂.mem (fl₂.headOf o) L

section Coincide

variable {memset : Memset} {o : RamOptions}

/-- The single-page path, on any list that is not empty. -/
theorem allocatePageOpt_cons (hset : MemsetSpec memset)
    (h : FreeList fl.mem (fl.headOf o) (p :: L)) :
    ∃ fl', allocatePageOpt memset o fl = .ok (p, fl') ∧ FreeList fl'.mem (fl'.headOf o) L := by
  obtain ⟨himpl, hL⟩ := allocatePageImpl_cons h
  refine ⟨_, allocatePageOpt_of_ok himpl, ?_⟩
  rw [Freelist.mem_setList, Freelist.headOf_setList, Function.update_self]
  refine hL.zeroed hset fun q hq ↦ ?_
  have hlt := (List.pairwise_cons.mp h.sorted).1 q hq
  have hd := (h.page p List.mem_cons_self).disjoint (hL.page q hq) (ne_of_lt hlt)
  simp only [pageSize] at *
  omega

/-- The general path, with another page behind the first. -/
theorem allocatePagesOpt_one (hset : MemsetSpec memset)
    (h : FreeList fl.mem (fl.headOf o) (p :: L)) (hL : L ≠ []) :
    ∃ fl', allocatePagesOpt memset 1 o fl = .ok (p, fl') ∧
      FreeList fl'.mem (fl'.headOf o) L := by
  have hlen : 2 ≤ (p :: L).length := Nat.succ_le_succ (List.length_pos_iff.mpr hL)
  have hblock : blockOf (p :: L) 1 = some p := by
    rw [blockOf, if_pos hlen, List.find?_cons_of_pos]
    exact decide_eq_true (listed_of_le_one List.mem_cons_self (le_refl 1))
  obtain ⟨mem, head, himpl, hrest, -⟩ := allocatePagesImpl_spec (n := 1) h
  rw [remaining, hblock] at hrest
  rw [hblock, Option.getD_some] at himpl
  have hrest : FreeList mem head L := by rwa [← h.without_head]
  refine ⟨_, allocatePagesOpt_of_ok himpl, ?_⟩
  rw [Freelist.mem_setList, Freelist.headOf_setList, Function.update_self]
  refine hrest.zeroed hset fun q hq ↦ ?_
  have hlt := (List.pairwise_cons.mp h.sorted).1 q hq
  have hd := (h.page p List.mem_cons_self).disjoint (hrest.page q hq) (ne_of_lt hlt)
  simp only [pageSize] at *
  omega

/-- The general path does not hand out the last page of a list. -/
theorem allocatePagesOpt_last (memset : Memset) (n : ℕ)
    (h : FreeList fl.mem (fl.headOf o) [p]) :
    ∃ fl', allocatePagesOpt memset n o fl = .ok (0, fl') := by
  obtain ⟨mem, head, himpl, -⟩ := allocatePagesImpl_spec (n := n) h
  have hblock : blockOf [p] n = none := blockOf_eq_none_iff.mpr (.inl (by simp))
  rw [hblock] at himpl
  exact ⟨_, allocatePagesOpt_of_ok himpl⟩

theorem not_coincide_last (hset : MemsetSpec memset) (h : FreeList fl.mem (fl.headOf o) [p]) :
    ¬Coincide memset fl o := by
  rintro ⟨q, fl₁, fl₂, L, hq₁, hq₂, -⟩
  obtain ⟨fl₁', h₁, -⟩ := allocatePageOpt_cons hset h
  obtain ⟨fl₂', h₂⟩ := allocatePagesOpt_last memset 1 h
  obtain ⟨rfl, -⟩ := Prod.mk.inj (Except.ok.inj (hq₁.symm.trans h₁))
  obtain ⟨hp0, -⟩ := Prod.mk.inj (Except.ok.inj (hq₂.symm.trans h₂))
  exact (h.page q List.mem_cons_self).pos hp0

end Coincide

/-- **The two paths agree exactly when a second page is free.** -/
theorem coincide_iff (memset : Memset) (hset : MemsetSpec memset) (fl : Freelist)
    (o : RamOptions) {L : List ℕ} (h : FreeList fl.mem (fl.headOf o) L) (hL : L ≠ []) :
    Coincide memset fl o ↔ 2 ≤ L.length := by
  obtain ⟨p, L, rfl⟩ := List.exists_cons_of_ne_nil hL
  constructor
  · intro hc
    by_contra hlen
    obtain rfl : L = [] := List.length_eq_zero_iff.mp (by simpa using hlen)
    exact not_coincide_last hset h hc
  · intro hlen
    have hne : L ≠ [] := fun h0 ↦ by simp [h0] at hlen
    obtain ⟨fl₁, h₁, hf₁⟩ := allocatePageOpt_cons hset h
    obtain ⟨fl₂, h₂, hf₂⟩ := allocatePagesOpt_one hset h hne
    exact ⟨p, fl₁, fl₂, L, h₁, h₂, hf₁, hf₂⟩

theorem coincide_apartPages : Coincide memsetBytes apartPages .Z :=
  (coincide_iff memsetBytes memsetBytes_spec apartPages .Z freeList_apartPages.1 (by simp)).mpr
    (by decide)

/-- **The last page of a list is not served as a block.** -/
theorem not_coincide_onePageFree :
    (¬∀ (memset : Memset), MemsetSpec memset → ∀ (fl : Freelist) (o : RamOptions) (L : List ℕ),
      FreeList fl.mem (fl.headOf o) L → L ≠ [] → Coincide memset fl o) ∧
    (∃ fl', allocatePageOpt memsetBytes .LOW (onePageFree 0) = .ok (0x1000, fl')) ∧
      ∃ fl', allocatePagesOpt memsetBytes 1 .LOW (onePageFree 0) = .ok (0, fl') := by
  have h : FreeList (onePageFree 0).mem ((onePageFree 0).headOf .LOW) [0x1000] :=
    freeList_onePageFree 0
  obtain ⟨fl₁, h₁, -⟩ := allocatePageOpt_cons memsetBytes_spec h
  obtain ⟨fl₂, h₂⟩ := allocatePagesOpt_last memsetBytes 1 h
  refine ⟨fun hall ↦ ?_, ⟨fl₁, h₁⟩, fl₂, h₂⟩
  have hcoincide := hall memsetBytes memsetBytes_spec _ .LOW _ h (by simp)
  exact not_coincide_last memsetBytes_spec h hcoincide

end Chisaka.PageAllocators
