import Chisaka.Ram.FreelistPool
import Chisaka.Ram.FreelistSupply

/-!
# What the page allocator leaves alone

The link of a free page is in the page, so that the allocator writes into free pages, and into a
page that is returned.  `WithinPages` is that frame, and there is a theorem for each of the calls
that the kernel makes: `Represents.allocatePage_only`, `Represents.allocatePages_only` and
`Represents.deallocPage_only`.

`Represents.supply` and `Represents.of_supply` are the way between the pool and the supply of
`AllocatePage`, which is the two lists in the order in which it hands them out.
-/

set_option autoImplicit false

namespace Chisaka.PageAllocators

open Bytes

/-- Nothing outside the pages in `S` differs between the two memories. -/
def WithinPages (S : List ℕ) (m m' : Memory) : Prop :=
  ∀ x, (∀ p ∈ S, ¬(p ≤ x ∧ x < p + pageSize)) → m' x = m x

variable {m : MemoryMap} {s : Run} {a : Pool} {mem mem' : Memory} {S T : List ℕ} {n p : ℕ}
  {fl fl' : Freelist} {o : RamOptions}

theorem WithinPages.mono (h : WithinPages S mem mem') (hST : ∀ p ∈ S, p ∈ T) :
    WithinPages T mem mem' :=
  fun x hx ↦ h x fun p hp ↦ hx p (hST p hp)

/-- The link of a page is in the page. -/
theorem withinPages_of_wordsOnly (h : WordsOnly S mem mem') : WithinPages S mem mem' := by
  refine fun x hx ↦ h x fun p hp ↦ ?_
  have hxp := hx p hp
  rw [pageSize] at hxp
  omega

/-- A call that follows the pool leaves what the pool describes. -/
theorem Follows.represents {memset : Memset} {k : Call} {r : ℕ} {s' : Run}
    (hf : Follows m memset s a k) (hs : s.step memset k = .ok (r, s')) :
    ∃ a', Represents m s' a' := by
  rcases hf with ⟨-, he⟩ | ⟨r', t, a', -, he, hr⟩
  · rw [he] at hs
    cases hs
  · rw [he] at hs
    cases hs
    exact ⟨a', hr⟩

/-- The order in which the held pages are listed does not matter. -/
theorem Represents.perm_held {held : List ℕ} (h : Represents m s a) (hp : s.held.Perm held) :
    Represents m ⟨s.fl, held⟩ { a with held := held } :=
  ⟨h.lists, h.count, rfl, ((h.held ▸ hp).symm.append_left _).trans h.perm⟩

/-- The free pages. -/
def Pool.free (a : Pool) : List ℕ := a.list .Z ++ a.list .LOW

theorem Pool.mem_free {a : Pool} : p ∈ a.free ↔ ∃ o, p ∈ a.list o := by
  rw [free, List.mem_append]
  refine ⟨fun h ↦ h.elim (fun h ↦ ⟨.Z, h⟩) fun h ↦ ⟨.LOW, h⟩, ?_⟩
  rintro ⟨o, ho⟩
  cases o with
  | LOW => exact .inr ho
  | Z => exact .inl ho

/-- **`AllocatePage` hands out a free page, and writes into free pages only.** -/
theorem Represents.allocatePage_only (h : Represents m s a)
    (hs : PageAllocators.allocatePage s.fl = .ok (p, fl)) :
    WithinPages a.free s.fl.mem fl.mem ∧ (p = 0 ∨ p ∈ a.free) := by
  have hmem : ∀ {o q L}, a.list o = q :: L → q ∈ a.free := fun {o q L} hL ↦
    Pool.mem_free.mpr ⟨o, by rw [hL]; exact List.mem_cons_self⟩
  have hpop : ∀ {o q L}, a.list o = q :: L → WithinPages a.free s.fl.mem (writeWord s.fl.mem q 0) :=
    fun hL ↦ withinPages_of_wordsOnly (wordsOnly_writeWord (hmem hL))
  cases hZ : a.list .Z with
  | cons q L =>
    have he := (allocatePage_high h hZ).symm.trans hs
    cases he
    rw [Freelist.mem_setList]
    exact ⟨hpop hZ, .inr (hmem hZ)⟩
  | nil =>
    cases hL : a.list .LOW with
    | cons q L =>
      have he := (allocatePage_low h hZ hL).symm.trans hs
      cases he
      rw [Freelist.mem_setList]
      exact ⟨hpop hL, .inr (hmem hL)⟩
    | nil =>
      have he := (allocatePage_nil h hZ hL).symm.trans hs
      cases he
      exact ⟨fun _ _ ↦ rfl, .inl rfl⟩

/-- It does return, and with a page if there is one. -/
theorem Represents.allocatePage_mem (h : Represents m s a) (hne : a.free ≠ []) :
    ∃ p fl, PageAllocators.allocatePage s.fl = .ok (p, fl) ∧ p ∈ a.free := by
  cases hZ : a.list .Z with
  | cons q L =>
    exact ⟨q, _, allocatePage_high h hZ,
      Pool.mem_free.mpr ⟨.Z, by rw [hZ]; exact List.mem_cons_self⟩⟩
  | nil =>
    cases hL : a.list .LOW with
    | cons q L =>
      exact ⟨q, _, allocatePage_low h hZ hL,
        Pool.mem_free.mpr ⟨.LOW, by rw [hL]; exact List.mem_cons_self⟩⟩
    | nil => exact absurd (by rw [Pool.free, hZ, hL]; rfl) hne

/-- **So does `AllocatePages`**, -/
theorem Represents.allocatePages_only (h : Represents m s a)
    (hs : allocatePages n s.fl = .ok (p, fl)) : WithinPages a.free s.fl.mem fl.mem := by
  obtain ⟨mem, head, himpl, -, hl⟩ := allocatePagesImpl_spec (n := n) (h.lists .Z)
  have he := (allocatePages_of_ok himpl).symm.trans hs
  cases he
  rw [Freelist.mem_setList]
  exact (withinPages_of_wordsOnly hl).mono fun q hq ↦ Pool.mem_free.mpr ⟨.Z, hq⟩

/-- The pages that `DeallocPage` may write into. -/
def Pool.freed (a : Pool) (p : ℕ) : List ℕ := if p = 0 then a.free else p :: a.free

/-- **and `DeallocPage`, but for the page that is returned.** -/
theorem Represents.deallocPage_only (h : Represents m s a) (hm : m.Wellformed) (ht : m.BelowTop)
    (hp : p = 0 ∨ p ∈ s.held) (ho : ¬s.LeavesOpen (.deallocPage p))
    (hs : PageAllocators.deallocPage p s.fl = .ok fl) :
    WithinPages (a.freed p) s.fl.mem fl.mem := by
  rcases hp with rfl | hp
  · have he : s.fl = fl := Except.ok.inj hs
    subst he
    exact fun _ _ ↦ rfl
  · obtain ⟨mem, head, hd, -, hl⟩ := h.deallocPage hm ht hp ho
    have he := hd.symm.trans hs
    cases he
    rw [Freelist.mem_setList, Pool.freed, if_neg (h.isPage_of_held hm ht hp).pos]
    refine (withinPages_of_wordsOnly hl).mono fun q hq ↦ ?_
    rcases List.mem_cons.mp hq with rfl | hq
    · exact List.mem_cons_self
    · exact List.mem_cons_of_mem p (Pool.mem_free.mpr ⟨_, hq⟩)

/-! ## Two parties

The pages in use belong to two parties, those in `H` and those in `T`; the first calls the
allocator, and the pages of the second are left alone. -/

section Parties

variable {H : List ℕ}

theorem hold_append (p n : ℕ) (H T : List ℕ) : hold p n (H ++ T) = hold p n H ++ T := by
  rw [hold, hold]
  split
  · rfl
  · rw [List.append_assoc]

/-- No page belongs to both, -/
theorem Represents.notMem_left (h : Represents m ⟨fl, H ++ T⟩ a) (hm : m.Wellformed)
    (hp : p ∈ T) : p ∉ H := by
  have hnd := (List.nodup_append.mp (h.nodup hm .Z)).2.1
  rw [← h.held] at hnd
  exact fun hp' ↦ (List.nodup_append.mp hnd).2.2 p hp' p hp rfl

/-- and the free pages to neither. -/
theorem Represents.free_apart (h : Represents m ⟨fl, H ++ T⟩ a) (hm : m.Wellformed)
    (hp : p ∈ a.free) : IsPage p ∧ p ∉ T := by
  obtain ⟨o, ho⟩ := Pool.mem_free.mp hp
  exact ⟨(h.lists o).page p ho,
    fun hp' ↦ h.notMem_list hm (List.mem_append_right H hp') o ho⟩

theorem Represents.palloc (h : Represents m ⟨fl, H ++ T⟩ a) (hm : m.Wellformed)
    (ht : m.BelowTop) : ∃ p fl' a', PageAllocators.allocatePage fl = .ok (p, fl') ∧
      Represents m ⟨fl', hold p 1 H ++ T⟩ a' ∧ WithinPages a.free fl.mem fl'.mem ∧
      (p = 0 ∨ p ∈ a.free) := by
  obtain ⟨p, fl', a', hal, hr, -⟩ := h.allocatePage hm ht
  obtain ⟨honly, hfree⟩ := h.allocatePage_only hal
  exact ⟨p, fl', a', hal, hold_append p 1 H T ▸ hr, honly, hfree⟩

theorem Represents.pallocPages (h : Represents m ⟨fl, H ++ T⟩ a) (hm : m.Wellformed) (n : ℕ) :
    ∃ p fl' a', allocatePages n fl = .ok (p, fl') ∧ Represents m ⟨fl', hold p n H ++ T⟩ a' ∧
      WithinPages a.free fl.mem fl'.mem := by
  have hf : Follows m (fun mem _ _ _ ↦ mem) ⟨fl, H ++ T⟩ a (.allocatePages n) :=
    follows_allocatePages h hm
  rcases hf with ⟨hnone, -⟩ | ⟨p, s', a', -, hs, hr⟩
  · cases hnone
  · obtain ⟨⟨q, fl'⟩, hal, heq⟩ := Exec.bind_eq_ok.mp hs
    cases heq
    exact ⟨p, fl', a', hal, hold_append p n H T ▸ hr, h.allocatePages_only hal⟩

theorem Represents.pfree (h : Represents m ⟨fl, H ++ T⟩ a) (hm : m.Wellformed) (ht : m.BelowTop)
    (hp : p = 0 ∨ p ∈ H) (ho : ¬Run.LeavesOpen ⟨fl, H⟩ (.deallocPage p)) :
    ∃ fl' a', PageAllocators.deallocPage p fl = .ok fl' ∧ Represents m ⟨fl', H.erase p ++ T⟩ a' ∧
      WithinPages (a.freed p) fl.mem fl'.mem ∧ ∀ q ∈ a.freed p, IsPage q ∧ q ∉ T := by
  have hk : p = 0 ∨ p ∈ H ++ T := hp.imp_right (List.mem_append_left T)
  have hnull : 0 ∉ H ++ T := fun h0 ↦ (h.isPage_of_held hm ht h0).pos rfl
  have hf : Follows m (fun mem _ _ _ ↦ mem) ⟨fl, H ++ T⟩ a (.deallocPage p) :=
    follows_deallocPage h hm ht hk ho
  have herase : (H ++ T).erase p = H.erase p ++ T := by
    rcases hp with rfl | hp
    · rw [List.erase_of_not_mem hnull,
        List.erase_of_not_mem fun h0 ↦ hnull (List.mem_append_left T h0)]
    · exact List.erase_append_left T hp
  have hstep : ∃ r s' a', Run.step (fun mem _ _ _ ↦ mem) ⟨fl, H ++ T⟩ (.deallocPage p) =
      .ok (r, s') ∧ Represents m s' a' := by
    rcases hf with ⟨hnone, -⟩ | ⟨r, s', a', -, hs, hr⟩
    · exact absurd hnone a.step_deallocPage_ne_none
    · exact ⟨r, s', a', hs, hr⟩
  obtain ⟨r, s', a', hs, hr⟩ := hstep
  obtain ⟨fl', hal, heq⟩ := Exec.bind_eq_ok.mp hs
  cases heq
  refine ⟨fl', a', hal, herase ▸ hr, h.deallocPage_only hm ht hk ho hal, fun q hq ↦ ?_⟩
  rw [Pool.freed] at hq
  split at hq
  · exact h.free_apart hm hq
  · rename_i hp0
    rcases List.mem_cons.mp hq with rfl | hq
    · have hH := hp.resolve_left hp0
      exact ⟨h.isPage_of_held hm ht (List.mem_append_left T hH),
        fun hq' ↦ h.notMem_left hm hq' hH⟩
    · exact h.free_apart hm hq

end Parties

/-- `Init` writes links only. -/
theorem init_wordsOnly (hm : m.Wellformed) (ht : m.BelowTop) (hs : init m fl = .ok fl') :
    WordsOnly m.useablePages fl.mem fl'.mem := by
  have hasc := ascending_entries hm ht
  obtain ⟨u, hu, -, -, hl⟩ := initialiseEntries_spec hasc (fun top ↦ decide (cutoff < top))
    fl.mem fl.head
  obtain ⟨v, hv, -, -, hl'⟩ := initialiseEntries_spec hasc (fun top ↦ decide (top ≤ cutoff))
    u.mem fl.lowHead
  have he : init m fl = .ok ⟨v.mem, u.listHead, v.listHead, u.freePages, v.freePages⟩ := by
    simp [init, initialiseList, initialiseLowList, hu, hv]
  cases he.symm.trans hs
  rw [takenPages_eq ht] at hl hl'
  have hperm := highPages_append_lowPages_perm (m := m)
  exact (hl.mono fun p hp ↦ hperm.subset (List.mem_append_left _ hp)).trans
    (hl'.mono fun p hp ↦ hperm.subset (List.mem_append_right _ hp))

/-! ## The pool and the supply -/

/-- The order in which `AllocatePage` hands out the free pages. -/
theorem Represents.supply (h : Represents m s a) (hm : m.Wellformed) : Supply s.fl a.free :=
  ⟨⟨a.list .Z, a.list .LOW, rfl, h.lists .Z, h.lists .LOW⟩,
    (List.nodup_append.mp (h.nodup hm .Z)).1⟩

/-- There is only one. -/
theorem Supply.unique (h : Supply fl S) (h' : Supply fl T) : S = T := by
  obtain ⟨H, L, rfl, hH, hL⟩ := h.lists
  obtain ⟨H', L', rfl, hH', hL'⟩ := h'.lists
  rw [hH.unique hH', hL.unique hL']

/-- **The supply and the pages in use are all there is to know** of the state of the allocator. -/
theorem Represents.of_supply {held : List ℕ} (h : Supply fl S)
    (hp : (S ++ held).Perm m.useablePages) : ∃ a, Represents m ⟨fl, held⟩ a ∧ a.free = S := by
  obtain ⟨H, L, rfl, hH, hL⟩ := h.lists
  refine ⟨⟨fun o ↦ if o = .Z then H else L, fl.countOf, held⟩, ⟨fun o ↦ ?_, rfl, rfl, hp⟩, rfl⟩
  cases o with
  | LOW => exact hL
  | Z => exact hH

end Chisaka.PageAllocators
