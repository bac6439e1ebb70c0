import Chisaka.Ram.FreelistPool

/-!
# Runs of the page allocator

What holds in every state that clients can bring the allocator into.

* `allocatePage_deallocPage_partition`: as long as the clients only allocate single pages and
  return them, without writing to them, the two lists and the held pages are at all times a
  partition of the pages of the memory map, and `AllocatePage()` fails only when both lists are
  empty.  What carries it is that a held page has its link cleared (`Cleared`): that is why
  `DeallocPage` never leaves a list open in such a run.
* `counters_eq_length`: the counters agree with the lists as long as every call is `Counted`.
  `Pool.counted_step_iff` says that the calls that are not `Counted` do break the agreement.
* `allocatePageOpt_served_iff`: `AllocatePage(options)` is served exactly when its list is not
  empty, and `AllocatePages(n, options)` exactly when `n` is not 0 or the list has fewer than two
  pages: for no pages it hands out the first page of a longer list, which stays on the list.
-/

set_option autoImplicit false

namespace Chisaka.PageAllocators

open Bytes Chain

variable {m : MemoryMap} {memset : Memset} {s s' : Run} {a a' : Pool} {k : Call} {p r : ℕ}

/-! ## Single pages -/

/-- The clients allocate single pages and return them. -/
def PagesOnly (_ : Run) : Call → Prop
  | .allocatePage => True
  | .deallocPage _ => True
  | _ => False

/-- The links of the held pages are null. -/
def Cleared (s : Run) : Prop := ∀ p ∈ s.held, readWord s.fl.mem p = 0

theorem Cleared.not_leavesOpen (h : Cleared s) (hk : s.Enabled (.deallocPage p)) :
    ¬s.LeavesOpen (.deallocPage p) := by
  rintro ⟨L, -, q, -, hqp, hw⟩
  rcases hk with rfl | hp
  · exact absurd hqp (Nat.not_lt_zero q)
  · exact hw (h p hp)

/-- Popping a page clears its link, and touches no other held page. -/
theorem Cleared.pop {o : RamOptions} {L : List ℕ} {head count : ℕ} (h : Cleared s)
    (hr : Represents m s a) (hm : m.Wellformed) (ht : m.BelowTop) (hL : a.list o = p :: L) :
    Cleared ⟨s.fl.setList (writeWord s.fl.mem p 0) head count o, hold p 1 s.held⟩ := by
  have hp : IsPage p := (hr.lists o).page p (by rw [hL]; exact List.mem_cons_self)
  intro q hq
  rw [hold, if_neg hp.pos] at hq
  simp only [Freelist.mem_setList]
  rcases List.mem_append.mp hq with hq | hq
  · obtain rfl : q = p := by simpa [pagesFrom] using hq
    exact readWord_writeWord (by decide)
  · have hqp : q ≠ p := fun he ↦ hr.notMem_list hm hq o (by rw [hL, he]; exact List.mem_cons_self)
    rw [hr.readWord_popped hL (hr.isPage_of_held hm ht hq) hqp]
    exact h q hq

theorem Cleared.allocatePage (h : Cleared s) (hr : Represents m s a) (hm : m.Wellformed)
    (ht : m.BelowTop) (hs : s.step memset .allocatePage = .ok (r, s')) : Cleared s' := by
  cases hZ : a.list .Z with
  | cons p L =>
    simp only [Run.step, allocatePage_high hr hZ, Exec.ok_bind, Exec.pure_eq] at hs
    cases hs
    exact h.pop hr hm ht hZ
  | nil =>
    cases hL : a.list .LOW with
    | cons p L =>
      simp only [Run.step, allocatePage_low hr hZ hL, Exec.ok_bind, Exec.pure_eq] at hs
      cases hs
      exact h.pop hr hm ht hL
    | nil =>
      simp only [Run.step, allocatePage_nil hr hZ hL, Exec.ok_bind, Exec.pure_eq] at hs
      cases hs
      exact h

theorem Cleared.deallocPage (h : Cleared s) (hr : Represents m s a) (hm : m.Wellformed)
    (ht : m.BelowTop) (hk : s.Enabled (.deallocPage p))
    (hs : s.step memset (.deallocPage p) = .ok (r, s')) : Cleared s' := by
  by_cases hp0 : p = 0
  · simp only [Run.step, PageAllocators.deallocPage, if_pos hp0, Exec.pure_eq,
      Exec.ok_bind] at hs
    cases hs
    exact fun q hq ↦ h q (List.mem_of_mem_erase hq)
  · have hp : p ∈ s.held := hk.resolve_left hp0
    obtain ⟨mem, head, hd, -, hl⟩ := hr.deallocPage hm ht hp (h.not_leavesOpen hk)
    simp only [Run.step, hd, Exec.ok_bind, Exec.pure_eq] at hs
    cases hs
    have hnd : s.held.Nodup := hr.held ▸ (List.nodup_append.mp (hr.nodup hm .Z)).2.1
    intro q hq
    obtain ⟨hqp, hq⟩ := (hnd.mem_erase_iff).mp hq
    simp only [Freelist.mem_setList]
    rw [readWord_page hl (fun x hx ↦ ?_) (hr.isPage_of_held hm ht hq) fun hin ↦ ?_]
    · exact h q hq
    · rcases List.mem_cons.mp hx with rfl | hx
      · exact hr.isPage_of_held hm ht hp
      · exact (hr.lists _).page x hx
    · rcases List.mem_cons.mp hin with he | hin
      · exact hqp he
      · exact hr.notMem_list hm hq _ hin

/-- What is kept while the clients allocate and return single pages. -/
theorem keeps_pagesOnly (memset : Memset) (hm : m.Wellformed) (ht : m.BelowTop) :
    ((machine m memset).restrict PagesOnly).Keeps
      fun s ↦ (∃ a, Represents m s a) ∧ Cleared s where
  init s hs := by
    refine ⟨⟨_, represents_of_init memset hm ht hs⟩, fun p hp ↦ ?_⟩
    rw [hs.1] at hp
    exact absurd hp (List.not_mem_nil)
  step := by
    rintro s k ⟨⟨a, hr⟩, hc⟩ ⟨hk, hpages⟩
    cases k with
    | allocatePage =>
      have hf : Follows m memset s a .allocatePage := follows_allocatePage hr hm
      rcases hf with ⟨hnone, -⟩ | ⟨r, s', a', -, hs, hr'⟩
      · exact absurd hnone a.step_allocatePage_ne_none
      · exact ⟨r, s', hs, ⟨a', hr'⟩, hc.allocatePage hr hm ht hs⟩
    | deallocPage p =>
      have hf : Follows m memset s a (.deallocPage p) :=
        follows_deallocPage hr hm ht hk (hc.not_leavesOpen hk)
      rcases hf with ⟨hnone, -⟩ | ⟨r, s', a', -, hs, hr'⟩
      · exact absurd hnone a.step_deallocPage_ne_none
      · exact ⟨r, s', hs, ⟨a', hr'⟩, hc.deallocPage hr hm ht hk hs⟩
    | allocatePageOpt o => exact hpages.elim
    | allocatePages n => exact hpages.elim
    | allocatePagesOpt n o => exact hpages.elim
    | extract p n => exact hpages.elim
    | clientWrite p f => exact hpages.elim

/-- Both lists are null-terminated and ascend, with the held pages they are the pages of the memory
map, each once, and `AllocatePage()` answers null exactly when both are empty. -/
def Sound (m : MemoryMap) (memset : Memset) (s : Run) : Prop :=
  ∃ H L, FreeList s.fl.mem s.fl.head H ∧ FreeList s.fl.mem s.fl.lowHead L ∧
    (H ++ L ++ s.held).Nodup ∧ (∀ p, p ∈ H ++ L ++ s.held ↔ p ∈ m.useablePages) ∧
    ∀ r s', s.step memset .allocatePage = .ok (r, s') → (r = 0 ↔ H = [] ∧ L = [])

/-- `Init` returns, and in every state that allocating and returning single pages leads to, the
allocator is `Sound` and the next call returns. -/
def PagesSound (m : MemoryMap) (memset : Memset) : Prop :=
  (∀ fl, ∃ fl', init m fl = .ok fl') ∧
    ∀ s, ((machine m memset).restrict PagesOnly).Reach s → Sound m memset s ∧
      ∀ k, s.Enabled k → PagesOnly s k → ∃ r s', s.step memset k = .ok (r, s')

theorem Represents.allocatePage_eq_zero_iff (h : Represents m s a)
    (hs : s.step memset .allocatePage = .ok (r, s')) :
    r = 0 ↔ a.list .Z = [] ∧ a.list .LOW = [] := by
  cases hZ : a.list .Z with
  | cons p L =>
    have hp := ((h.lists .Z).page p (by rw [hZ]; exact List.mem_cons_self)).pos
    simp only [Run.step, allocatePage_high h hZ, Exec.ok_bind, Exec.pure_eq] at hs
    cases hs
    simp [hp]
  | nil =>
    cases hL : a.list .LOW with
    | cons p L =>
      have hp := ((h.lists .LOW).page p (by rw [hL]; exact List.mem_cons_self)).pos
      simp only [Run.step, allocatePage_low h hZ hL, Exec.ok_bind, Exec.pure_eq] at hs
      cases hs
      simp [hp]
    | nil =>
      simp only [Run.step, allocatePage_nil h hZ hL, Exec.ok_bind, Exec.pure_eq] at hs
      cases hs
      simp

theorem Represents.sound (h : Represents m s a) (hm : m.Wellformed) : Sound m memset s :=
  ⟨a.list .Z, a.list .LOW, h.lists .Z, h.lists .LOW, h.held ▸ h.nodup hm .Z,
    fun _ ↦ h.held ▸ h.perm.mem_iff, fun _ _ hs ↦ h.allocatePage_eq_zero_iff hs⟩

/-- **No page is lost and none is handed out twice.** -/
theorem allocatePage_deallocPage_partition (m : MemoryMap) (memset : Memset)
    (hm : m.Wellformed) (ht : m.BelowTop) : PagesSound m memset := by
  have hkeeps := keeps_pagesOnly memset hm ht
  refine ⟨fun fl ↦ ?_, fun s hs ↦ ?_⟩
  · obtain ⟨fl', he, -⟩ := init_represents hm ht fl
    exact ⟨fl', he⟩
  · obtain ⟨⟨a, hr⟩, -⟩ := hkeeps.reach hs
    refine ⟨hr.sound hm, fun k hk hpages ↦ ?_⟩
    obtain ⟨r, s', hs', -⟩ := hkeeps.returns hs ⟨hk, hpages⟩
    exact ⟨r, s', hs'⟩

/-- A region of pages. -/
def region (base length : UInt64) : MemoryMapEntry := ⟨base, length, .Useable⟩

/-- A memory map with a single region of two pages. -/
def twoPages : MemoryMap := .ofList [region 0x1000 0x2000] (by decide)

theorem wellformed_of_single {e : MemoryMapEntry} (h : m.useable = [e]) (he : e.Paged) :
    m.Wellformed := by
  refine ⟨?_, ?_, ?_⟩ <;> rw [h]
  · exact List.pairwise_singleton _ _
  · exact List.pairwise_singleton _ _
  · intro f hf
    rwa [List.mem_singleton.mp hf]

theorem twoPages_wellformed : twoPages.Wellformed :=
  wellformed_of_single (e := region 0x1000 0x2000) rfl (by constructor <;> decide)

theorem twoPages_belowTop : twoPages.BelowTop := by
  have h : twoPages.useable = [region 0x1000 0x2000] := rfl
  intro e he
  rw [h, List.mem_singleton] at he
  rw [he]
  decide

/-- A `Memset` that does what is documented. -/
def memsetBytes : Memset := fun m p v len x ↦
  if p ≤ x ∧ x < p + len then UInt8.ofNat v else m x

theorem memsetBytes_spec : MemsetSpec memsetBytes := fun _ _ _ _ _ ↦ rfl

theorem allocatePage_deallocPage_partition_twoPages : PagesSound twoPages memsetBytes :=
  allocatePage_deallocPage_partition twoPages memsetBytes twoPages_wellformed twoPages_belowTop

/-! ### A region that ends at the top of the address space -/

/-- The last page of the address space. -/
def topRegion : MemoryMapEntry := region 0xFFFFFFFFFFFFF000 0x1000

/-- The memory map with that region only. -/
def topPage : MemoryMap := .ofList [topRegion] (by decide)

theorem foldlM_replicate_empty (keep : ℕ → Bool) (n : ℕ) (s : InitState) :
    (List.replicate n MemoryMapEntry.empty).foldlM (initialiseEntry keep) s = .ok s := by
  induction n with
  | zero => rfl
  | succ n ih =>
    have hempty : initialiseEntry keep s .empty = .ok s := if_neg (by simp [MemoryMapEntry.empty])
    rw [List.replicate_succ, List.foldlM_cons, hempty, Exec.ok_bind, ih]

theorem foldlM_topPage {keep : ℕ → Bool} {s s' : InitState}
    (h : initialiseEntry keep s topRegion = .ok s') :
    topPage.entries.foldlM (initialiseEntry keep) s = .ok s' := by
  have he : topPage.entries = topRegion :: List.replicate 19 .empty := rfl
  rw [he, List.foldlM_cons, h, Exec.ok_bind, foldlM_replicate_empty]

/-- `base + length` is 0, so that the loop does not run, and the page that is returned as the last
one lies in front of the region. -/
theorem setupRegion_top (mem : Memory) :
    setupRegion mem 0xFFFFFFFFFFFFF000 0x1000 0 = .ok (mem, 0xFFFFFFFFFFFFE000) := by
  have hloop : Loop.exec (setupRegionBody (add64 0xFFFFFFFFFFFFF000 0x1000))
      (mem, 0xFFFFFFFFFFFFF000) = .ok (mem, 0xFFFFFFFFFFFFF000) := Loop.exec_inr rfl
  simp [setupRegion, hloop, sub64, pageSize]

/-- The page is put on the low list, and the null that should end the list is written to the page
before it. -/
theorem init_topPage (mem : Memory) : init topPage ⟨mem, 0, 0, 0, 0⟩
    = .ok ⟨writeWord mem 0xFFFFFFFFFFFFE000 0, 0, 0xFFFFFFFFFFFFF000, 0, 1⟩ := by
  have hhigh : initialiseEntry (fun top ↦ decide (cutoff < top)) ⟨mem, 0, true, 0, 0⟩ topRegion
      = .ok ⟨mem, 0, true, 0, 0⟩ := by
    rw [initialiseEntry]
    exact if_neg (by decide)
  have hlow : initialiseEntry (fun top ↦ decide (top ≤ cutoff)) ⟨mem, 0, true, 0, 0⟩ topRegion
      = .ok ⟨mem, 0xFFFFFFFFFFFFF000, false, 0xFFFFFFFFFFFFE000, 1⟩ := by
    rw [initialiseEntry]
    refine (if_pos (by decide)).trans ?_
    rw [if_pos rfl]
    have hset := setupRegion_top mem
    simp [topRegion, region, hset]
    rfl
  simp [init, initialiseList, initialiseLowList, initialiseEntries, foldlM_topPage hhigh,
    foldlM_topPage hlow]

/-- **Without `BelowTop` it fails**: with the last page of the address space as the only region,
the low list has no end after `Init`. -/
theorem not_pagesSound_topPage :
    ¬∀ (m : MemoryMap) (memset : Memset), m.Wellformed → PagesSound m memset := by
  intro h
  have hwf : topPage.Wellformed :=
    wellformed_of_single (e := topRegion) rfl (by constructor <;> decide)
  obtain ⟨-, hsound⟩ := h topPage memsetBytes hwf
  have hreach : ((machine topPage memsetBytes).restrict PagesOnly).Reach
      ⟨⟨writeWord (fun _ ↦ 5) 0xFFFFFFFFFFFFE000 0, 0, 0xFFFFFFFFFFFFF000, 0, 1⟩, []⟩ :=
    .init ⟨rfl, _, init_topPage fun _ ↦ 5⟩
  obtain ⟨⟨H, L, -, hL, -⟩, -⟩ := hsound _ hreach
  -- the list starts with the page, and goes on at an address that is no page
  cases L with
  | nil => exact absurd (hL.head_eq_zero_iff.mpr rfl) (by decide)
  | cons p L =>
    have hp : p = 0xFFFFFFFFFFFFF000 := hL.seg.1.symm
    have hnext : readWord (writeWord (fun _ ↦ 5) 0xFFFFFFFFFFFFE000 0) p
        = 0x0505050505050505 := by
      rw [hp]
      decide
    cases L with
    | nil => exact absurd (hnext.symm.trans hL.seg.2) (by decide)
    | cons q L =>
      have hq : 0x0505050505050505 = q := hnext.symm.trans hL.seg.2.1
      have hpage := (hL.page q (by simp)).aligned
      rw [← hq] at hpage
      exact absurd hpage (by decide)

/-! ## The counters -/

/-- The runs in which no list is left open. -/
def KeepsClosed (s : Run) (k : Call) : Prop := ¬s.LeavesOpen k

/-- **In such a run the allocator always represents a pool.** -/
theorem represents_of_reach (hset : MemsetSpec memset) (hm : m.Wellformed) (ht : m.BelowTop)
    (hs : ((machine m memset).restrict KeepsClosed).Reach s) : ∃ a, Represents m s a := by
  refine Machine.Reach.induct (M := (machine m memset).restrict KeepsClosed)
    (I := fun s ↦ ∃ a, Represents m s a) (fun s h0 ↦ ⟨_, represents_of_init memset hm ht h0⟩) ?_ hs
  rintro s k r s' ⟨a, hr⟩ ⟨hk, ho⟩ hstep
  have hstep' : s.step memset k = .ok (r, s') := hstep
  rcases hr.step hset hm ht hk ho with ⟨-, he⟩ | ⟨r', s₁, a', -, he, hr'⟩
  · rw [hstep'] at he
    exact absurd he (by simp)
  · rw [hstep'] at he
    cases he
    exact ⟨a', hr'⟩

namespace Pool

/-- Each counter is the length of its list. -/
def Counted (a : Pool) : Prop := ∀ o, a.count o = (a.list o).length

/-- The calls that take pages off a list without counting them do not take any. -/
def Counts (a : Pool) : Call → Prop
  | .allocatePageOpt _ => False
  | .allocatePages pages => pages = 0 ∨ blockOf (a.list .Z) pages = none
  | .allocatePagesOpt pages options => pages = 0 ∨ blockOf (a.list options) pages = none
  | .extract _ pages => pages = 0
  | _ => True

theorem counted_update (ha : a.Counted) (o : RamOptions) (L : List ℕ) :
    (∀ o', a.count o' = (Function.update a.list o L o').length) ↔ L.length = (a.list o).length := by
  constructor
  · intro h
    have ho := h o
    rw [Function.update_self, ha o] at ho
    exact ho.symm
  · intro h o'
    rcases RamOptions.eq_or_eq_other o o' with rfl | rfl
    · rw [Function.update_self, ha, h]
    · rw [Function.update_of_ne o.other_ne, ha]

theorem counted_recount (ha : a.Counted) {o : RamOptions} {L held : List ℕ} {count : ℕ}
    (h : count = L.length) :
    Counted ⟨Function.update a.list o L, Function.update a.count o count, held⟩ := by
  intro o'
  rcases RamOptions.eq_or_eq_other o o' with rfl | rfl
  · simpa using h
  · simpa [Function.update_of_ne o.other_ne] using ha _

end Pool

namespace Represents

/-- There are fewer pages than a counter can hold. -/
theorem length_lt (hr : Represents m s a) (hm : m.Wellformed) (ht : m.BelowTop)
    (o : RamOptions) :
    (a.list o).length + (a.list o.other).length + a.held.length < 2 ^ 64 := by
  have hlen := (hr.perm_of o).length_eq
  have hlt := length_lt_rounds (pairwise_useablePages hm) fun p hp ↦
    isPage_of_mem_useablePages hm ht hp
  simp only [List.length_append] at hlen
  exact hlen ▸ hlt

theorem counted_cut (hr : Represents m s a) (ha : a.Counted) {o : RamOptions} {b n : ℕ}
    (hb : b ∈ a.list o) (hn : Listed (a.list o) b n) : (a.cut o b n).Counted ↔ n = 0 := by
  have hlen := length_without (hr.lists o).sorted (hr.lists o).page hb hn
  rw [Pool.cut, Pool.Counted, Pool.counted_update ha]
  omega

theorem counted_popBlock (hr : Represents m s a) (ha : a.Counted) (o : RamOptions) (n : ℕ) :
    (a.popBlock o n).2.Counted ↔ n = 0 ∨ blockOf (a.list o) n = none := by
  rw [Pool.popBlock]
  cases hb : blockOf (a.list o) n with
  | none => simp [ha]
  | some b =>
    obtain ⟨-, hbL, hbn⟩ := blockOf_eq_some hb
    simpa using hr.counted_cut ha hbL hbn

/-- A page that is taken off a list with its counter. -/
theorem counted_pop (hr : Represents m s a) (ha : a.Counted) {o : RamOptions} {p : ℕ}
    {L held : List ℕ} (hL : a.list o = p :: L) : Pool.Counted
      ⟨Function.update a.list o L, Function.update a.count o (sub64 (a.count o) 1), held⟩ := by
  refine Pool.counted_recount ha ?_
  have hlt := (hr.lists o).length_lt
  rw [ha o, hL, List.length_cons] at *
  rw [sub64_of_le (by omega) hlt, Nat.add_sub_cancel]

theorem counted_allocatePage (hr : Represents m s a) (ha : a.Counted)
    (hs : a.step .allocatePage = some (r, a')) : a'.Counted := by
  simp only [Pool.step, Pool.pop] at hs
  cases hZ : a.list .Z with
  | cons p L =>
    rw [hZ] at hs
    cases hs
    exact hr.counted_pop ha hZ
  | nil =>
    rw [hZ] at hs
    cases hL : a.list .LOW with
    | cons p L =>
      rw [hL] at hs
      cases hs
      exact hr.counted_pop ha hL
    | nil =>
      rw [hL] at hs
      cases hs
      exact ha

theorem counted_deallocPage (hr : Represents m s a) (hm : m.Wellformed) (ht : m.BelowTop)
    (ha : a.Counted) {p : ℕ} (hk : s.Enabled (.deallocPage p))
    (hs : a.step (.deallocPage p) = some (r, a')) : a'.Counted := by
  by_cases hp0 : p = 0
  · rw [Pool.step, if_pos hp0] at hs
    cases hs
    exact ha
  · rw [Pool.step, if_neg hp0] at hs
    cases hs
    refine Pool.counted_recount ha ?_
    have hins := (List.perm_orderedInsert (· ≤ ·) p (a.list (side p))).length_eq
    have hheld := List.length_pos_of_mem (hr.held ▸ hk.resolve_left hp0)
    have hlt := hr.length_lt hm ht (side p)
    rw [hins, ha, List.length_cons, add64_of_lt (by omega)]

/-- **Which calls keep the counters**: when a counter agrees with its list, it still does after a
call exactly if the call `Counts`. -/
theorem counted_step_iff (hr : Represents m s a) (hm : m.Wellformed) (ht : m.BelowTop)
    (ha : a.Counted) (hk : s.Enabled k) (hs : a.step k = some (r, a')) :
    a'.Counted ↔ a.Counts k := by
  cases k with
  | allocatePage => exact iff_of_true (hr.counted_allocatePage ha hs) trivial
  | allocatePageOpt o =>
    refine iff_of_false ?_ id
    simp only [Pool.step, Pool.pop] at hs
    cases hL : a.list o with
    | nil => rw [hL] at hs; exact absurd hs (by simp)
    | cons p L =>
      rw [hL] at hs
      cases hs
      rw [Pool.Counted, Pool.counted_update ha, hL]
      simp
  | allocatePages n =>
    obtain rfl : (a.popBlock .Z n).2 = a' := congrArg Prod.snd (Option.some.inj hs)
    exact hr.counted_popBlock ha .Z n
  | allocatePagesOpt n o =>
    obtain rfl : (a.popBlock o n).2 = a' := congrArg Prod.snd (Option.some.inj hs)
    exact hr.counted_popBlock ha o n
  | extract p n =>
    cases hs
    obtain ⟨L, hL, hp, hpn⟩ := hk
    rw [hL.unique (hr.lists _)] at hp hpn
    exact hr.counted_cut ha hp hpn
  | deallocPage p => exact iff_of_true (hr.counted_deallocPage hm ht ha hk hs) trivial
  | clientWrite p f =>
    cases hs
    exact iff_of_true ha trivial

end Represents

/-- The call takes no pages off a list without counting them: `AllocatePage(options)` is not made,
`AllocatePages` finds no block, `Extract` is for no pages, and no list is left open. -/
def Counted (s : Run) : Call → Prop
  | .allocatePageOpt _ => False
  | .allocatePages pages => pages = 0 ∨ ∃ L, FreeList s.fl.mem s.fl.head L ∧
      (L.length < 2 ∨ ∀ b ∈ L, ¬Listed L b pages)
  | .allocatePagesOpt pages options => pages = 0 ∨
      ∃ L, FreeList s.fl.mem (s.fl.headOf options) L ∧
        (L.length < 2 ∨ ∀ b ∈ L, ¬Listed L b pages)
  | .extract _ pages => pages = 0
  | .deallocPage base => ¬s.LeavesOpen (.deallocPage base)
  | _ => True

theorem Counted.not_leavesOpen (h : Counted s k) : ¬s.LeavesOpen k := by
  cases k with
  | deallocPage p => exact h
  | _ => exact id

theorem Represents.counts_of_counted (hr : Represents m s a) (h : Counted s k) : a.Counts k := by
  have hblock : ∀ {o n}, (n = 0 ∨ ∃ L, FreeList s.fl.mem (s.fl.headOf o) L ∧
      (L.length < 2 ∨ ∀ b ∈ L, ¬Listed L b n)) → n = 0 ∨ blockOf (a.list o) n = none := by
    intro o n h
    refine h.imp_right ?_
    rintro ⟨L, hL, h⟩
    rw [hL.unique (hr.lists o)] at h
    exact blockOf_eq_none_iff.mpr h
  cases k with
  | allocatePages n => exact hblock (o := .Z) h
  | allocatePagesOpt n o => exact hblock h
  | allocatePageOpt o => exact h
  | extract p n => exact h
  | allocatePage => trivial
  | deallocPage p => trivial
  | clientWrite p f => trivial

/-- `FreePages()` and `FreePagesLow()` are the lengths of the two lists, and their sum is 0 exactly
when both lists are empty. -/
def CountersAgree (s : Run) : Prop :=
  ∃ H L, FreeList s.fl.mem s.fl.head H ∧ FreeList s.fl.mem s.fl.lowHead L ∧
    s.fl.freePagesTop = H.length ∧ s.fl.freePagesLow = L.length ∧
    (add64 s.fl.freePagesTop s.fl.freePagesLow = 0 ↔ H = [] ∧ L = [])

theorem Represents.countersAgree (hr : Represents m s a) (hm : m.Wellformed) (ht : m.BelowTop)
    (ha : a.Counted) : CountersAgree s := by
  have hlt := hr.length_lt hm ht .Z
  have htop : s.fl.freePagesTop = (a.list .Z).length :=
    (congrFun hr.count .Z).trans (ha .Z)
  have hlow : s.fl.freePagesLow = (a.list .LOW).length :=
    (congrFun hr.count .LOW).trans (ha .LOW)
  refine ⟨a.list .Z, a.list .LOW, hr.lists .Z, hr.lists .LOW, htop, hlow, ?_⟩
  rw [htop, hlow, add64_of_lt (by simp only [RamOptions.other] at hlt; omega)]
  simp [List.length_eq_zero_iff]

/-- **The counters agree with the lists as long as every call is `Counted`.** -/
theorem counters_eq_length (m : MemoryMap) (memset : Memset) (hset : MemsetSpec memset)
    (hm : m.Wellformed) (ht : m.BelowTop) (s : Run)
    (hs : ((machine m memset).restrict Counted).Reach s) : CountersAgree s := by
  suffices h : ∃ a, Represents m s a ∧ a.Counted by
    obtain ⟨a, hr, ha⟩ := h
    exact hr.countersAgree hm ht ha
  refine Machine.Reach.induct (M := (machine m memset).restrict Counted)
    (I := fun s ↦ ∃ a, Represents m s a ∧ a.Counted) (fun s h0 ↦ ?_) ?_ hs
  · refine ⟨_, represents_of_init memset hm ht h0, fun o ↦ ?_⟩
    cases o <;> rfl
  · rintro s k r s' ⟨a, hr, ha⟩ ⟨hk, hc⟩ hstep
    have hstep' : s.step memset k = .ok (r, s') := hstep
    rcases hr.step hset hm ht hk hc.not_leavesOpen with ⟨-, he⟩ | ⟨r', s₁, a', hp, he, hr'⟩
    · rw [hstep'] at he
      exact absurd he (by simp)
    · rw [hstep'] at he
      cases he
      exact ⟨a', hr', (hr.counted_step_iff hm ht ha hk hp).mpr (hr.counts_of_counted hc)⟩

/-- There are runs, whatever the calls must satisfy: the one without calls. -/
theorem exists_reach (memset : Memset) (hm : m.Wellformed) (ht : m.BelowTop)
    (C : Run → Call → Prop) :
    ∃ s, ((machine m memset).restrict C).Reach s ∧ Represents m s (Pool.ofMap m) := by
  obtain ⟨fl, he, hr⟩ := init_represents hm ht ⟨fun _ ↦ 0, 0, 0, 0, 0⟩
  exact ⟨⟨fl, []⟩, .init ⟨rfl, _, he⟩, hr⟩

/-- A run goes on with every call that the pool answers. -/
theorem Represents.exists_reach_step {C : Run → Call → Prop} (hr : Represents m s a)
    (hset : MemsetSpec memset) (hm : m.Wellformed) (ht : m.BelowTop)
    (hs : ((machine m memset).restrict C).Reach s) (hk : s.Enabled k) (hc : C s k)
    (ho : ¬s.LeavesOpen k) (hp : a.step k = some (r, a')) :
    ∃ s', ((machine m memset).restrict C).Reach s' ∧ Represents m s' a' := by
  rcases hr.step hset hm ht hk ho with ⟨hnone, -⟩ | ⟨r', s', a₁, hp', he, hr'⟩
  · exact absurd (hp.symm.trans hnone) (by simp)
  · obtain ⟨-, rfl⟩ : r = r' ∧ a' = a₁ := by simpa using hp.symm.trans hp'
    exact ⟨s', hs.step ⟨hk, hc⟩ he, hr'⟩

namespace Pool

theorem step_allocatePage_low {a : Pool} {L : List ℕ} (hZ : a.list .Z = [])
    (hL : a.list .LOW = p :: L) :
    a.step .allocatePage = some (p, (⟨Function.update a.list .LOW L, a.count,
      hold p 1 a.held⟩ : Pool).recount .LOW (sub64 (a.count .LOW) 1)) := by
  simp only [step, pop, hZ, hL]

theorem step_allocatePageOpt_cons {a : Pool} {o : RamOptions} {L : List ℕ}
    (hL : a.list o = p :: L) : a.step (.allocatePageOpt o) =
      some (p, ⟨Function.update a.list o L, a.count, hold p 1 a.held⟩) := by
  simp only [step, pop, hL]

end Pool

/-- Both pages are taken, and the first one is returned. -/
theorem counters_eq_length_twoPages :
    ∃ s, ((machine twoPages memsetBytes).restrict Counted).Reach s ∧ s.held = [0x2000] ∧
      s.fl.lowHead = 0x1000 ∧ CountersAgree s := by
  have hm := twoPages_wellformed
  have ht := twoPages_belowTop
  obtain ⟨s₀, hs₀, hr₀⟩ := exists_reach memsetBytes hm ht Counted
  obtain ⟨s₁, hs₁, hr₁⟩ := hr₀.exists_reach_step (k := .allocatePage) memsetBytes_spec hm ht hs₀
    trivial trivial id (Pool.step_allocatePage_low (p := 0x1000) (L := [0x2000]) rfl (by decide))
  obtain ⟨s₂, hs₂, hr₂⟩ := hr₁.exists_reach_step (k := .allocatePage) memsetBytes_spec hm ht hs₁
    trivial trivial id (Pool.step_allocatePage_low (p := 0x2000) (L := []) rfl rfl)
  have hopen : ¬s₂.LeavesOpen (.deallocPage 0x1000) := by
    rintro ⟨L, hL, q, rfl, -⟩
    exact absurd (hL.unique (hr₂.lists .LOW)) (by simp [Pool.recount])
  have hheld : s₂.held = [0x2000, 0x1000] := hr₂.held
  obtain ⟨s₃, hs₃, hr₃⟩ := hr₂.exists_reach_step (k := .deallocPage 0x1000) memsetBytes_spec hm ht
    hs₂ (.inr (by simp [hheld])) hopen hopen rfl
  exact ⟨s₃, hs₃, hr₃.held, (hr₃.lists .LOW).seg.1, counters_eq_length twoPages memsetBytes
    memsetBytes_spec hm ht s₃ hs₃⟩

/-- A page taken from a list by `AllocatePage(options)` in the first call of a run. -/
theorem exists_reach_allocatePageOpt (hset : MemsetSpec memset) (hm : m.Wellformed)
    (ht : m.BelowTop) {o : RamOptions} {L : List ℕ} (hL : (Pool.ofMap m).list o = p :: L) :
    ∃ s, ((machine m memset).restrict KeepsClosed).Reach s ∧ Represents m s
      ⟨Function.update (Pool.ofMap m).list o L, (Pool.ofMap m).count, hold p 1 []⟩ := by
  obtain ⟨s, hs, hr⟩ := exists_reach memset hm ht KeepsClosed
  exact hr.exists_reach_step (k := .allocatePageOpt o) hset hm ht hs trivial id id
    (Pool.step_allocatePageOpt_cons hL)

/-- **`AllocatePage(options)` does not count**: of the two pages of a fresh allocator it takes one
off the list, and `FreePagesLow()` still is 2. -/
theorem not_countersAgree_allocatePageOpt :
    ¬∀ (m : MemoryMap) (memset : Memset), MemsetSpec memset → m.Wellformed → m.BelowTop →
      ∀ s, (machine m memset).Reach s → CountersAgree s := by
  intro h
  have hL : (Pool.ofMap twoPages).list .LOW = [0x1000, 0x2000] := by decide
  obtain ⟨s, hs, hr⟩ := exists_reach_allocatePageOpt memsetBytes_spec twoPages_wellformed
    twoPages_belowTop hL
  obtain ⟨H, L, -, hLow, -, hcount, -⟩ := h _ _ memsetBytes_spec twoPages_wellformed
    twoPages_belowTop s hs.of_restrict
  have hlist : L = [0x2000] := hLow.unique (hr.lists .LOW)
  have hlow : s.fl.freePagesLow = 2 := congrFun hr.count .LOW
  rw [hlist, hlow] at hcount
  exact absurd hcount (by decide)

/-! ## Null pages -/

/-- The call returns a block of `n` pages, one at least, that was on the list, which loses it, or
it returns null and the list stays as it is.  The other list stays as it is in any case. -/
def Served (memset : Memset) (s : Run) (k : Call) (o : RamOptions) (n : ℕ) : Prop :=
  ∃ r s' L L', s.step memset k = .ok (r, s') ∧
    FreeList s.fl.mem (s.fl.headOf o) L ∧ FreeList s.fl.mem (s.fl.headOf o.other) L' ∧
    FreeList s'.fl.mem (s'.fl.headOf o.other) L' ∧
    ((r = 0 ∧ FreeList s'.fl.mem (s'.fl.headOf o) L) ∨
      (0 < n ∧ r ∈ L ∧ Listed L r n ∧ FreeList s'.fl.mem (s'.fl.headOf o) (without L r n)))

/-- `AllocatePage(options)` and `AllocatePages(n, options)` in one state: the first is served when
its list is not empty, and only then; the second when `n` is not 0 or its list has fewer than two
pages, and only then. -/
def ServedUnlessEmpty (memset : Memset) (s : Run) : Prop :=
  (∀ o, Served memset s (.allocatePageOpt o) o 1 ↔ s.fl.headOf o ≠ 0) ∧
    ∀ o n, Served memset s (.allocatePagesOpt n o) o n ↔
      0 < n ∨ ∃ L, FreeList s.fl.mem (s.fl.headOf o) L ∧ L.length < 2

theorem Represents.served_allocatePageOpt_iff (hr : Represents m s a) (hset : MemsetSpec memset)
    (hm : m.Wellformed) (o : RamOptions) :
    Served memset s (.allocatePageOpt o) o 1 ↔ s.fl.headOf o ≠ 0 := by
  have hlist := hr.lists o
  constructor
  · rintro ⟨r, s', L, L', hs, -⟩ h0
    rw [hlist.head_eq_zero_iff.mp h0] at hlist
    simp [Run.step, allocatePageOpt_of_error (allocatePageImpl_nil hlist)] at hs
  · intro hne
    have hf : Follows m memset s a (.allocatePageOpt o) := follows_allocatePageOpt hset hr hm
    cases hL : a.list o with
    | nil => exact absurd (hlist.head_eq_zero_iff.mpr hL) hne
    | cons p L =>
      rw [hL] at hlist
      rcases hf with ⟨hnone, -⟩ | ⟨r, s', a', hp, hs, hr'⟩
      · exact absurd ((Pool.step_allocatePageOpt_cons hL).symm.trans hnone) (by simp)
      · obtain ⟨rfl, rfl⟩ : p = r ∧ _ = a' := by
          simpa using (Pool.step_allocatePageOpt_cons hL).symm.trans hp
        have ho := hr'.lists o
        have hother := hr'.lists o.other
        simp only [Function.update_self, Function.update_of_ne o.other_ne] at ho hother
        refine ⟨p, s', p :: L, a.list o.other, hs, hlist, hr.lists _, hother, .inr ⟨one_pos,
          by simp, listed_of_le_one (by simp) (le_refl 1), ?_⟩⟩
        rwa [hlist.without_head]

/-- `AllocatePages(n, options)` returns in every case, and its answer is the one of `blockOf`. -/
theorem Represents.step_allocatePagesOpt (hr : Represents m s a) (hset : MemsetSpec memset)
    (hm : m.Wellformed) (o : RamOptions) (n : ℕ) :
    ∃ s', s.step memset (.allocatePagesOpt n o) = .ok ((blockOf (a.list o) n).getD 0, s') ∧
      FreeList s'.fl.mem (s'.fl.headOf o.other) (a.list o.other) ∧
      FreeList s'.fl.mem (s'.fl.headOf o)
        ((blockOf (a.list o) n).elim (a.list o) fun b ↦ without (a.list o) b n) := by
  have hf : Follows m memset s a (.allocatePagesOpt n o) := follows_allocatePagesOpt hset hr hm
  rcases hf with ⟨hnone, -⟩ | ⟨r, s', a', hp, hs, hr'⟩
  · exact absurd hnone (by simp [Pool.step])
  · have hp' : a.popBlock o n = (r, a') := Option.some.inj hp
    have ho := hr'.lists o
    have hother := hr'.lists o.other
    rw [Pool.popBlock] at hp'
    cases hb : blockOf (a.list o) n with
    | none =>
      rw [hb] at hp'
      cases hp'
      exact ⟨s', hs, hother, ho⟩
    | some b =>
      rw [hb] at hp'
      cases hp'
      simp only [Pool.cut, Function.update_self, Function.update_of_ne o.other_ne] at ho hother
      exact ⟨s', hs, hother, ho⟩

theorem Represents.served_allocatePagesOpt_iff (hr : Represents m s a)
    (hset : MemsetSpec memset) (hm : m.Wellformed) (o : RamOptions) (n : ℕ) :
    Served memset s (.allocatePagesOpt n o) o n ↔
      0 < n ∨ ∃ L, FreeList s.fl.mem (s.fl.headOf o) L ∧ L.length < 2 := by
  have hlist := hr.lists o
  obtain ⟨s', hs, hother, ho⟩ := hr.step_allocatePagesOpt hset hm o n
  constructor
  · rintro ⟨r, s₁, L, L', hs₁, hL, -, -, hnull | hblock⟩
    · -- null is only returned when there is no block, and there always is one of no pages
      rw [hs] at hs₁
      obtain ⟨hr0, -⟩ : (blockOf (a.list o) n).getD 0 = r ∧ s' = s₁ := by simpa using hs₁
      rcases Nat.eq_zero_or_pos n with rfl | hn
      · refine .inr ⟨_, hlist, ?_⟩
        cases hb : blockOf (a.list o) 0 with
        | none =>
          refine (blockOf_eq_none_iff.mp hb).elim id fun hnone ↦ ?_
          have hempty : a.list o = [] := List.eq_nil_iff_forall_not_mem.mpr fun b hb ↦
            hnone b hb (listed_of_le_one hb (Nat.zero_le 1))
          rw [hempty]
          exact Nat.zero_lt_two
        | some b =>
          rw [hb, hnull.1] at hr0
          exact absurd hr0 (hlist.page b (blockOf_eq_some hb).2.1).pos
      · exact .inl hn
    · exact .inl hblock.1
  · intro h
    refine ⟨_, s', a.list o, _, hs, hlist, hr.lists _, hother, ?_⟩
    cases hb : blockOf (a.list o) n with
    | none =>
      rw [hb] at ho
      exact .inl ⟨rfl, ho⟩
    | some b =>
      rw [hb] at ho
      obtain ⟨hlen, hbL, hbn⟩ := blockOf_eq_some hb
      refine .inr ⟨h.resolve_right ?_, hbL, hbn, ho⟩
      rintro ⟨L, hL, hlt⟩
      rw [hL.unique hlist] at hlt
      exact absurd hlt (not_lt.mpr hlen)

/-- **`AllocatePage(options)` dereferences null exactly when its list is empty**, and
`AllocatePages(n, options)` never does; but `AllocatePages(0, options)` hands out a page without
taking it off a list of two pages or more. -/
theorem allocatePageOpt_served_iff (m : MemoryMap) (memset : Memset) (hset : MemsetSpec memset)
    (hm : m.Wellformed) (ht : m.BelowTop) (s : Run)
    (hs : ((machine m memset).restrict KeepsClosed).Reach s) : ServedUnlessEmpty memset s := by
  obtain ⟨a, hr⟩ := represents_of_reach hset hm ht hs
  exact ⟨hr.served_allocatePageOpt_iff hset hm, hr.served_allocatePagesOpt_iff hset hm⟩

/-- The state after `AllocatePage(RamOptions::LOW)`. -/
theorem allocatePageOpt_served_iff_twoPages :
    ∃ s, ((machine twoPages memsetBytes).restrict KeepsClosed).Reach s ∧ s.held = [0x1000] ∧
      s.fl.lowHead = 0x2000 ∧ ServedUnlessEmpty memsetBytes s := by
  have hL : (Pool.ofMap twoPages).list .LOW = [0x1000, 0x2000] := by decide
  obtain ⟨s, hs, hr⟩ := exists_reach_allocatePageOpt memsetBytes_spec twoPages_wellformed
    twoPages_belowTop hL
  exact ⟨s, hs, hr.held, (hr.lists .LOW).seg.1, allocatePageOpt_served_iff twoPages memsetBytes
    memsetBytes_spec twoPages_wellformed twoPages_belowTop s hs⟩

/-- A memory map with a single page, below `CUTOFF`. -/
def onePage : MemoryMap := .ofList [region 0x1000 0x1000] (by decide)

theorem onePage_wellformed : onePage.Wellformed :=
  wellformed_of_single (e := region 0x1000 0x1000) rfl (by constructor <;> decide)

theorem onePage_belowTop : onePage.BelowTop := by
  have h : onePage.useable = [region 0x1000 0x1000] := rfl
  intro e he
  rw [h, List.mem_singleton] at he
  rw [he]
  decide

/-- **An exhausted list is not noticed**: when the only low page has been handed out,
`AllocatePage(RamOptions::LOW)` writes through null. -/
theorem not_served_exhausted :
    ¬∀ (m : MemoryMap) (memset : Memset), MemsetSpec memset → m.Wellformed → m.BelowTop →
      ∀ s, (machine m memset).Reach s → ∀ o n,
        Served memset s (.allocatePageOpt o) o 1 ∧ Served memset s (.allocatePagesOpt n o) o n := by
  intro h
  have hL : (Pool.ofMap onePage).list .LOW = [0x1000] := by decide
  obtain ⟨s, hs, hr⟩ := exists_reach_allocatePageOpt memsetBytes_spec onePage_wellformed
    onePage_belowTop hL
  have hhead : s.fl.headOf .LOW = 0 := (hr.lists .LOW).head_eq_zero_iff.mpr rfl
  have hserved := (h _ _ memsetBytes_spec onePage_wellformed onePage_belowTop s hs.of_restrict
    .LOW 1).1
  exact (hr.served_allocatePageOpt_iff memsetBytes_spec onePage_wellformed .LOW).mp hserved hhead

end Chisaka.PageAllocators
