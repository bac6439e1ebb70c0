import Mathlib.Data.List.Pairwise
import Chisaka.Ram.FreelistLow

/-!
# Which list a page is on

`Init` decides by the end of a region on which list its pages go, `Extract` and `DeallocPage` by
the address of a page where to look for it (`side`).  The two agree as long as no region reaches
across `CUTOFF`.  A region that ends at 4 GiB does: `base + length` is one more than `CUTOFF`, and
all of its pages, which have 32-bit addresses, go on the list of `Head()`.

They also disagree when a region reaches the top of the address space, since `base + length` is 0
then, and the list of `LowHead()` takes the region; `Init` links none of its pages
(`setupRegion_wrapped`).

`initAgrees_iff` says that there is no third case.
-/

set_option autoImplicit false

namespace Chisaka.PageAllocators

open Bytes Chain

variable {m : MemoryMap} {memset : Memset} {fl fl' : Freelist} {mem mem' : Memory}
  {head p q : ℕ} {L : List ℕ} {keep : ℕ → Bool} {e : MemoryMapEntry}
  {pre post entries : List MemoryMapEntry}

/-! ## Agreement -/

/-- Call after call, `AllocatePage(options)` returns the pages `L` in this order. -/
def Drains (memset : Memset) (options : RamOptions) : Freelist → List ℕ → Prop
  | _, [] => True
  | fl, p :: L => ∃ fl', allocatePageOpt memset options fl = .ok (p, fl') ∧
      Drains memset options fl' L

theorem FreeList.drains (h : FreeList fl.mem fl.lowHead L) : Drains memset .LOW fl L := by
  induction L generalizing fl with
  | nil => trivial
  | cons p L ih =>
    obtain ⟨himpl, hL⟩ := allocatePageImpl_cons h
    refine ⟨_, allocatePageOpt_of_ok (o := .LOW) himpl, ih ?_⟩
    simpa [PageAllocators.zeroed, Freelist.setList] using hL

/-- The two lists, and where the pages of the memory map are on them. -/
structure SidesAgree (m : MemoryMap) (memset : Memset) (fl : Freelist)
    (list : RamOptions → List ℕ) : Prop where
  /-- These are the lists. -/
  lists : ∀ o, FreeList fl.mem (fl.headOf o) (list o)
  /-- A page is where `Extract` looks for it and `DeallocPage` returns it to, and nowhere else. -/
  mem_iff : ∀ p ∈ m.useablePages, ∀ o, p ∈ list o ↔ o = side p
  /-- `Head()` has pages above `CUTOFF` only. -/
  high : ∀ p ∈ list .Z, cutoff < p
  /-- Every page of the low list can be allocated as such. -/
  drains : Drains memset .LOW fl (list .LOW)

/-- `Init` returns, and it leaves every page on the list of its address. -/
def InitAgrees (m : MemoryMap) (memset : Memset) : Prop :=
  ∀ fl, ∃ fl' list, init m fl = .ok fl' ∧ SidesAgree m memset fl' list

/-! ## Regions below the top -/

theorem side_eq_low_iff : side p = .LOW ↔ p ≤ cutoff := by
  rw [side]
  split <;> simp [*]

theorem side_eq_high_iff : side p = .Z ↔ cutoff < p := by
  rw [side]
  split <;> simp only [reduceCtorEq, false_iff, true_iff] <;> omega

/-- What `Init` leaves is the one thing that can be on the lists. -/
theorem SidesAgree.list_eq {list list' : RamOptions → List ℕ} (h : SidesAgree m memset fl list)
    (h' : ∀ o, FreeList fl.mem (fl.headOf o) (list' o)) : list = list' :=
  funext fun o ↦ (h.lists o).unique (h' o)

/-- **A region on one side of `CUTOFF` is put on the list of its pages.** -/
theorem sidesAgree_of_represents {s : Run} (h : Represents m s (Pool.ofMap m))
    (hside : ∀ e ∈ m.useable, e.base.toNat ≤ cutoff → e.base.toNat + e.length.toNat ≤ cutoff) :
    SidesAgree m memset s.fl (Pool.ofMap m).list := by
  have hhigh : ∀ p ∈ (Pool.ofMap m).list .Z, cutoff < p := by
    intro p hp
    obtain ⟨e, he, hp⟩ := List.mem_flatMap.mp (show p ∈ highPages m from hp)
    obtain ⟨heu, hend⟩ := List.mem_filter.mp he
    have hend : cutoff < e.base.toNat + e.length.toNat := by simpa using hend
    have hbase : cutoff < e.base.toNat := by
      by_contra hle
      exact absurd (hside e heu (not_lt.mp hle)) (not_le.mpr hend)
    exact hbase.trans_le (lt_of_mem_pagesFrom hp).1
  have hlow := lowPages_ofMap (m := m)
  refine ⟨h.lists, fun p hp o ↦ ?_, hhigh, (h.lists .LOW).drains⟩
  have hmem : p ∈ (Pool.ofMap m).list .Z ∨ p ∈ (Pool.ofMap m).list .LOW := by
    have := h.perm.symm.subset hp
    simpa [Pool.ofMap] using this
  cases o with
  | Z =>
    rw [eq_comm, side_eq_high_iff]
    exact ⟨hhigh p, fun hlt ↦ hmem.resolve_right fun hp' ↦ absurd (hlow p hp') (not_le.mpr hlt)⟩
  | LOW =>
    rw [eq_comm, side_eq_low_iff]
    exact ⟨hlow p, fun hle ↦ hmem.resolve_left fun hp' ↦ absurd (hhigh p hp') (not_lt.mpr hle)⟩

/-- **A region across `CUTOFF` is put on the wrong list with its first page.** -/
theorem SidesAgree.end_le_cutoff {s : Run} {list : RamOptions → List ℕ}
    (h : SidesAgree m memset s.fl list) (hr : Represents m s (Pool.ofMap m)) (hm : m.Wellformed)
    (he : e ∈ m.useable) (hbase : e.base.toNat ≤ cutoff) :
    e.base.toNat + e.length.toNat ≤ cutoff := by
  by_contra hend
  have hpaged := hm.paged e he
  have hfirst : e.base.toNat ∈ e.pages := by
    have h1 := hpaged.length_ne
    have h2 := hpaged.length_aligned
    refine mem_pagesFrom.mpr ⟨0, ?_, by simp⟩
    simp only [pageSize] at *
    omega
  obtain rfl := h.list_eq hr.lists
  have hhigh : e.base.toNat ∈ (Pool.ofMap m).list .Z :=
    List.mem_flatMap.mpr ⟨e, List.mem_filter.mpr ⟨he, by simpa using hend⟩, hfirst⟩
  exact absurd (h.high _ hhigh) (not_lt.mpr hbase)

/-! ## A region that reaches the top

It is the last one, and the loops have put up the regions before it as usual. -/

/-- Entries that a loop does not take leave its state alone. -/
theorem foldlM_ignored (h : ∀ e ∈ entries, ¬Taken keep e) (s : InitState) :
    entries.foldlM (initialiseEntry keep) s = .ok s := by
  induction entries with
  | nil => rfl
  | cons e entries ih =>
    have he : initialiseEntry keep s e = .ok s := if_neg (h e List.mem_cons_self)
    rw [List.foldlM_cons, he, Exec.ok_bind]
    exact ih fun f hf ↦ h f (List.mem_cons_of_mem e hf)

theorem initialiseEntries_append (h : ∀ e ∈ post, ¬Taken keep e) (freePages : ℕ) :
    initialiseEntries keep (pre ++ post) mem head freePages
      = initialiseEntries keep pre mem head freePages := by
  have hfold : ∀ s, (pre ++ post).foldlM (initialiseEntry keep) s
      = pre.foldlM (initialiseEntry keep) s := by
    intro s
    rw [List.foldlM_append]
    cases pre.foldlM (initialiseEntry keep) s with
    | error e => rfl
    | ok s' => exact foldlM_ignored h s'
  simp only [initialiseEntries, hfold]

/-- One of the two regions ends before the other one begins. -/
def Apart (e f : MemoryMapEntry) : Prop :=
  e.base.toNat + e.length.toNat ≤ f.base.toNat ∨ f.base.toNat + f.length.toNat ≤ e.base.toNat

instance : Std.Symm Apart := ⟨fun _ _ ↦ Or.symm⟩

/-- The two loops put up different pages. -/
theorem notMem_takenPages {keep' : ℕ → Bool} (h : Ascending entries)
    (hk : ∀ top, keep top → ¬keep' top) (hp : p ∈ takenPages keep entries) :
    p ∉ takenPages keep' entries := by
  intro hp'
  obtain ⟨e, he, hpe⟩ := List.mem_flatMap.mp hp
  obtain ⟨f, hf, hpf⟩ := List.mem_flatMap.mp hp'
  obtain ⟨heE, hte⟩ := List.mem_filter.mp he
  obtain ⟨hfE, htf⟩ := List.mem_filter.mp hf
  have hte : Taken keep e := by simpa using hte
  have htf : Taken keep' f := by simpa using htf
  have hne : e ≠ f := by
    rintro rfl
    exact hk _ hte.1 htf.1
  have hpair : (entries.filter fun e ↦ e.type = .Useable).Pairwise Apart := h.1.imp Or.inl
  have hapart := hpair.forall (List.mem_filter.mpr ⟨heE, by simpa using hte.2⟩)
    (List.mem_filter.mpr ⟨hfE, by simpa using htf.2⟩) hne
  rw [Apart] at hapart
  have h1 := lt_of_mem_pagesFrom hpe
  have h2 := lt_of_mem_pagesFrom hpf
  have h3 := Nat.div_mul_le_self e.length.toNat pageSize
  have h4 := Nat.div_mul_le_self f.length.toNat pageSize
  omega

/-- **The sum `base + length` is 0**, and the loop over the pages does not run. -/
theorem setupRegion_wrapped {base length last : ℕ} (h : base + length = 2 ^ 64) :
    setupRegion mem base length last
      = .ok (if last ≠ 0 then writeWord mem last base else mem, sub64 base pageSize) := by
  have hadd : add64 base length = 0 := by rw [add64, h, Nat.mod_self]
  have hloop : ∀ mem, Loop.exec (setupRegionBody 0) (mem, base) = .ok (mem, base) := fun mem ↦
    Loop.exec_inr (by simp [setupRegionBody])
  by_cases hlast : last = 0 <;> simp [setupRegion, hadd, hloop, hlast]

/-- **What the low loop writes when it comes to that region.** -/
theorem initialiseEntries_wrapped (mem : Memory) (head : ℕ) (hpre : Ascending pre)
    (ht : Taken keep e) (hpaged : e.Paged)
    (htop : e.base.toNat + e.length.toNat = 2 ^ 64) (hpost : ∀ f ∈ post, ¬Taken keep f) :
    ∃ s mem₁, initialiseEntries keep (pre ++ e :: post) mem head 0 = .ok s ∧
      WordsOnly (takenPages keep pre) mem mem₁ ∧
      s.mem = if e.base.toNat = pageSize then mem₁
        else writeWord mem₁ (e.base.toNat - pageSize) 0 := by
  have h0 : InitInv mem [] ⟨mem, head, true, 0, 0⟩ :=
    ⟨⟨fun hne ↦ absurd rfl hne, List.Pairwise.nil, by simp⟩, rfl, rfl, rfl, WordsOnly.refl _ _⟩
  obtain ⟨s₁, hs₁, hinv⟩ := foldlM_initialiseEntry keep h0 hpre (by simp)
  rw [List.nil_append] at hinv
  have hlast : (if s₁.firstIteration then 0 else s₁.lastAddr)
      = (takenPages keep pre).getLastD 0 := by
    rw [hinv.first, hinv.last]
    by_cases hL : takenPages keep pre = []
    · simp [hL]
    · simp [hL]
  set last := (takenPages keep pre).getLastD 0 with hlastdef
  set mem₁ := if last ≠ 0 then writeWord s₁.mem last e.base.toNat else s₁.mem with hmem₁
  obtain ⟨s₂, hround, hmem₂, hlast₂⟩ : ∃ s₂, initialiseEntry keep s₁ e = .ok s₂ ∧
      s₂.mem = mem₁ ∧ s₂.lastAddr = sub64 e.base.toNat pageSize := by
    refine ⟨⟨mem₁, if s₁.firstIteration then e.base.toNat else s₁.listHead, false,
      sub64 e.base.toNat pageSize, add64 s₁.freePages (e.length.toNat / pageSize)⟩,
      (if_pos ht).trans ?_, rfl, rfl⟩
    rw [hlast, setupRegion_wrapped htop]
    rfl
  have hfold : (pre ++ e :: post).foldlM (initialiseEntry keep) ⟨mem, head, true, 0, 0⟩
      = .ok s₂ := by
    rw [List.foldlM_append, hs₁, Exec.ok_bind, List.foldlM_cons, hround, Exec.ok_bind,
      foldlM_ignored hpost]
  have hw : WordsOnly (takenPages keep pre) mem mem₁ := by
    rw [hmem₁]
    split
    · rename_i hne
      refine hinv.frame.trans (wordsOnly_writeWord ?_)
      rcases List.eq_nil_or_concat (takenPages keep pre) with hL | ⟨l, q, hL⟩
      · exact absurd (by simp [hlastdef, hL]) hne
      · simp [hlastdef, hL]
    · exact hinv.frame
  have hle := hpaged.pageSize_le
  have hsub : sub64 e.base.toNat pageSize = e.base.toNat - pageSize :=
    sub64_of_le hle e.base.toNat_lt
  by_cases hbase : e.base.toNat = pageSize
  · have hlast0 : s₂.lastAddr = 0 := by rw [hlast₂, hsub, hbase, Nat.sub_self]
    refine ⟨{ s₂ with listHead := 0 }, mem₁, ?_, hw, by rw [if_pos hbase, hmem₂]⟩
    simp [initialiseEntries, hfold, hlast0]
  · have hlast0 : s₂.lastAddr ≠ 0 := by
      rw [hlast₂, hsub]
      omega
    refine ⟨{ s₂ with mem := writeWord mem₁ (e.base.toNat - pageSize) 0 }, mem₁, ?_, hw,
      by rw [if_neg hbase]⟩
    simp [initialiseEntries, hfold, hlast0]
    rw [hmem₂, hlast₂, hsub]

/-- A null behind all entries of a list, or in the link of the last one, changes nothing. -/
theorem FreeList.writeWord_null (h : FreeList mem head L) (hq : IsPage q)
    (hle : ∀ p ∈ L, p ≤ q) : FreeList (writeWord mem q 0) head L := by
  refine h.congr fun p hp ↦ ?_
  by_cases hpq : p = q
  · subst hpq
    obtain ⟨l, r, rfl⟩ := List.append_of_mem hp
    have hr : r = [] := by
      cases r with
      | nil => rfl
      | cons c r =>
        have hlt := (List.pairwise_cons.mp (List.pairwise_append.mp h.sorted).2.1).1 c (by simp)
        exact absurd (hle c (by simp)) (not_le.mpr hlt)
    subst hr
    rw [readWord_writeWord (by decide), h.seg.next_eq]
    rfl
  · exact readWord_writeWord_page hq (h.page p hp) hpq

/-- A useable region that reaches the top is the last one. -/
theorem exists_split_of_top (hm : m.Wellformed) (he : e ∈ m.useable)
    (htop : e.base.toNat + e.length.toNat = 2 ^ 64) :
    ∃ pre post, m.entries = pre ++ e :: post ∧ Ascending pre ∧
      (∀ f ∈ pre, f.type = .Useable → f.base.toNat + f.length.toNat ≤ e.base.toNat) ∧
      ∀ f ∈ post, f.type ≠ .Useable := by
  obtain ⟨hmem, htype⟩ := List.mem_filter.mp he
  obtain ⟨pre, post, hsplit⟩ := List.append_of_mem hmem
  have huse : m.useable = pre.filter (fun e ↦ e.type = .Useable) ++
      e :: post.filter (fun e ↦ e.type = .Useable) := by
    rw [MemoryMap.useable, hsplit, List.filter_append, List.filter_cons, if_pos htype]
  have hend := hm.end_le
  rw [huse] at hend
  obtain ⟨hpre, hrest, hbefore⟩ := List.pairwise_append.mp hend
  have hpreend : ∀ f ∈ pre, f.type = .Useable →
      f.base.toNat + f.length.toNat ≤ e.base.toNat := fun f hf hfu ↦
    hbefore f (List.mem_filter.mpr ⟨hf, by simpa using hfu⟩) e List.mem_cons_self
  refine ⟨pre, post, hsplit, ⟨hpre, fun f hf hfu ↦ ?_⟩, hpreend, fun f hf hfu ↦ ?_⟩
  · have hfm : f ∈ m.useable := by simp [huse, hf, hfu]
    exact ⟨hm.paged f hfm, (hpreend f hf hfu).trans_lt e.base.toNat_lt⟩
  · have hle := (List.pairwise_cons.mp hrest).1 f (List.mem_filter.mpr ⟨hf, by simpa using hfu⟩)
    exact absurd f.base.toNat_lt (not_lt.mpr (htop ▸ hle))

/-- **Nothing of that region is on the list of `Head()`.** -/
theorem init_of_top (hm : m.Wellformed) (he : e ∈ m.useable)
    (htop : e.base.toNat + e.length.toNat = 2 ^ 64) (fl : Freelist) :
    ∃ fl' H, init m fl = .ok fl' ∧ FreeList fl'.mem fl'.head H ∧
      ∀ p ∈ H, p < e.base.toNat := by
  obtain ⟨pre, post, hsplit, hpre, hpreend, hpost⟩ := exists_split_of_top hm he htop
  have hadd : add64 e.base.toNat e.length.toNat = 0 := by rw [add64, htop, Nat.mod_self]
  have htype : e.type = .Useable := by simpa using (List.mem_filter.mp he).2
  have hpaged := hm.paged e he
  -- the first loop passes it over
  obtain ⟨s, hs, hlist, -⟩ := initialiseEntries_spec hpre (fun top ↦ decide (cutoff < top))
    fl.mem fl.head
  have hskip : ∀ f ∈ e :: post, ¬Taken (fun top ↦ decide (cutoff < top)) f := by
    intro f hf ht
    rcases List.mem_cons.mp hf with rfl | hf
    · exact absurd ht.1 (by simp [hadd])
    · exact hpost f hf ht.2
  rw [← initialiseEntries_append hskip] at hs
  -- the second one takes it
  have htaken : Taken (fun top ↦ decide (top ≤ cutoff)) e := ⟨by simp [hadd], htype⟩
  obtain ⟨s', mem₁, hs', hw, hmem⟩ := initialiseEntries_wrapped s.mem fl.lowHead hpre htaken
    hpaged htop fun f hf ht ↦ hpost f hf ht.2
  obtain ⟨s₂, -, hlow, -⟩ := initialiseEntries_spec hpre (fun top ↦ decide (top ≤ cutoff))
    fl.mem fl.head
  have hlt : ∀ p ∈ takenPages (fun top ↦ decide (cutoff < top)) pre, p < e.base.toNat := by
    intro p hp
    obtain ⟨f, hf, hp⟩ := List.mem_flatMap.mp hp
    obtain ⟨hf, ht⟩ := List.mem_filter.mp hf
    have hend := hpreend f hf (of_decide_eq_true ht).2
    have h1 := (lt_of_mem_pagesFrom hp).2
    have h2 := Nat.div_mul_le_self f.length.toNat pageSize
    omega
  have hhigh : FreeList mem₁ s.listHead (takenPages (fun top ↦ decide (cutoff < top)) pre) :=
    hlist.frame hw hlow.page fun p hp ↦
      notMem_takenPages hpre (fun top h1 h2 ↦ by
        have h1 := of_decide_eq_true h1
        have h2 := of_decide_eq_true h2
        omega) hp
  refine ⟨⟨s'.mem, s.listHead, s'.listHead, s.freePages, s'.freePages⟩, _, ?_, ?_, hlt⟩
  · simp [init, initialiseList, initialiseLowList, hsplit, hs, hs']
  · show FreeList s'.mem s.listHead _
    rw [hmem]
    have h1 := hpaged.base_ne
    have h2 := hpaged.base_aligned
    have h3 := e.base.toNat_lt
    split
    · exact hhigh
    · refine hhigh.writeWord_null ⟨?_, ?_, ?_⟩ fun p hp ↦ ?_
      · simp only [pageSize] at *
        omega
      · simp only [pageSize] at *
        omega
      · omega
      · have h4 := hlt p hp
        have h5 := (hhigh.page p hp).aligned
        simp only [pageSize] at *
        omega

/-- **With a region that reaches the top, no list has the last page.** -/
theorem belowTop_of_initAgrees (hm : m.Wellformed) (h : InitAgrees m memset) : m.BelowTop := by
  intro e he
  by_contra hge
  have hge : 2 ^ 64 ≤ e.base.toNat + e.length.toNat := not_lt.mp hge
  have hpaged := hm.paged e he
  have h1 := hpaged.base_aligned
  have h2 := hpaged.length_aligned
  have h3 := hpaged.length_ne
  have h4 := e.base.toNat_lt
  have hlast : e.base.toNat + e.length.toNat - pageSize ∈ m.useablePages := by
    refine List.mem_flatMap.mpr ⟨e, he, mem_pagesFrom.mpr ⟨e.length.toNat / pageSize - 1, ?_, ?_⟩⟩
      <;> simp only [pageSize] at * <;> omega
  obtain ⟨fl', list, hinit, hagree⟩ := h ⟨fun _ ↦ 0, 0, 0, 0, 0⟩
  have hon := (hagree.mem_iff _ hlast _).mpr rfl
  have hlt := ((hagree.lists _).page _ hon).lt
  have htop : e.base.toNat + e.length.toNat = 2 ^ 64 := by
    simp only [pageSize] at *
    omega
  have hside : side (e.base.toNat + e.length.toNat - pageSize) = .Z := by
    rw [side_eq_high_iff, htop]
    decide
  rw [hside] at hon
  obtain ⟨fl₁, H, hinit₁, hH, hbelow⟩ := init_of_top hm he htop ⟨fun _ ↦ 0, 0, 0, 0, 0⟩
  obtain rfl := Except.ok.inj (hinit.symm.trans hinit₁)
  rw [(hagree.lists .Z).unique hH] at hon
  have h5 := hbelow _ hon
  simp only [pageSize] at *
  omega

/-- **`Init` puts every page on the list of its address** exactly if no region reaches the top of
the address space and none that starts at or below `CUTOFF` ends above it. -/
theorem initAgrees_iff (m : MemoryMap) (memset : Memset) (hm : m.Wellformed) :
    InitAgrees m memset ↔ m.BelowTop ∧ ∀ e ∈ m.useable, e.base.toNat ≤ cutoff →
      e.base.toNat + e.length.toNat ≤ cutoff := by
  constructor
  · intro h
    have ht := belowTop_of_initAgrees hm h
    refine ⟨ht, fun e he hbase ↦ ?_⟩
    obtain ⟨fl', list, hinit, hagree⟩ := h ⟨fun _ ↦ 0, 0, 0, 0, 0⟩
    obtain ⟨fl₁, hinit₁, hr⟩ := init_represents hm ht ⟨fun _ ↦ 0, 0, 0, 0, 0⟩
    obtain rfl := Except.ok.inj (hinit.symm.trans hinit₁)
    exact hagree.end_le_cutoff (s := ⟨fl', []⟩) hr hm he hbase
  · rintro ⟨ht, hside⟩ fl
    obtain ⟨fl', hinit, hr⟩ := init_represents hm ht fl
    exact ⟨fl', _, hinit, sidesAgree_of_represents (s := ⟨fl', []⟩) hr hside⟩

theorem initAgrees_twoPages : InitAgrees twoPages memsetBytes :=
  (initAgrees_iff twoPages memsetBytes twoPages_wellformed).mpr ⟨twoPages_belowTop, by decide⟩

/-- A memory map with the last page below 4 GiB. -/
def lastLowPage : MemoryMap := .ofList [region 0xFFFFF000 0x1000] (by decide)

/-- **The last page below 4 GiB is put on the list of `Head()`.** -/
theorem not_initAgrees_lastLowPage :
    (¬∀ (m : MemoryMap) (memset : Memset), m.Wellformed → InitAgrees m memset) ∧
    ∀ fl, ∃ fl', init lastLowPage fl = .ok fl' ∧ fl'.head = 0xFFFFF000 ∧ fl'.lowHead = 0 := by
  have huse : lastLowPage.useable = [region 0xFFFFF000 0x1000] := rfl
  have hwf : lastLowPage.Wellformed := wellformed_of_single huse (by constructor <;> decide)
  have htop : lastLowPage.BelowTop := by
    intro e he
    rw [huse, List.mem_singleton] at he
    rw [he]
    decide
  refine ⟨fun hall ↦ ?_, fun fl ↦ ?_⟩
  · obtain ⟨fl', list, hinit, hagree⟩ := hall lastLowPage memsetBytes hwf ⟨fun _ ↦ 0, 0, 0, 0, 0⟩
    obtain ⟨fl₁, hinit₁, hr⟩ := init_represents hwf htop ⟨fun _ ↦ 0, 0, 0, 0, 0⟩
    obtain rfl := Except.ok.inj (hinit.symm.trans hinit₁)
    have he : region 0xFFFFF000 0x1000 ∈ lastLowPage.useable := by simp [huse]
    exact absurd (hagree.end_le_cutoff (s := ⟨fl', []⟩) hr hwf he (by decide)) (by decide)
  · obtain ⟨fl', hinit, hhigh, hlow, -⟩ := init_spec hwf htop fl
    exact ⟨fl', hinit, hhigh.head_eq, hlow.head_eq⟩

end Chisaka.PageAllocators
