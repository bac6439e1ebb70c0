import Mathlib.Logic.Function.Basic
import Chisaka.Lib.Machine
import Chisaka.Ram.FreelistBlocks
import Chisaka.Ram.FreelistInit

/-!
# The page allocator as two lists

`Pool` is the allocator without memory: two lists of pages, two counters, and the pages that the
callers hold.  `Pool.step` says what each call does to them, and `none` stands for a null
dereference, which there is one of: `AllocatePage(options)` on an empty list.

`machine` is the allocator itself, called by clients that keep to its contract (`Enabled`): they
return only pages they hold, extract only pages that are listed, and write only to pages they hold.
`Represents.step` is the refinement between the two: a call does to the allocator what `Pool.step`
does to the pool, unless it is a `DeallocPage` that leaves a list open.
-/

set_option autoImplicit false

namespace Chisaka.PageAllocators

open Bytes Chain

/-! ## The list an option selects -/

/-- The other one of the two lists. -/
def RamOptions.other : RamOptions → RamOptions
  | .LOW => .Z
  | .Z => .LOW

theorem RamOptions.other_ne (o : RamOptions) : o.other ≠ o := by cases o <;> decide

theorem RamOptions.eq_or_eq_other (o o' : RamOptions) : o' = o ∨ o' = o.other := by
  cases o <;> cases o' <;> decide

/-- The list on which `DeallocPage` and `Extract` look for a page. -/
def side (p : ℕ) : RamOptions := if p ≤ cutoff then .LOW else .Z

/-- The head of a list. -/
def Freelist.headOf (fl : Freelist) : RamOptions → ℕ
  | .LOW => fl.lowHead
  | .Z => fl.head

/-- The counter of a list. -/
def Freelist.countOf (fl : Freelist) : RamOptions → ℕ
  | .LOW => fl.freePagesLow
  | .Z => fl.freePagesTop

/-- The allocator with new memory, and a new head and counter of one list. -/
def Freelist.setList (fl : Freelist) (mem : Memory) (head count : ℕ) : RamOptions → Freelist
  | .LOW => { fl with mem := mem, lowHead := head, freePagesLow := count }
  | .Z => { fl with mem := mem, head := head, freePagesTop := count }

section SetList

variable (fl : Freelist) (mem : Memory) (head count : ℕ) (o : RamOptions)

@[simp] theorem Freelist.mem_setList : (fl.setList mem head count o).mem = mem := by cases o <;> rfl

@[simp] theorem Freelist.headOf_setList :
    (fl.setList mem head count o).headOf = Function.update fl.headOf o head := by
  funext o'
  cases o <;> cases o' <;> rfl

@[simp] theorem Freelist.countOf_setList :
    (fl.setList mem head count o).countOf = Function.update fl.countOf o count := by
  funext o'
  cases o <;> cases o' <;> rfl

end SetList

/-! ## Clients -/

/-- The calls that clients make, and what they do to the pages they hold. -/
inductive Call
  | allocatePage
  | allocatePageOpt (options : RamOptions)
  | allocatePages (pages : ℕ)
  | allocatePagesOpt (pages : ℕ) (options : RamOptions)
  | extract (pageaddr pages : ℕ)
  | deallocPage (base : ℕ)
  | clientWrite (page : ℕ) (contents : ℕ → UInt8)

/-- The allocator and the pages its clients hold. -/
structure Run where
  /-- The allocator. -/
  fl : Freelist
  /-- The pages that were handed out and not returned. -/
  held : List ℕ

/-- The held pages after `n` pages were handed out at `p`, or none if `p` is null. -/
def hold (p n : ℕ) (held : List ℕ) : List ℕ := if p = 0 then held else pagesFrom p n ++ held

/-- A call, its result, and what it does to the held pages. -/
def Run.step (memset : Memset) (s : Run) : Call → Exec (ℕ × Run)
  | .allocatePage => do
    let (p, fl) ← allocatePage s.fl
    return (p, ⟨fl, hold p 1 s.held⟩)
  | .allocatePageOpt options => do
    let (p, fl) ← allocatePageOpt memset options s.fl
    return (p, ⟨fl, hold p 1 s.held⟩)
  | .allocatePages pages => do
    let (p, fl) ← allocatePages pages s.fl
    return (p, ⟨fl, hold p pages s.held⟩)
  | .allocatePagesOpt pages options => do
    let (p, fl) ← allocatePagesOpt memset pages options s.fl
    return (p, ⟨fl, hold p pages s.held⟩)
  | .extract pageaddr pages => do
    let fl ← extract pageaddr pages s.fl
    return (0, ⟨fl, hold pageaddr pages s.held⟩)
  | .deallocPage base => do
    let fl ← deallocPage base s.fl
    return (0, ⟨fl, s.held.erase base⟩)
  | .clientWrite page contents =>
    return (0, { s with fl := { s.fl with mem := overlay s.fl.mem page pageSize contents } })

/-- The contract of the clients. -/
def Run.Enabled (s : Run) : Call → Prop
  | .extract pageaddr pages => ∃ L, FreeList s.fl.mem (s.fl.headOf (side pageaddr)) L ∧
      pageaddr ∈ L ∧ Listed L pageaddr pages
  | .deallocPage base => base = 0 ∨ base ∈ s.held
  | .clientWrite page _ => page ∈ s.held
  | _ => True

/-- The allocator for a memory map.  Memory is arbitrary when `Init` is called. -/
def machine (m : MemoryMap) (memset : Memset) : Machine Run Call ℕ where
  init s := s.held = [] ∧ ∃ fl, init m fl = .ok s.fl
  enabled := Run.Enabled
  step := Run.step memset

/-! ## The pool -/

/-- The allocator as two lists of pages, with the counters that it keeps of them. -/
structure Pool where
  /-- The pages on each list. -/
  list : RamOptions → List ℕ
  /-- The counter of each list. -/
  count : RamOptions → ℕ
  /-- The pages that were handed out and not returned. -/
  held : List ℕ

namespace Pool

/-- The list loses its first page. -/
def pop (a : Pool) (o : RamOptions) : Option (ℕ × Pool) :=
  match a.list o with
  | [] => none
  | p :: L => some (p, ⟨Function.update a.list o L, a.count, hold p 1 a.held⟩)

/-- The counter changes. -/
def recount (a : Pool) (o : RamOptions) (count : ℕ) : Pool :=
  { a with count := Function.update a.count o count }

/-- The list loses the `n` pages at `b`. -/
def cut (a : Pool) (o : RamOptions) (b n : ℕ) : Pool :=
  ⟨Function.update a.list o (without (a.list o) b n), a.count, hold b n a.held⟩

/-- The list loses its lowest block of `n` contiguous pages. -/
def popBlock (a : Pool) (o : RamOptions) (n : ℕ) : ℕ × Pool :=
  match blockOf (a.list o) n with
  | none => (0, a)
  | some b => (b, a.cut o b n)

/-- The page goes back on the list. -/
def insert (a : Pool) (o : RamOptions) (p : ℕ) : Pool :=
  ⟨Function.update a.list o ((a.list o).orderedInsert (· ≤ ·) p), a.count, a.held.erase p⟩

/-- What a call does to the pool; `none` is a null dereference. -/
def step (a : Pool) : Call → Option (ℕ × Pool)
  | .allocatePage =>
    match a.pop .Z with
    | some (p, a') => some (p, a'.recount .Z (sub64 (a.count .Z) 1))
    | none =>
      match a.pop .LOW with
      | some (p, a') => some (p, a'.recount .LOW (sub64 (a.count .LOW) 1))
      | none => some (0, a)
  | .allocatePageOpt options => a.pop options
  | .allocatePages pages => some (a.popBlock .Z pages)
  | .allocatePagesOpt pages options => some (a.popBlock options pages)
  | .extract pageaddr pages => some (0, a.cut (side pageaddr) pageaddr pages)
  | .deallocPage base =>
    if base = 0 then some (0, a)
    else some (0, (a.insert (side base) base).recount (side base)
      (add64 (a.count (side base)) 1))
  | .clientWrite _ _ => some (0, a)

theorem step_allocatePage_ne_none (a : Pool) : a.step .allocatePage ≠ none := by
  simp only [step]
  split
  · simp
  · split <;> simp

theorem step_deallocPage_ne_none (a : Pool) {p : ℕ} : a.step (.deallocPage p) ≠ none := by
  simp only [step]
  split <;> simp

end Pool

/-- **What the state of the allocator stands for.**  The lists of the pool are the lists in memory,
and with the held pages they are the pages of the memory map, each once. -/
structure Represents (m : MemoryMap) (s : Run) (a : Pool) : Prop where
  /-- Both lists are null-terminated and ascending. -/
  lists : ∀ o, FreeList s.fl.mem (s.fl.headOf o) (a.list o)
  /-- The counters agree. -/
  count : s.fl.countOf = a.count
  /-- The held pages agree. -/
  held : s.held = a.held
  /-- Nothing is lost and nothing is in two places. -/
  perm : (a.list .Z ++ a.list .LOW ++ a.held).Perm m.useablePages

/-! ## The calls, list by list

Each function picks a list, works on it, and writes the list back. -/

section Equations

variable {memset : Memset} {o : RamOptions} {fl : Freelist} {mem : Memory} {p head pages : ℕ}

/-- The memory after the pages have been zeroed, if that was asked for. -/
def zeroed (memset : Memset) (o : RamOptions) (mem : Memory) (p len : ℕ) : Memory :=
  if p ≠ 0 ∧ o = .Z then memset mem p 0 len else mem

theorem allocatePageOpt_of_ok (h : allocatePageImpl fl.mem (fl.headOf o) = .ok (p, mem, head)) :
    allocatePageOpt memset o fl
      = .ok (p, fl.setList (zeroed memset o mem p pageSize) head (fl.countOf o) o) := by
  cases o with
  | LOW =>
    have h' : allocatePageImpl fl.mem fl.lowHead = .ok (p, mem, head) := h
    simp [allocatePageOpt, h', zeroed, Freelist.setList, Freelist.countOf]
  | Z =>
    have h' : allocatePageImpl fl.mem fl.head = .ok (p, mem, head) := h
    by_cases hp : p = 0 <;>
      simp [allocatePageOpt, h', zeroed, Freelist.setList, Freelist.countOf, hp]

theorem allocatePageOpt_of_error {e : Fault}
    (h : allocatePageImpl fl.mem (fl.headOf o) = .error e) :
    allocatePageOpt memset o fl = .error e := by
  cases o with
  | LOW =>
    have h' : allocatePageImpl fl.mem fl.lowHead = .error e := h
    simp [allocatePageOpt, h']
  | Z =>
    have h' : allocatePageImpl fl.mem fl.head = .error e := h
    simp [allocatePageOpt, h']

theorem allocatePages_of_ok
    (h : allocatePagesImpl fl.mem (fl.headOf .Z) pages = .ok (p, mem, head)) :
    allocatePages pages fl = .ok (p, fl.setList mem head (fl.countOf .Z) .Z) := by
  have h' : allocatePagesImpl fl.mem fl.head pages = .ok (p, mem, head) := h
  simp [allocatePages, h', Freelist.setList, Freelist.countOf]

theorem allocatePagesOpt_of_ok
    (h : allocatePagesImpl fl.mem (fl.headOf o) pages = .ok (p, mem, head)) :
    allocatePagesOpt memset pages o fl = .ok (p, fl.setList
      (zeroed memset o mem p (pages * pageSize % 2 ^ 32)) head (fl.countOf o) o) := by
  cases o with
  | LOW =>
    have h' : allocatePagesImpl fl.mem fl.lowHead pages = .ok (p, mem, head) := h
    simp [allocatePagesOpt, h', zeroed, Freelist.setList, Freelist.countOf]
  | Z =>
    have h' : allocatePagesImpl fl.mem fl.head pages = .ok (p, mem, head) := h
    by_cases hp : p = 0 <;>
      simp [allocatePagesOpt, h', zeroed, Freelist.setList, Freelist.countOf, hp]

theorem extract_of_ok
    (h : extractImpl fl.mem (fl.headOf (side p)) p pages = .ok (mem, head)) :
    extract p pages fl = .ok (fl.setList mem head (fl.countOf (side p)) (side p)) := by
  by_cases hp : p ≤ cutoff
  · have hs : side p = .LOW := if_pos hp
    rw [hs] at h ⊢
    have h' : extractImpl fl.mem fl.lowHead p pages = .ok (mem, head) := h
    simp [extract, hp, h', Freelist.setList, Freelist.countOf]
  · have hs : side p = .Z := if_neg hp
    rw [hs] at h ⊢
    have h' : extractImpl fl.mem fl.head p pages = .ok (mem, head) := h
    simp [extract, hp, h', Freelist.setList, Freelist.countOf]

theorem deallocPage_of_ok (hp0 : p ≠ 0)
    (h : deallocPageImpl fl.mem (fl.headOf (side p)) p = .ok (mem, head)) :
    deallocPage p fl
      = .ok (fl.setList mem head (add64 (fl.countOf (side p)) 1) (side p)) := by
  by_cases hp : p ≤ cutoff
  · have hs : side p = .LOW := if_pos hp
    rw [hs] at h ⊢
    have h' : deallocPageImpl fl.mem fl.lowHead p = .ok (mem, head) := h
    simp [deallocPage, hp0, hp, h', Freelist.setList, Freelist.countOf]
  · have hs : side p = .Z := if_neg hp
    rw [hs] at h ⊢
    have h' : deallocPageImpl fl.mem fl.head p = .ok (mem, head) := h
    simp [deallocPage, hp0, hp, h', Freelist.setList, Freelist.countOf]

end Equations

/-! ## The refinement -/

section Refinement

variable {m : MemoryMap} {memset : Memset} {s : Run} {a : Pool} {o : RamOptions}
  {mem : Memory} {b n p : ℕ} {L : List ℕ}

namespace Represents

theorem perm_of (h : Represents m s a) (o : RamOptions) :
    (a.list o ++ a.list o.other ++ a.held).Perm m.useablePages := by
  cases o with
  | Z => exact h.perm
  | LOW => exact (List.perm_append_comm.append_right a.held).trans h.perm

theorem nodup (h : Represents m s a) (hm : m.Wellformed) (o : RamOptions) :
    (a.list o ++ a.list o.other ++ a.held).Nodup :=
  (h.perm_of o).nodup_iff.mpr ((pairwise_useablePages hm).imp ne_of_lt)

/-- A page is on one list at most. -/
theorem notMem_other (h : Represents m s a) (hm : m.Wellformed) (hp : p ∈ a.list o) :
    p ∉ a.list o.other := fun hp' ↦
  (List.nodup_append.mp (List.nodup_append.mp (h.nodup hm o)).1).2.2 p hp p hp' rfl

/-- A held page is on no list. -/
theorem notMem_list (h : Represents m s a) (hm : m.Wellformed) (hp : p ∈ s.held)
    (o : RamOptions) : p ∉ a.list o := fun hp' ↦
  (List.nodup_append.mp (h.nodup hm o)).2.2 p (List.mem_append_left _ hp') p (h.held ▸ hp) rfl

theorem isPage_of_held (h : Represents m s a) (hm : m.Wellformed) (ht : m.BelowTop)
    (hp : p ∈ s.held) : IsPage p :=
  isPage_of_mem_useablePages hm ht (h.perm.subset (by simp [h.held ▸ hp]))

/-- **Writing one list back.**  The other list must not notice, and pages may only move between
the list and the clients. -/
theorem setList (h : Represents m s a) {head : ℕ} {held : List ℕ} (count : ℕ)
    (hlist : FreeList mem head L)
    (hword : ∀ p ∈ a.list o.other, readWord mem p = readWord s.fl.mem p)
    (hperm : (L ++ held).Perm (a.list o ++ a.held)) :
    Represents m ⟨s.fl.setList mem head count o, held⟩
      ⟨Function.update a.list o L, Function.update a.count o count, held⟩ where
  lists o' := by
    simp only [Freelist.mem_setList, Freelist.headOf_setList]
    rcases RamOptions.eq_or_eq_other o o' with rfl | rfl
    · simpa using hlist
    · rw [Function.update_of_ne o.other_ne, Function.update_of_ne o.other_ne]
      exact (h.lists _).congr hword
  count := by simp [h.count]
  held := rfl
  perm := by
    have hU := h.perm_of o
    have hswap : (L ++ a.list o.other ++ held).Perm m.useablePages := by
      refine List.Perm.trans ?_ hU
      rw [List.append_assoc, List.append_assoc]
      refine (List.perm_append_comm_assoc _ _ _).trans (List.Perm.trans ?_
        (List.perm_append_comm_assoc _ _ _))
      exact hperm.append_left _
    cases o with
    | Z => exact hswap
    | LOW =>
      refine List.Perm.trans ?_ hswap
      exact List.perm_append_comm.append_right held

/-- The same, when the counter stays. -/
theorem setList_countOf (h : Represents m s a) {head : ℕ} {held : List ℕ}
    (hlist : FreeList mem head L)
    (hword : ∀ p ∈ a.list o.other, readWord mem p = readWord s.fl.mem p)
    (hperm : (L ++ held).Perm (a.list o ++ a.held)) :
    Represents m ⟨s.fl.setList mem head (s.fl.countOf o) o, held⟩
      ⟨Function.update a.list o L, a.count, held⟩ := by
  have hcount : Function.update a.count o (s.fl.countOf o) = a.count := by
    rw [h.count, Function.update_eq_self]
  have hrep := h.setList (s.fl.countOf o) hlist hword hperm
  rwa [hcount] at hrep

end Represents

/-! ### Taking pages off -/

/-- Zeroing a block leaves the link words of the pages outside alone. -/
theorem readWord_zeroed (hset : MemsetSpec memset) {q len : ℕ}
    (hq : q + 8 ≤ b ∨ b + len ≤ q) : readWord (zeroed memset o mem b len) q = readWord mem q := by
  rw [zeroed]
  split
  · refine readWord_congr fun x hx hx' ↦ ?_
    rw [hset, if_neg (by omega)]
  · rfl

/-- Pages outside a block are far from its addresses. -/
theorem outside_of_notMem {q : ℕ} (hb : IsPage b) (hq : IsPage q) (hqb : q ∉ pagesFrom b n) :
    q + pageSize ≤ b ∨ b + n * pageSize ≤ q := by
  by_contra hin
  have h1 := hb.aligned
  have h2 := hq.aligned
  refine hqb (mem_pagesFrom_of_mem h1 h2 ?_ (by omega))
  simp only [pageSize] at *
  omega

theorem perm_without (h : FreeList mem p L) (hb : b ∈ L) (hn : Listed L b n) (held : List ℕ) :
    (without L b n ++ hold b n held).Perm (L ++ held) := by
  obtain ⟨l, r, hL, hw, -⟩ := hn.split h.sorted h.page hb
  rw [hold, if_neg (h.page b hb).pos, hw]
  conv_rhs => rw [hL]
  simp only [List.append_assoc]
  refine List.Perm.append_left l ?_
  exact List.perm_append_comm_assoc _ _ _

/-- **Handing out a listed block**, in whatever way the memory of the block itself changes. -/
theorem Represents.cut (h : Represents m s a) (hm : m.Wellformed) {head : ℕ}
    (hb : b ∈ a.list o) (hn : Listed (a.list o) b n)
    (hlist : FreeList mem head (without (a.list o) b n)) (hl : WordsOnly (a.list o) s.fl.mem mem)
    {mem' : Memory} (hmem : ∀ q, IsPage q → q ∉ pagesFrom b n → readWord mem' q = readWord mem q) :
    Represents m ⟨s.fl.setList mem' head (s.fl.countOf o) o, hold b n s.held⟩ (a.cut o b n) := by
  have hother : ∀ q ∈ a.list o.other, q ∉ a.list o := fun q hq hq' ↦ h.notMem_other hm hq' hq
  rw [h.held, Pool.cut]
  refine h.setList_countOf (hlist.congr fun q hq ↦ ?_) (fun q hq ↦ ?_)
    (perm_without (h.lists o) hb hn a.held)
  · refine hmem q (hlist.page q hq) fun hqb ↦ ?_
    have h1 := (mem_without.mp hq).2
    have h2 := lt_of_mem_pagesFrom hqb
    omega
  · have hqp := (h.lists _).page q hq
    rw [hmem q hqp fun hqb ↦ hother q hq (hn q hqb)]
    exact readWord_page hl (h.lists o).page hqp (hother q hq)

/-- The first page of a list is a block of one page. -/
theorem FreeList.without_head {head : ℕ} (h : FreeList mem head (p :: L)) :
    without (p :: L) p 1 = L := by
  have hp := h.page p List.mem_cons_self
  rw [without, List.filter_cons_of_neg (by simp [pageSize]), List.filter_eq_self]
  intro q hq
  have hlt := (List.pairwise_cons.mp h.sorted).1 q hq
  have := hp.disjoint (h.page q (List.mem_cons_of_mem p hq)) (ne_of_lt hlt)
  rw [decide_eq_true_eq]
  omega

/-- **Handing out the first page of a list.** -/
theorem Represents.pop (h : Represents m s a) (hm : m.Wellformed) (hL : a.list o = p :: L)
    (mem : Memory) (hmem : ∀ q, IsPage q → q ≠ p → readWord mem q = readWord s.fl.mem q) :
    Represents m ⟨s.fl.setList mem (L.headD 0) (s.fl.countOf o) o, hold p 1 s.held⟩
      ⟨Function.update a.list o L, a.count, hold p 1 a.held⟩ := by
  have hlist := h.lists o
  rw [hL] at hlist
  have hp := hlist.page p List.mem_cons_self
  obtain ⟨-, htail⟩ := allocatePageImpl_cons hlist
  have hcut := h.cut hm (n := 1) (b := p) (hL ▸ List.mem_cons_self)
    (listed_of_le_one (hL ▸ List.mem_cons_self) (le_refl 1))
    (by rwa [hL, hlist.without_head]) (wordsOnly_writeWord (hL ▸ List.mem_cons_self))
    (fun q hq hqp ↦ (hmem q hq (by simpa [pagesFrom] using hqp)).trans
      (readWord_writeWord_page hp hq (by simpa [pagesFrom] using hqp)).symm)
  rwa [Pool.cut, hL, hlist.without_head] at hcut

/-- The counter of the list that was written back does not matter to the lists. -/
theorem Represents.recount {fl : Freelist} {head c : ℕ} {held : List ℕ}
    (h : Represents m ⟨fl.setList mem head c o, held⟩ a) (count : ℕ) :
    Represents m ⟨fl.setList mem head count o, held⟩ (a.recount o count) where
  lists o' := by simpa [Pool.recount] using h.lists o'
  count := by
    rw [Pool.recount, ← h.count]
    simp
  held := h.held
  perm := h.perm

/-- The call does to the allocator what it does to the pool. -/
def Follows (m : MemoryMap) (memset : Memset) (s : Run) (a : Pool) (k : Call) : Prop :=
  (a.step k = none ∧ s.step memset k = .error .nullDeref) ∨
    ∃ r s' a', a.step k = some (r, a') ∧ s.step memset k = .ok (r, s') ∧ Represents m s' a'

theorem allocatePage_high (h : Represents m s a) (hL : a.list .Z = p :: L) :
    allocatePage s.fl = .ok (p, s.fl.setList (writeWord s.fl.mem p 0) (L.headD 0)
      (sub64 (s.fl.countOf .Z) 1) .Z) := by
  have hlist := h.lists .Z
  rw [hL] at hlist
  obtain ⟨himpl, -⟩ := allocatePageImpl_cons hlist
  have hhead : s.fl.head ≠ 0 := fun h0 ↦ absurd (hlist.head_eq_zero_iff.mp h0) (by simp)
  have himpl' : allocatePageImpl s.fl.mem s.fl.head = _ := himpl
  simp [allocatePage, hhead, himpl', Freelist.setList, Freelist.countOf]

theorem allocatePage_low (h : Represents m s a) (hZ : a.list .Z = []) (hL : a.list .LOW = p :: L) :
    allocatePage s.fl = .ok (p, s.fl.setList (writeWord s.fl.mem p 0) (L.headD 0)
      (sub64 (s.fl.countOf .LOW) 1) .LOW) := by
  have hlist := h.lists .LOW
  rw [hL] at hlist
  obtain ⟨himpl, -⟩ := allocatePageImpl_cons hlist
  have hhead : s.fl.head = 0 := (h.lists .Z).head_eq_zero_iff.mpr hZ
  have hlow : s.fl.lowHead ≠ 0 := fun h0 ↦ absurd (hlist.head_eq_zero_iff.mp h0) (by simp)
  have himpl' : allocatePageImpl s.fl.mem s.fl.lowHead = _ := himpl
  simp [allocatePage, hhead, hlow, himpl', Freelist.setList, Freelist.countOf]

theorem allocatePage_nil (h : Represents m s a) (hZ : a.list .Z = []) (hL : a.list .LOW = []) :
    allocatePage s.fl = .ok (0, s.fl) := by
  have hhead : s.fl.head = 0 := (h.lists .Z).head_eq_zero_iff.mpr hZ
  have hlow : s.fl.lowHead = 0 := (h.lists .LOW).head_eq_zero_iff.mpr hL
  simp [allocatePage, hhead, hlow]

/-- A page that is taken off has its own link cleared, and no other. -/
theorem Represents.readWord_popped (h : Represents m s a) (hL : a.list o = p :: L) {q : ℕ}
    (hq : IsPage q) (hqp : q ≠ p) :
    readWord (writeWord s.fl.mem p 0) q = readWord s.fl.mem q :=
  readWord_writeWord_page ((h.lists o).page p (by rw [hL]; exact List.mem_cons_self)) hq hqp

theorem follows_allocatePage (h : Represents m s a) (hm : m.Wellformed) :
    Follows m memset s a .allocatePage := by
  cases hZ : a.list .Z with
  | cons p L =>
    have hpop := h.pop hm hZ _ fun q hq hqp ↦ h.readWord_popped hZ hq hqp
    refine .inr ⟨p, _, _, ?_, ?_, hpop.recount (sub64 (a.count .Z) 1)⟩
    · simp only [Pool.step, Pool.pop, hZ]
    · simp [Run.step, allocatePage_high h hZ, h.count]
  | nil =>
    cases hL : a.list .LOW with
    | cons p L =>
      have hpop := h.pop hm hL _ fun q hq hqp ↦ h.readWord_popped hL hq hqp
      refine .inr ⟨p, _, _, ?_, ?_, hpop.recount (sub64 (a.count .LOW) 1)⟩
      · simp only [Pool.step, Pool.pop, hZ, hL]
      · simp [Run.step, allocatePage_low h hZ hL, h.count]
    | nil =>
      refine .inr ⟨0, s, a, ?_, ?_, h⟩
      · simp only [Pool.step, Pool.pop, hZ, hL]
      · simp [Run.step, allocatePage_nil h hZ hL, hold]

/-- **`AllocatePage()` always returns**, with a page that nobody held or with null. -/
theorem Represents.allocatePage (h : Represents m s a) (hm : m.Wellformed) (ht : m.BelowTop) :
    ∃ p fl a', PageAllocators.allocatePage s.fl = .ok (p, fl) ∧
      Represents m ⟨fl, hold p 1 s.held⟩ a' ∧ (p = 0 ∨ IsPage p) := by
  have hf : Follows m (fun mem _ _ _ ↦ mem) s a .allocatePage := follows_allocatePage h hm
  rcases hf with ⟨hnone, -⟩ | ⟨p, s', a', -, hs, hr⟩
  · exact absurd hnone a.step_allocatePage_ne_none
  · obtain ⟨⟨q, fl⟩, hq, heq⟩ := Exec.bind_eq_ok.mp hs
    cases heq
    refine ⟨p, fl, a', hq, hr, ?_⟩
    by_cases hp : p = 0
    · exact .inl hp
    · exact .inr (hr.isPage_of_held hm ht (by simp [hold, hp, pagesFrom]))

theorem follows_allocatePageOpt (hset : MemsetSpec memset) (h : Represents m s a)
    (hm : m.Wellformed) : Follows m memset s a (.allocatePageOpt o) := by
  have hlist := h.lists o
  cases hL : a.list o with
  | nil =>
    rw [hL] at hlist
    refine .inl ⟨?_, ?_⟩
    · simp only [Pool.step, Pool.pop, hL]
    · simp [Run.step, allocatePageOpt_of_error (allocatePageImpl_nil hlist)]
  | cons p L =>
    rw [hL] at hlist
    obtain ⟨himpl, -⟩ := allocatePageImpl_cons hlist
    have hp := hlist.page p List.mem_cons_self
    have hpop := h.pop hm hL (zeroed memset o (writeWord s.fl.mem p 0) p pageSize)
      fun q hq hqp ↦ by
        have hd := hp.disjoint hq hqp.symm
        rw [readWord_zeroed hset (by simp only [pageSize] at *; omega)]
        exact h.readWord_popped hL hq hqp
    refine .inr ⟨p, _, _, ?_, ?_, hpop⟩
    · simp only [Pool.step, Pool.pop, hL]
    · simp only [Run.step, allocatePageOpt_of_ok himpl, Exec.ok_bind, Exec.pure_eq]

/-- What `AllocatePagesImpl` does to the pool, with the block zeroed afterwards or not. -/
theorem Represents.popBlock (h : Represents m s a) (hm : m.Wellformed) (o : RamOptions)
    (n : ℕ) : ∃ mem head, allocatePagesImpl s.fl.mem (s.fl.headOf o) n
        = .ok ((a.popBlock o n).1, mem, head) ∧
      ∀ mem', (∀ q, IsPage q → q ∉ pagesFrom (a.popBlock o n).1 n →
        readWord mem' q = readWord mem q) → ((a.popBlock o n).1 = 0 → mem' = mem) →
        Represents m ⟨s.fl.setList mem' head (s.fl.countOf o) o,
          hold (a.popBlock o n).1 n s.held⟩ (a.popBlock o n).2 := by
  obtain ⟨mem, head, himpl, hlist, hl⟩ := allocatePagesImpl_spec (n := n) (h.lists o)
  refine ⟨mem, head, ?_, fun mem' hmem h0 ↦ ?_⟩
  · rw [himpl, Pool.popBlock]
    cases blockOf (a.list o) n <;> rfl
  · rw [Pool.popBlock] at hmem h0 ⊢
    rw [remaining] at hlist
    cases hb : blockOf (a.list o) n with
    | none =>
      rw [hb] at hlist hmem h0
      have hother : ∀ q ∈ a.list o.other, q ∉ a.list o := fun q hq hq' ↦
        h.notMem_other hm hq' hq
      have hrep := h.setList_countOf hlist
        (fun q hq ↦ readWord_page hl (h.lists o).page ((h.lists _).page q hq) (hother q hq))
        (List.Perm.refl (a.list o ++ a.held))
      rw [h0 rfl]
      simpa [hold, h.held] using hrep
    | some b =>
      rw [hb] at hlist hmem
      obtain ⟨-, hbL, hbn⟩ := blockOf_eq_some hb
      exact h.cut hm hbL hbn hlist hl hmem

theorem follows_allocatePages (h : Represents m s a) (hm : m.Wellformed) :
    Follows m memset s a (.allocatePages n) := by
  obtain ⟨mem, head, himpl, hrep⟩ := h.popBlock hm .Z n
  refine .inr ⟨(a.popBlock .Z n).1, _, _, rfl, ?_, hrep mem (fun _ _ _ ↦ rfl) fun _ ↦ rfl⟩
  simp only [Run.step, allocatePages_of_ok himpl, Exec.ok_bind, Exec.pure_eq]

theorem follows_allocatePagesOpt (hset : MemsetSpec memset) (h : Represents m s a)
    (hm : m.Wellformed) : Follows m memset s a (.allocatePagesOpt n o) := by
  obtain ⟨mem, head, himpl, hrep⟩ := h.popBlock hm o n
  set b := (a.popBlock o n).1 with hb
  have hlen : n * pageSize % 2 ^ 32 ≤ n * pageSize := Nat.mod_le _ _
  refine .inr ⟨b, _, _, rfl, ?_, hrep (zeroed memset o mem b (n * pageSize % 2 ^ 32))
    (fun q hq hqb ↦ ?_) fun h0 ↦ ?_⟩
  · simp only [Run.step, allocatePagesOpt_of_ok himpl, Exec.ok_bind, Exec.pure_eq]
  · by_cases hb0 : b = 0
    · simp [zeroed, hb0]
    · have hbp : IsPage b := by
        rw [Pool.popBlock] at hb
        cases hblk : blockOf (a.list o) n with
        | none => rw [hblk] at hb; exact absurd hb hb0
        | some c =>
          rw [hblk] at hb
          exact hb ▸ (h.lists o).page c (blockOf_eq_some hblk).2.1
      have hout := outside_of_notMem hbp hq hqb
      exact readWord_zeroed hset (by simp only [pageSize] at *; omega)
  · simp [zeroed, h0]

theorem follows_extract (h : Represents m s a) (hm : m.Wellformed)
    (hk : s.Enabled (.extract p n)) : Follows m memset s a (.extract p n) := by
  obtain ⟨L, hL, hp, hpn⟩ := hk
  have hlist := h.lists (side p)
  rw [hL.unique hlist] at hp hpn
  obtain ⟨mem, head, himpl, hl, hframe⟩ := extractImpl_listed hlist hp hpn
  refine .inr ⟨0, _, _, rfl, ?_, h.cut hm hp hpn hl hframe fun _ _ _ ↦ rfl⟩
  simp only [Run.step, extract_of_ok himpl, Exec.ok_bind, Exec.pure_eq]

/-- The call is a `DeallocPage` that leaves a list without an end. -/
def Run.LeavesOpen (s : Run) : Call → Prop
  | .deallocPage base => ∃ L, FreeList s.fl.mem (s.fl.headOf (side base)) L ∧
      PageAllocators.LeavesOpen s.fl.mem L base
  | _ => False

/-- What a `DeallocPage` of a held page does to the list. -/
theorem Represents.deallocPage (h : Represents m s a) (hm : m.Wellformed) (ht : m.BelowTop)
    (hp : p ∈ s.held) (ho : ¬s.LeavesOpen (.deallocPage p)) :
    ∃ mem head, deallocPage p s.fl = .ok (s.fl.setList mem head
        (add64 (s.fl.countOf (side p)) 1) (side p)) ∧
      FreeList mem head ((a.list (side p)).orderedInsert (· ≤ ·) p) ∧
      WordsOnly (p :: a.list (side p)) s.fl.mem mem := by
  have hpp := h.isPage_of_held hm ht hp
  obtain ⟨mem, head, himpl, hl, hframe⟩ := deallocPageImpl_spec (h.lists (side p)) hpp
    (h.notMem_list hm hp (side p)) fun hopen ↦ ho ⟨_, h.lists (side p), hopen⟩
  exact ⟨mem, head, deallocPage_of_ok hpp.pos himpl, hl, hframe⟩

theorem follows_deallocPage (h : Represents m s a) (hm : m.Wellformed) (ht : m.BelowTop)
    (hk : s.Enabled (.deallocPage p)) (ho : ¬s.LeavesOpen (.deallocPage p)) :
    Follows m memset s a (.deallocPage p) := by
  by_cases hp0 : p = 0
  · have hnull : 0 ∉ s.held := fun h0 ↦ (h.isPage_of_held hm ht h0).pos rfl
    refine .inr ⟨0, s, a, if_pos hp0, ?_, h⟩
    simp [Run.step, PageAllocators.deallocPage, hp0, List.erase_of_not_mem hnull]
  · have hp : p ∈ s.held := hk.resolve_left hp0
    obtain ⟨mem, head, hd, hl, hframe⟩ := h.deallocPage hm ht hp ho
    have hpage : ∀ q ∈ p :: a.list (side p), IsPage q := by
      intro q hq
      rcases List.mem_cons.mp hq with rfl | hq
      · exact h.isPage_of_held hm ht hp
      · exact (h.lists _).page q hq
    have hother : ∀ q ∈ a.list (side p).other, q ∉ p :: a.list (side p) := by
      intro q hq hq'
      rcases List.mem_cons.mp hq' with rfl | hq'
      · exact h.notMem_list hm hp _ hq
      · exact h.notMem_other hm hq' hq
    refine .inr ⟨0, ⟨s.fl.setList mem head (add64 (s.fl.countOf (side p)) 1) (side p),
      s.held.erase p⟩, _, if_neg hp0, ?_, ?_⟩
    · simp [Run.step, hd]
    · rw [h.held, Pool.insert, Pool.recount, h.count]
      refine h.setList _ hl (fun q hq ↦ readWord_page hframe hpage ((h.lists _).page q hq)
        (hother q hq)) ?_
      have hperm := List.perm_cons_erase (h.held ▸ hp)
      refine ((List.perm_orderedInsert _ _ _).append_right _).trans ?_
      exact List.perm_middle.symm.trans (hperm.symm.append_left _)

theorem follows_clientWrite (h : Represents m s a) (hm : m.Wellformed) (ht : m.BelowTop)
    {f : ℕ → UInt8} (hk : s.Enabled (.clientWrite p f)) :
    Follows m memset s a (.clientWrite p f) := by
  have hp : p ∈ s.held := hk
  have hpp := h.isPage_of_held hm ht hp
  refine .inr ⟨0, _, a, rfl, rfl, ⟨fun o ↦ ?_, h.count, h.held, h.perm⟩⟩
  refine (h.lists o).congr fun q hq ↦ readWord_overlay_of_disjoint ?_
  have hd := hpp.disjoint ((h.lists o).page q hq) fun he ↦ h.notMem_list hm hp o (he ▸ hq)
  simp only [pageSize] at *
  omega

/-- **The allocator refines the pool**: every call that keeps to the contract, and does not leave a
list open, does to the allocator what it does to the pool. -/
theorem Represents.step (hset : MemsetSpec memset) (hm : m.Wellformed) (ht : m.BelowTop)
    (h : Represents m s a) {k : Call} (hk : s.Enabled k) (ho : ¬s.LeavesOpen k) :
    Follows m memset s a k := by
  cases k with
  | allocatePage => exact follows_allocatePage h hm
  | allocatePageOpt o => exact follows_allocatePageOpt hset h hm
  | allocatePages n => exact follows_allocatePages h hm
  | allocatePagesOpt n o => exact follows_allocatePagesOpt hset h hm
  | extract p n => exact follows_extract h hm hk
  | deallocPage p => exact follows_deallocPage h hm ht hk ho
  | clientWrite p f => exact follows_clientWrite h hm ht hk

/-- The pool that `Init` sets up. -/
def Pool.ofMap (m : MemoryMap) : Pool where
  list := fun o ↦ if o = .Z then highPages m else lowPages m
  count := fun o ↦ if o = .Z then (highPages m).length else (lowPages m).length
  held := []

/-- **`Init` returns, and what it sets up is the pool of the memory map.** -/
theorem init_represents (hm : m.Wellformed) (ht : m.BelowTop) (fl : Freelist) :
    ∃ fl', init m fl = .ok fl' ∧ Represents m ⟨fl', []⟩ (Pool.ofMap m) := by
  obtain ⟨fl', he, hhigh, hlow, hctop, hclow⟩ := init_spec hm ht fl
  refine ⟨fl', he, ⟨fun o ↦ ?_, funext fun o ↦ ?_, rfl, ?_⟩⟩
  · cases o
    · exact hhigh
    · exact hlow
  · cases o
    · exact hctop
    · exact hclow
  · rw [Pool.ofMap, List.append_nil]
    exact highPages_append_lowPages_perm

/-- Every state in which a run may start represents the pool of the memory map. -/
theorem represents_of_init (memset : Memset) (hm : m.Wellformed) (ht : m.BelowTop)
    (hs : (machine m memset).init s) : Represents m s (Pool.ofMap m) := by
  obtain ⟨hheld, fl, he⟩ := hs
  obtain ⟨fl', he', hrep⟩ := init_represents hm ht fl
  rw [he] at he'
  cases he'
  cases s
  cases hheld
  exact hrep

end Refinement

end Chisaka.PageAllocators
