import Mathlib.Data.Finset.Card
import Mathlib.Data.Finset.Range
import Chisaka.Ram.Freelist

/-!
# What the page allocator does to a list

`FreeList mem head L` is the representation predicate: in memory `mem` the list with head `head`
is null-terminated, strictly ascending, and consists of the pages `L`.  For each of the helpers of
the class there is one theorem that says what it does to `L`; nothing above this module looks at
the link words again.

* `allocatePageImpl_cons`, `allocatePageImpl_nil`: the first page is taken off, and an empty list
  is a null dereference.
* `deallocPageImpl_spec`: the page is put in its place, **except** when the list is a single page
  below it: then the page is hung on at the end with the link it happens to hold
  (`LeavesOpen`).
* `extractImpl_spec`: the block is cut out.
* `allocatePagesImpl_spec`: the lowest block of contiguous pages is found and cut out, or there is
  none.

The frame is `WordsOnly S mem mem'`: nothing but the link words of the pages in `S` has changed.
-/

set_option autoImplicit false

namespace Chisaka.PageAllocators

open Bytes Chain

variable {mem mem' mem'' : Memory} {head p a n : ℕ} {L S T : List ℕ}

/-! ## Link words -/

/-- A page keeps its link when the words of other pages are written. -/
theorem readWord_page {q : ℕ} (h : WordsOnly S mem mem') (hS : ∀ p ∈ S, IsPage p)
    (hq : IsPage q) (hqS : q ∉ S) : readWord mem' q = readWord mem q := by
  refine h.readWord fun p hp ↦ ?_
  have hne : p ≠ q := fun he ↦ hqS (he ▸ hp)
  have := (hS p hp).disjoint hq hne
  simp only [pageSize] at this
  omega

theorem readWord_writeWord_page {q v : ℕ} (hp : IsPage p) (hq : IsPage q) (hne : q ≠ p) :
    readWord (writeWord mem p v) q = readWord mem q :=
  readWord_page (S := [p]) (wordsOnly_writeWord (List.mem_singleton.mpr rfl))
    (by simpa using hp) hq (by simpa using hne)

/-! ## Free lists -/

/-- There are fewer pages than addresses. -/
theorem length_lt_rounds (hsorted : L.Pairwise (· < ·)) (hpage : ∀ p ∈ L, IsPage p) :
    L.length < Loop.rounds := by
  have hnull : 0 ∉ L := fun h0 ↦ (hpage 0 h0).pos rfl
  have hnd : (0 :: L).Nodup := List.nodup_cons.mpr ⟨hnull, hsorted.imp ne_of_lt⟩
  have hsub : (0 :: L).toFinset ⊆ Finset.range Loop.rounds := by
    intro x hx
    rcases List.mem_cons.mp (List.mem_toFinset.mp hx) with rfl | hx
    · exact Finset.mem_range.mpr (by decide)
    · exact Finset.mem_range.mpr (hpage x hx).lt
  have hcard := Finset.card_le_card hsub
  rw [Finset.card_range, List.toFinset_card_of_nodup hnd, List.length_cons] at hcard
  omega

/-- The list with head `head` is null-terminated and strictly ascending, and its entries are the
pages `L`. -/
structure FreeList (mem : Memory) (head : ℕ) (L : List ℕ) : Prop where
  /-- Following the links from the head visits `L` and ends in null. -/
  seg : Seg (readWord mem) head L 0
  /-- The addresses ascend. -/
  sorted : L.Pairwise (· < ·)
  /-- Every entry is a page. -/
  page : ∀ p ∈ L, IsPage p

namespace FreeList

theorem null_notMem (h : FreeList mem head L) : 0 ∉ L := fun h0 ↦ (h.page 0 h0).pos rfl

/-- **A head represents one list only.** -/
theorem unique {L' : List ℕ} (h : FreeList mem head L) (h' : FreeList mem head L') : L = L' :=
  h.seg.unique h'.seg h.null_notMem h'.null_notMem

theorem head_eq (h : FreeList mem head L) : head = L.headD 0 := h.seg.head_eq

theorem head_eq_zero_iff (h : FreeList mem head L) : head = 0 ↔ L = [] := by
  constructor
  · intro h0
    by_contra hne
    exact h.seg.ne_end hne h.null_notMem h0
  · rintro rfl
    exact h.seg

theorem head_lt (h : FreeList mem head L) : head < 2 ^ 64 := by
  rw [h.head_eq]
  cases L with
  | nil => simp
  | cons q L => exact (h.page q List.mem_cons_self).lt

/-- Only the link words of its pages matter to a list. -/
theorem congr (h : FreeList mem head L) (hw : ∀ p ∈ L, readWord mem' p = readWord mem p) :
    FreeList mem' head L :=
  ⟨h.seg.congr hw, h.sorted, h.page⟩

/-- A list survives whatever happens to other pages. -/
theorem frame (h : FreeList mem head L) (hl : WordsOnly S mem mem') (hS : ∀ p ∈ S, IsPage p)
    (hd : ∀ p ∈ L, p ∉ S) : FreeList mem' head L :=
  h.congr fun p hp ↦ readWord_page hl hS (h.page p hp) (hd p hp)

/-- The entries up to `q` begin with the head. -/
theorem uncons {q : ℕ} {l m : List ℕ} (h : FreeList mem head (l ++ q :: m)) :
    ∃ lr, l ++ [q] = head :: lr ∧ l ++ q :: m = head :: (lr ++ m) ∧
      Seg (readWord mem) (readWord mem head) (lr ++ m) 0 := by
  obtain ⟨lr, hlr⟩ : ∃ lr, l ++ [q] = head :: lr := by
    have hhead := h.head_eq
    cases l with
    | nil => exact ⟨[], by rw [hhead]; rfl⟩
    | cons c l => exact ⟨l ++ [q], by rw [hhead]; rfl⟩
  have hL : l ++ q :: m = head :: (lr ++ m) := by rw [List.append_cons, hlr, List.cons_append]
  have hseg := h.seg
  rw [hL] at hseg
  exact ⟨lr, hlr, hL, hseg.2⟩

theorem length_lt (h : FreeList mem head L) : L.length < Loop.rounds :=
  length_lt_rounds h.sorted h.page

theorem load_eq (h : FreeList mem head L) : ∀ x ∈ L, load mem x = .ok (readWord mem x) :=
  fun x hx ↦ load_of_ne (h.page x hx).pos

end FreeList

/-! ## `AllocatePageImpl` -/

/-- **The first page is taken off the list**, and its link word is cleared. -/
theorem allocatePageImpl_cons (h : FreeList mem head (p :: L)) :
    allocatePageImpl mem head = .ok (p, writeWord mem p 0, L.headD 0) ∧
      FreeList (writeWord mem p 0) (L.headD 0) L := by
  obtain ⟨rfl, hseg⟩ : head = p ∧ Seg (readWord mem) (readWord mem p) L 0 := h.seg
  obtain ⟨hlt, hsorted⟩ := List.pairwise_cons.mp h.sorted
  have hp := h.page head List.mem_cons_self
  have hL := fun q hq ↦ h.page q (List.mem_cons_of_mem head hq)
  have hnext := hseg.head_eq
  constructor
  · simp [allocatePageImpl, hp.pos, hnext]
  · rw [← hnext]
    refine ⟨hseg.congr fun q hq ↦ ?_, hsorted, hL⟩
    exact readWord_writeWord_page hp (hL q hq) (ne_of_gt (hlt q hq))

/-- **Taking a page off an empty list writes through a null pointer.** -/
theorem allocatePageImpl_nil (h : FreeList mem head []) :
    allocatePageImpl mem head = .error .nullDeref := by
  obtain rfl : head = 0 := h.seg
  rfl

/-! ## `DeallocPageImpl` -/

/-- The branch that hangs a page on at the end without terminating the list: the list is a single
page below `p`, and the word `p` holds is not null. -/
def LeavesOpen (mem : Memory) (L : List ℕ) (p : ℕ) : Prop :=
  ∃ q, L = [q] ∧ q < p ∧ readWord mem p ≠ 0

/-- Two link writes put `p` behind `q`. -/
theorem FreeList.insert_after {q : ℕ} {l m : List ℕ} (h : FreeList mem head (l ++ q :: m))
    (hp : IsPage p) (hsorted : (l ++ q :: p :: m).Pairwise (· < ·))
    (hl : WordsOnly [p, q] mem mem') (hq : readWord mem' q = p)
    (hp' : readWord mem' p = m.headD 0) : FreeList mem' head (l ++ q :: p :: m) := by
  have hpage : ∀ r ∈ l ++ q :: p :: m, IsPage r := by
    intro r hr
    by_cases he : r = p
    · exact he ▸ hp
    · exact h.page r (by simp_all)
  have hpq : ∀ r ∈ [p, q], IsPage r := by
    intro r hr
    refine hpage r ?_
    rcases List.mem_pair.mp hr with rfl | rfl <;> simp
  obtain ⟨-, hm, hlm⟩ := List.pairwise_append.mp hsorted
  obtain ⟨hqm, hpm, -⟩ := List.pairwise_cons.mp hm |>.imp_right List.pairwise_cons.mp
  refine ⟨h.seg.insert_after hq hp' (fun r hr ↦ ?_) (fun r hr ↦ ?_), hsorted, hpage⟩
  · have h1 := hlm r hr q (by simp)
    have h2 := hlm r hr p (by simp)
    exact readWord_page hl hpq (hpage r (by simp [hr])) (by simp; omega)
  · have h1 := hqm r (by simp [hr])
    have h2 := hpm r hr
    exact readWord_page hl hpq (hpage r (by simp [hr])) (by simp; omega)

/-- A page below all others goes in front. -/
theorem deallocPageImpl_front (h : FreeList mem head L) (hp : IsPage p) (hlt : ∀ q ∈ L, p < q) :
    ∃ mem', deallocPageImpl mem head p = .ok (mem', p) ∧ FreeList mem' p (p :: L) ∧
      WordsOnly [p] mem mem' ∧ readWord mem' p = L.headD 0 := by
  have hseg : Seg (readWord (writeWord mem p head)) p (p :: L) 0 := by
    refine ⟨rfl, ?_⟩
    rw [readWord_writeWord h.head_lt]
    exact h.seg.congr fun q hq ↦ readWord_writeWord_page hp (h.page q hq) (ne_of_gt (hlt q hq))
  refine ⟨writeWord mem p head, ?_, ⟨hseg, List.pairwise_cons.mpr ⟨hlt, h.sorted⟩, fun q hq ↦ ?_⟩,
    wordsOnly_writeWord List.mem_cons_self, ?_⟩
  · have hhead := h.head_eq
    cases L with
    | nil => simp [deallocPageImpl, show head = 0 from hhead, hp.pos]
    | cons q L =>
      obtain rfl : head = q := hhead
      have hq := (h.page head List.mem_cons_self).pos
      simp [deallocPageImpl, hq, hlt head List.mem_cons_self, hp.pos]
  · rcases List.mem_cons.mp hq with rfl | hq
    · exact hp
    · exact h.page q hq
  · rw [readWord_writeWord h.head_lt, h.head_eq]

/-- **The search for the place of a page** on a list of more than one page that does not begin
above it. -/
theorem FreeList.seek {q : ℕ} {l m : List ℕ} (h : FreeList mem head (l ++ q :: m))
    (hl : ∀ r ∈ l, r < p) (hqp : q < p) (hm : ∀ r ∈ m, p ≤ r) (hlm : l ++ m ≠ []) :
    head < p ∧ readWord mem head ≠ 0 ∧
      seek (load mem) 0 p (head, readWord mem head) = .ok (q, m.headD 0) := by
  obtain ⟨lr, hlr, hL, hseg⟩ := h.uncons
  have hltp : ∀ r ∈ head :: lr, r < p := by
    rw [← hlr]
    intro r hr
    rcases List.mem_append.mp hr with hr | hr
    · exact hl r hr
    · exact List.mem_singleton.mp hr ▸ hqp
  rw [hL] at h
  have hnotin : 0 ∉ lr ++ m := fun h0 ↦ h.null_notMem (List.mem_cons_of_mem head h0)
  have hne : lr ++ m ≠ [] := fun h0 ↦ hlm <| by
    have hlen := congrArg List.length hlr
    obtain ⟨rfl, rfl⟩ := List.append_eq_nil_iff.mp h0
    simpa using hlen
  have hnext : readWord mem head ≠ 0 := hseg.ne_end hne hnotin
  refine ⟨hltp head List.mem_cons_self, hnext, ?_⟩
  have hlen : lr.length < Loop.rounds := by
    have hlt := h.length_lt
    rw [List.length_cons, List.length_append] at hlt
    omega
  obtain ⟨d, hsegl, hsegm⟩ := seg_append.mp hseg
  obtain rfl : d = m.headD 0 := hsegm.head_eq
  have hplace : m.headD 0 ≠ 0 → p ≤ m.headD 0 := by
    cases m with
    | nil => exact fun h0 ↦ absurd rfl h0
    | cons r m => exact fun _ ↦ hm r List.mem_cons_self
  have hfirst : lr = [] → m.headD 0 ≠ 0 := by
    rintro rfl
    have hd : readWord mem head = m.headD 0 := hsegl
    exact hd ▸ hnext
  have hseek := exec_seek head
    (fun r hr ↦ h.load_eq r (List.mem_cons_of_mem head (List.mem_append_left m hr)))
    (fun r hr ↦ hltp r (List.mem_cons_of_mem head hr))
    (fun h0 ↦ hnotin (List.mem_append_left m h0)) hplace hfirst hsegl hlen
  rw [hseek]
  simp [← hlr]

/-- **The returned page is inserted in its place**, by writing its link and that of the entry in
front of it. -/
theorem deallocPageImpl_links (h : FreeList mem head L) (hp : IsPage p) (hpL : p ∉ L)
    (hopen : ¬LeavesOpen mem L p) :
    ∃ mem' head', deallocPageImpl mem head p = .ok (mem', head') ∧
      FreeList mem' head' (L.orderedInsert (· ≤ ·) p) ∧
      WordsOnly (p :: (lastBelow L p).toList) mem mem' ∧
      readWord mem' p = (firstAbove L p).getD 0 ∧
      ∀ q ∈ lastBelow L p, readWord mem' q = p := by
  have hsorted := pairwise_orderedInsert h.sorted hpL
  obtain ⟨l, m, rfl, hl, hm⟩ := exists_split h.sorted p
  have hm' : ∀ r ∈ m, p < r := fun r hr ↦
    lt_of_le_of_ne (hm r hr) fun he ↦ hpL (List.mem_append_right l (he ▸ hr))
  rw [lastBelow_append hl hm, firstAbove_append (fun r hr ↦ (hl r hr).le) hm']
  rw [orderedInsert_split hl hm] at hsorted ⊢
  rcases List.eq_nil_or_concat l with rfl | ⟨l, q, rfl⟩
  · -- the page goes in front
    obtain ⟨mem', he, hf, hw, hlink⟩ :=
      deallocPageImpl_front h hp (List.pairwise_cons.mp hsorted).1
    exact ⟨mem', p, he, hf, hw, by rw [hlink]; cases m <;> rfl, by simp⟩
  · -- the page goes behind `q`
    simp only [List.concat_eq_append, List.append_assoc, List.cons_append, List.nil_append] at *
    have hq : IsPage q := h.page q (by simp)
    have hqp : q < p := hl q (by simp)
    have hhead : head ≠ 0 := h.seg.ne_end (by simp) h.null_notMem
    have hpq : ∀ {mem' : Memory} {v : ℕ}, readWord (writeWord mem' q v) p = readWord mem' p :=
      readWord_writeWord_page hq hp (ne_of_gt hqp)
    have hqq : ∀ {mem' : Memory}, readWord (writeWord mem' q p) q = p :=
      readWord_writeWord hp.lt
    simp only [List.getLast?_append, List.getLast?_singleton, Option.some_or,
      Option.toList_some, Option.mem_some_iff, forall_eq']
    by_cases hone : l ++ m = []
    · -- a single page below `p`
      obtain ⟨rfl, rfl⟩ := List.append_eq_nil_iff.mp hone
      obtain ⟨rfl, hnext⟩ : head = q ∧ readWord mem q = 0 := h.seg
      have hword : readWord mem p = 0 := by
        by_contra hne
        exact hopen ⟨head, rfl, hqp, hne⟩
      refine ⟨writeWord mem head p, head, ?_, ?_, wordsOnly_writeWord (by simp), ?_, hqq⟩
      · simp [deallocPageImpl, hhead, not_lt.mpr hqp.le, hnext]
      · exact h.insert_after (l := []) hp hsorted (wordsOnly_writeWord (by simp)) hqq
          (by rw [hpq, hword]; rfl)
      · rw [hpq, hword]
        rfl
    · -- the search finds `q` and the page behind it
      obtain ⟨hgt, hnext, hseek⟩ := h.seek (fun r hr ↦ hl r (by simp [hr])) hqp hm hone
      have hmhead : m.headD 0 < 2 ^ 64 := by
        rw [← h.seg.next_eq]
        exact readWord_lt mem q
      have hlink : readWord (writeWord (writeWord mem q p) p (m.headD 0)) q = p := by
        rw [readWord_writeWord_page hp hq (ne_of_lt hqp), hqq]
      have hw : WordsOnly [p, q] mem (writeWord (writeWord mem q p) p (m.headD 0)) :=
        (wordsOnly_writeWord (by simp)).trans (wordsOnly_writeWord (by simp))
      refine ⟨writeWord (writeWord mem q p) p (m.headD 0), head, ?_, ?_, hw, ?_, hlink⟩
      · simp [deallocPageImpl, hhead, not_lt.mpr hgt.le, hnext, hgt, hseek, hq.pos, hp.pos]
      · exact h.insert_after hp hsorted hw hlink (readWord_writeWord hmhead)
      · rw [readWord_writeWord hmhead]
        cases m <;> rfl

/-- What that does to the list. -/
theorem deallocPageImpl_spec (h : FreeList mem head L) (hp : IsPage p) (hpL : p ∉ L)
    (hopen : ¬LeavesOpen mem L p) :
    ∃ mem' head', deallocPageImpl mem head p = .ok (mem', head') ∧
      FreeList mem' head' (L.orderedInsert (· ≤ ·) p) ∧ WordsOnly (p :: L) mem mem' := by
  obtain ⟨mem', head', he, hf, hw, -⟩ := deallocPageImpl_links h hp hpL hopen
  refine ⟨mem', head', he, hf, hw.mono fun q hq ↦ ?_⟩
  rcases List.mem_cons.mp hq with rfl | hq
  · exact List.mem_cons_self
  · exact List.mem_cons_of_mem p (mem_of_lastBelow (Option.mem_toList.mp hq)).1

/-! ## `ExtractImpl` -/

/-- Following `NextFree` steps over as many entries. -/
theorem nextFrees_seg {b : ℕ} {l m : List ℕ} (h : Seg (readWord mem) a (l ++ m) b)
    (hl : ∀ q ∈ l, q ≠ 0) : nextFrees mem l.length a = .ok (m.headD b) := by
  induction l generalizing a with
  | nil => rw [List.length_nil, nextFrees, h.head_eq, List.nil_append]
  | cons q l ih =>
    obtain ⟨rfl, h⟩ : a = q ∧ Seg (readWord mem) (readWord mem q) (l ++ m) b := h
    rw [List.length_cons, nextFrees, load_of_ne (hl a List.mem_cons_self), Exec.ok_bind]
    exact ih h fun r hr ↦ hl r (List.mem_cons_of_mem a hr)

/-- The walk of `ExtractImpl` stops at the first entry that is not below `a`. -/
theorem run_extractBody {b : ℕ} {l m : List ℕ} (hl : ∀ q ∈ l, q ≠ 0 ∧ q < a)
    (hm : ∀ q ∈ m, a ≤ q) (hne : m ≠ []) :
    ∀ {n cur : ℕ} (prev : ℕ), Seg (readWord mem) cur (l ++ m) b → l.length < n →
      Loop.run (extractBody mem a) n (prev, cur)
        = .ok ((prev :: l).getLast (List.cons_ne_nil _ _), m.headD b) := by
  induction l with
  | nil =>
    intro n cur prev hseg hn
    obtain ⟨n, rfl⟩ := Nat.exists_eq_succ_of_ne_zero (Nat.ne_of_gt hn)
    have hcur : cur = m.headD b := hseg.head_eq
    have hge : a ≤ cur := by
      cases m with
      | nil => exact absurd rfl hne
      | cons q m => exact hcur ▸ hm q List.mem_cons_self
    have hbody : extractBody mem a (prev, cur) = .ok (.inr (prev, cur)) := by
      simp [extractBody, not_lt.mpr hge]
    rw [Loop.run_inr hbody, hcur]
    rfl
  | cons q l ih =>
    intro n cur prev hseg hn
    obtain ⟨n, rfl⟩ := Nat.exists_eq_succ_of_ne_zero (Nat.ne_of_gt (Nat.zero_lt_of_lt hn))
    obtain ⟨rfl, hseg⟩ : cur = q ∧ Seg (readWord mem) (readWord mem q) (l ++ m) b := hseg
    obtain ⟨hpos, hlt⟩ := hl cur List.mem_cons_self
    have hbody : extractBody mem a (prev, cur) = .ok (.inl (cur, readWord mem cur)) := by
      simp [extractBody, hlt, hpos]
    rw [Loop.run_inl hbody]
    exact ih (fun r hr ↦ hl r (List.mem_cons_of_mem cur hr)) cur hseg (Nat.lt_of_succ_lt_succ hn)

/-- The head that `ExtractImpl` leaves, and the link it writes, if any. -/
theorem FreeList.cut {q : ℕ} {l blk m : List ℕ} (h : FreeList mem head (l ++ q :: (blk ++ m)))
    (hl : WordsOnly [q] mem mem') (hq : readWord mem' q = m.headD 0) :
    FreeList mem' head (l ++ q :: m) := by
  have hsub : (l ++ q :: m).Sublist (l ++ q :: (blk ++ m)) :=
    (List.Sublist.refl l).append ((List.sublist_append_right blk m).cons_cons q)
  have hpage := fun r hr ↦ h.page r (hsub.subset hr)
  have hsorted := h.sorted.sublist hsub
  have hpq : ∀ r ∈ [q], IsPage r := fun r hr ↦ hpage r (by simp_all)
  obtain ⟨-, hm, hlm⟩ := List.pairwise_append.mp hsorted
  have hqm := (List.pairwise_cons.mp hm).1
  refine ⟨h.seg.cut hq (fun r hr ↦ ?_) (fun r hr ↦ ?_), hsorted, hpage⟩
  · have h1 := hlm r hr q (by simp)
    exact readWord_page hl hpq (hpage r (by simp [hr])) (by simp; omega)
  · have h1 := hqm r hr
    exact readWord_page hl hpq (hpage r (by simp [hr])) (by simp; omega)

/-- **The walk to an entry** behind the first one stops there, with the entry `q` before it. -/
theorem FreeList.exec_extractBody {q : ℕ} {l r : List ℕ}
    (h : FreeList mem head (l ++ q :: a :: r)) : head ≠ a ∧ readWord mem head ≠ 0 ∧
      Loop.exec (extractBody mem a) (head, readWord mem head) = .ok (q, a) := by
  obtain ⟨lr, hlr, hL, hseg⟩ := h.uncons
  have hsorted := h.sorted
  rw [List.append_cons, hlr] at hsorted
  obtain ⟨-, hsr, hltl⟩ := List.pairwise_append.mp hsorted
  rw [hL] at h
  have hlt : ∀ p ∈ head :: lr, p < a := fun p hp ↦ hltl p hp a List.mem_cons_self
  have hnotin : 0 ∉ lr ++ a :: r := fun h0 ↦ h.null_notMem (List.mem_cons_of_mem head h0)
  refine ⟨ne_of_lt (hlt head List.mem_cons_self), hseg.ne_end (by simp) hnotin, ?_⟩
  have hwalk := run_extractBody (n := Loop.rounds) (b := 0)
    (fun p hp ↦ ⟨(h.page p (List.mem_cons_of_mem head (List.mem_append_left _ hp))).pos,
      hlt p (List.mem_cons_of_mem head hp)⟩)
    (fun p hp ↦ by
      rcases List.mem_cons.mp hp with rfl | hp
      · exact le_refl _
      · exact ((List.pairwise_cons.mp hsr).1 p hp).le) (List.cons_ne_nil a r) head hseg (by
      have hlen := h.length_lt
      rw [List.length_cons, List.length_append] at hlen
      omega)
  have hlast : (head :: lr).getLast (List.cons_ne_nil _ _) = q := by simp [← hlr]
  rwa [hlast] at hwalk

/-- **A block that is on the list is cut out.**  The block `blk` starts at `a`, or is empty with
`a` being the next entry. -/
theorem extractImpl_spec {l blk m : List ℕ} (h : FreeList mem head (l ++ (blk ++ m)))
    (ha : (blk ++ m).head? = some a) :
    ∃ mem' head', extractImpl mem head a blk.length = .ok (mem', head') ∧
      FreeList mem' head' (l ++ m) ∧ WordsOnly l mem mem' := by
  obtain ⟨r, hr⟩ : ∃ r, blk ++ m = a :: r := by
    cases hbm : blk ++ m with
    | nil => rw [hbm] at ha; exact absurd ha (by simp)
    | cons c r => rw [hbm] at ha; exact ⟨r, by simpa using ha⟩
  have hap : IsPage a := h.page a (by simp [hr])
  obtain ⟨-, hsr, -⟩ := List.pairwise_append.mp h.sorted
  rw [hr] at hsr
  have har := (List.pairwise_cons.mp hsr).1
  have hseg := h.seg
  obtain ⟨c, hsegl, hsegr⟩ := seg_append.mp hseg
  have hca : c = a := by rw [hsegr.head_eq, hr]; rfl
  subst hca
  have hadv : nextFrees mem blk.length c = .ok (m.headD 0) :=
    nextFrees_seg hsegr fun q hq ↦ (h.page q (by simp [hq])).pos
  have hsegc : Seg (readWord mem) (readWord mem c) r 0 := by
    rw [hr] at hsegr
    exact hsegr.2
  rcases List.eq_nil_or_concat l with rfl | ⟨l, q, rfl⟩
  · -- the block is in front: the head moves, and the walk does not start
    obtain rfl : head = c := hsegl
    refine ⟨mem, m.headD 0, ?_, ⟨?_, ?_, ?_⟩, WordsOnly.refl _ _⟩
    · by_cases hnext : readWord mem head = 0
      · simp [extractImpl, hap.pos, hadv, hnext]
      · obtain ⟨d, r', rfl⟩ : ∃ d r', r = d :: r' := by
          cases r with
          | nil => exact absurd hsegc hnext
          | cons d r' => exact ⟨d, r', rfl⟩
        have hd : readWord mem head = d := hsegc.1
        have hlt := har d List.mem_cons_self
        rw [hd] at hnext
        have hwalk : Loop.exec (extractBody mem head) (head, d) = .ok (head, d) := by
          refine Loop.exec_inr ?_
          simp [extractBody, not_lt.mpr hlt.le]
        simp [extractImpl, hap.pos, hadv, hd, hnext, hwalk, hlt]
    · obtain ⟨e, -, he⟩ := seg_append.mp hsegr
      rw [List.nil_append, ← he.head_eq]
      exact he
    · exact h.sorted.sublist (by simp)
    · exact fun p hp ↦ h.page p (by simp at hp; simp [hp])
  · -- the block is behind `q`
    simp only [List.concat_eq_append, List.append_assoc, List.cons_append, List.nil_append] at *
    have hq := h.page q (by simp)
    have hhead : head ≠ 0 := h.seg.ne_end (by simp) h.null_notMem
    obtain ⟨hheadc, hnext, hwalk⟩ := FreeList.exec_extractBody (hr ▸ h)
    have hmhead : m.headD 0 < 2 ^ 64 := by
      cases m with
      | nil => simp
      | cons p m => exact (h.page p (by simp)).lt
    refine ⟨writeWord mem q (m.headD 0), head, ?_, ?_, wordsOnly_writeWord (by simp)⟩
    · simp [extractImpl, hhead, hheadc, hnext, hwalk, hadv, hq.pos]
    · exact h.cut (wordsOnly_writeWord (by simp)) (readWord_writeWord hmhead)

end Chisaka.PageAllocators
