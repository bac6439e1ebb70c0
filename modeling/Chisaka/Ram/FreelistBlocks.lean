import Chisaka.Ram.FreelistSpec

/-!
# Blocks of contiguous pages

`AllocatePages(n)` scans a list for `n` contiguous pages and cuts them out.  `Listed L b n` says
that the block of `n` pages at `b` is on the list `L`, and `without L b n` is what remains of the
list when it is taken away.

The scan keeps the base of the run of contiguous pages that ends at the current entry, and how long
that run is.  What makes it find the *lowest* block is the invariant `ScanInv`: no block starts
below the base of the current run.  When the next entry is not adjacent, the run is over, and no
block can start inside it either, since such a block would have to contain the page that is missing.
-/

set_option autoImplicit false

namespace Chisaka.PageAllocators

open Bytes Chain

variable {mem mem' : Memory} {head a b n : ℕ} {L : List ℕ}

/-- The `n` pages from `b` on are all on the list. -/
def Listed (L : List ℕ) (b n : ℕ) : Prop := ∀ p ∈ pagesFrom b n, p ∈ L

instance (L : List ℕ) (b n : ℕ) : Decidable (Listed L b n) :=
  inferInstanceAs (Decidable (∀ p ∈ pagesFrom b n, p ∈ L))

/-- The entries of the list outside the `n` pages from `b` on. -/
def without (L : List ℕ) (b n : ℕ) : List ℕ :=
  L.filter fun p ↦ p < b ∨ b + n * pageSize ≤ p

theorem mem_without {p : ℕ} : p ∈ without L b n ↔ p ∈ L ∧ (p < b ∨ b + n * pageSize ≤ p) := by
  simp [without]

@[simp] theorem without_zero : without L b 0 = L := by
  rw [without, List.filter_eq_self]
  intro p _
  simp only [decide_eq_true_eq]
  omega

theorem listed_iff : Listed L b n ↔ ∀ i < n, b + i * pageSize ∈ L := by
  simp only [Listed, mem_pagesFrom]
  exact ⟨fun h i hi ↦ h _ ⟨i, hi, rfl⟩, by rintro h _ ⟨i, hi, rfl⟩; exact h i hi⟩

/-- A block of one page, or of none. -/
theorem listed_of_le_one (hb : b ∈ L) (hn : n ≤ 1) : Listed L b n := by
  rw [listed_iff]
  intro i hi
  obtain rfl : i = 0 := by omega
  simpa using hb

/-- Between a page and the next `n` there is no other page. -/
theorem mem_pagesFrom_of_mem {p : ℕ} (hb : b % pageSize = 0) (hp : p % pageSize = 0) (h1 : b ≤ p)
    (h2 : p < b + n * pageSize) : p ∈ pagesFrom b n := by
  refine mem_pagesFrom.mpr ⟨(p - b) / pageSize, ?_, ?_⟩ <;>
    simp only [pageSize] at * <;> omega

/-- **A block that is on an ascending list is a stretch of it.** -/
theorem Listed.split (hsorted : L.Pairwise (· < ·)) (hpage : ∀ p ∈ L, IsPage p) (hb : b ∈ L)
    (h : Listed L b n) : ∃ l m, L = l ++ (pagesFrom b n ++ m) ∧ without L b n = l ++ m ∧
      (pagesFrom b n ++ m).head? = some b := by
  have hbp := (hpage b hb).aligned
  set l := L.filter fun p ↦ p < b with hldef
  set m := L.filter fun p ↦ b + n * pageSize ≤ p with hmdef
  have hl : ∀ p, p ∈ l ↔ p ∈ L ∧ p < b := by simp [hldef]
  have hm : ∀ p, p ∈ m ↔ p ∈ L ∧ b + n * pageSize ≤ p := by simp [hmdef]
  have hsm : (pagesFrom b n ++ m).Pairwise (· < ·) := by
    refine List.pairwise_append.mpr ⟨pairwise_pagesFrom b n, hsorted.filter _, fun p hp q hq ↦ ?_⟩
    exact (lt_of_mem_pagesFrom hp).2.trans_le ((hm q).mp hq).2
  have hs : (l ++ (pagesFrom b n ++ m)).Pairwise (· < ·) := by
    refine List.pairwise_append.mpr ⟨hsorted.filter _, hsm, fun p hp q hq ↦ ?_⟩
    have hpb := ((hl p).mp hp).2
    rcases List.mem_append.mp hq with hq | hq
    · exact hpb.trans_le (lt_of_mem_pagesFrom hq).1
    · have := ((hm q).mp hq).2
      omega
  have hL : L = l ++ (pagesFrom b n ++ m) := by
    refine hsorted.eq_of_mem_iff hs fun p ↦ ?_
    simp only [List.mem_append, hl, hm]
    constructor
    · intro hp
      rcases lt_or_ge p b with h1 | h1
      · exact .inl ⟨hp, h1⟩
      · rcases lt_or_ge p (b + n * pageSize) with h2 | h2
        · exact .inr (.inl (mem_pagesFrom_of_mem hbp (hpage p hp).aligned h1 h2))
        · exact .inr (.inr ⟨hp, h2⟩)
    · rintro (hp | hp | hp)
      · exact hp.1
      · exact h p hp
      · exact hp.1
  refine ⟨l, m, hL, ?_, ?_⟩
  · refine (hsorted.filter _).eq_of_mem_iff ?_ fun p ↦ ?_
    · exact hs.sublist ((List.Sublist.refl l).append (List.sublist_append_right _ m))
    · rw [List.mem_append, hl, hm, ← and_or_left]
      exact mem_without
  · -- the least entry of what is not below `b` is `b`
    have hmem : b ∈ pagesFrom b n ++ m := by
      rw [hL, List.mem_append, hl] at hb
      exact hb.resolve_left fun h ↦ absurd h.2 (lt_irrefl b)
    cases hbm : pagesFrom b n ++ m with
    | nil => rw [hbm] at hmem; simp at hmem
    | cons c r =>
      rw [hbm] at hmem hsm
      rcases List.mem_cons.mp hmem with rfl | hbr
      · rfl
      · exfalso
        have hcb := (List.pairwise_cons.mp hsm).1 b hbr
        have hc : c ∈ pagesFrom b n ++ m := by rw [hbm]; exact List.mem_cons_self
        rcases List.mem_append.mp hc with hc | hc
        · exact absurd (lt_of_mem_pagesFrom hc).1 (by omega)
        · have := ((hm c).mp hc).2
          omega

/-- What is taken away is missing afterwards. -/
theorem length_without (hsorted : L.Pairwise (· < ·)) (hpage : ∀ p ∈ L, IsPage p) (hb : b ∈ L)
    (h : Listed L b n) : (without L b n).length + n = L.length := by
  obtain ⟨l, m, hL, hw, -⟩ := h.split hsorted hpage hb
  rw [hw]
  conv_rhs => rw [hL]
  simp only [List.length_append, length_pagesFrom]
  omega

/-- **Extracting a block that is on the list** leaves the list without it, and writes no link of
the block. -/
theorem extractImpl_without (h : FreeList mem head L) (hb : b ∈ L) (hn : Listed L b n) :
    ∃ mem' head', extractImpl mem head b n = .ok (mem', head') ∧
      FreeList mem' head' (without L b n) ∧ WordsOnly (without L b n) mem mem' := by
  obtain ⟨l, m, hL, hw, hhead⟩ := hn.split h.sorted h.page hb
  rw [hL] at h
  obtain ⟨mem', head', he, hf, hl⟩ := extractImpl_spec h hhead
  rw [length_pagesFrom] at he
  exact ⟨mem', head', he, hw ▸ hf, hl.mono fun q hq ↦ hw ▸ List.mem_append_left _ hq⟩

theorem extractImpl_listed (h : FreeList mem head L) (hb : b ∈ L) (hn : Listed L b n) :
    ∃ mem' head', extractImpl mem head b n = .ok (mem', head') ∧
      FreeList mem' head' (without L b n) ∧ WordsOnly L mem mem' := by
  obtain ⟨mem', head', he, hf, hw⟩ := extractImpl_without h hb hn
  exact ⟨mem', head', he, hf, hw.mono fun q hq ↦ (mem_without.mp hq).1⟩

/-! ## The scan -/

/-- `res` is the lowest base of a block of `n` pages on the list, if there is one. -/
def LowestBlock (L : List ℕ) (n : ℕ) : Option ℕ → Prop
  | some b => b ∈ L ∧ Listed L b n ∧ ∀ c ∈ L, Listed L c n → b ≤ c
  | none => ∀ c ∈ L, ¬Listed L c n

/-- What the scan knows: the run that ends at the current entry, and that no block starts below
it. -/
structure ScanInv (L : List ℕ) (n : ℕ) (s : ScanState) : Prop where
  /-- The run has not reached the wanted length. -/
  count_lt : s.count < n
  /-- The run is not empty. -/
  count_pos : 0 < s.count
  /-- The run is on the list. -/
  listed : Listed L s.allocBase s.count
  /-- The run ends at the current entry. -/
  current : s.currentEntry + pageSize = s.allocBase + s.count * pageSize
  /-- No block starts below the run. -/
  least : ∀ c ∈ L, Listed L c n → s.allocBase ≤ c

theorem ScanInv.base_mem {s : ScanState} (h : ScanInv L n s) : s.allocBase ∈ L := by
  have := listed_iff.mp h.listed 0 h.count_pos
  simpa using this

/-- A block that starts in the current run contains the page behind it. -/
theorem ScanInv.next_mem {s : ScanState} (h : ScanInv L n s) (hpage : ∀ p ∈ L, IsPage p) {c : ℕ}
    (hc : c ∈ L) (hcn : Listed L c n) (hle : c ≤ s.currentEntry) :
    s.currentEntry + pageSize ∈ L := by
  have h1 := h.least c hc hcn
  have h2 := (hpage c hc).aligned
  have h3 := (hpage _ h.base_mem).aligned
  have h4 := h.current
  have h5 := h.count_lt
  have hi : c + (s.currentEntry + pageSize - c) / pageSize * pageSize
      = s.currentEntry + pageSize := by
    simp only [pageSize] at *
    omega
  rw [← hi]
  refine listed_iff.mp hcn _ ?_
  simp only [pageSize] at *
  omega

/-- What a round looks for: the next entry is the page behind the current one. -/
theorem add64_pageSize_eq_iff {c q : ℕ} (hc : IsPage c) (hq : IsPage q) :
    add64 c pageSize = q ↔ c + pageSize = q := by
  have h1 := hc.lt
  have h2 := hq.lt
  have h3 := hq.pos
  have h4 := hc.aligned
  simp only [add64, pageSize] at *
  omega

/-- **One round of the scan.**  Unless the block is complete, the run that ends at the next entry
satisfies the invariant again. -/
theorem ScanInv.step {s : ScanState} {pre rest : List ℕ} (h : ScanInv L n s) (after : ℕ)
    (hsorted : L.Pairwise (· < ·)) (hpage : ∀ p ∈ L, IsPage p)
    (hL : L = pre ++ s.currentEntry :: s.nextEntry :: rest)
    (hgo : ¬(add64 s.currentEntry pageSize = s.nextEntry ∧ s.count + 1 = n)) :
    ScanInv L n
      ⟨if add64 s.currentEntry pageSize = s.nextEntry then s.count + 1 else 1,
        if add64 s.currentEntry pageSize = s.nextEntry then s.allocBase else s.nextEntry,
        s.nextEntry, after⟩ := by
  have hcur := hpage s.currentEntry (by rw [hL]; simp)
  have hnext := hpage s.nextEntry (by rw [hL]; simp)
  have h1 := h.count_lt
  have h2 := h.count_pos
  have h3 := h.current
  simp only [add64_pageSize_eq_iff hcur hnext] at hgo ⊢
  by_cases hc : s.currentEntry + pageSize = s.nextEntry
  · simp only [if_pos hc]
    refine ⟨by simp only; omega, Nat.succ_pos _, ?_, by simp only [← hc, h3]; ring, h.least⟩
    rw [Listed, pagesFrom_snoc]
    intro p hp
    rcases List.mem_append.mp hp with hp | hp
    · exact h.listed p hp
    · rw [List.mem_singleton.mp hp, ← h3, hc, hL]
      simp
  · simp only [if_neg hc]
    refine ⟨by simp only; omega, Nat.one_pos, listed_of_le_one (by rw [hL]; simp) (le_refl 1),
      by simp, fun c hcL hcn ↦ ?_⟩
    · -- a block that starts earlier would contain the page that is missing here
      by_contra hlt
      rw [hL] at hsorted
      obtain ⟨hspre, hsr, hpre⟩ := List.pairwise_append.mp hsorted
      obtain ⟨hsc, hsr⟩ := List.pairwise_cons.mp hsr
      have hsn := (List.pairwise_cons.mp hsr).1
      have hcle : c ≤ s.currentEntry := by
        rw [hL] at hcL
        simp only [List.mem_append, List.mem_cons] at hcL
        rcases hcL with hcL | rfl | rfl | hcL
        · exact (hpre c hcL _ List.mem_cons_self).le
        · exact le_refl _
        · exact absurd (le_refl _) hlt
        · exact absurd (hsn c hcL).le hlt
      have hmem := h.next_mem hpage hcL hcn hcle
      have hlt' := hsc s.nextEntry List.mem_cons_self
      have hge : s.nextEntry ≤ s.currentEntry + pageSize := by
        rw [hL] at hmem
        simp only [List.mem_append, List.mem_cons] at hmem
        rcases hmem with hm | hm | hm | hm
        · have := hpre _ hm _ List.mem_cons_self
          omega
        · simp [pageSize] at hm
        · exact hm.ge
        · exact (hsn _ hm).le
      have h4 := hcur.aligned
      have h5 := hnext.aligned
      simp only [pageSize] at *
      omega

/-- At the end of the list there is no block left to be found. -/
theorem ScanInv.none_of_last {s : ScanState} (h : ScanInv L n s) (hpage : ∀ p ∈ L, IsPage p)
    (hlast : ∀ p ∈ L, p ≤ s.currentEntry) : LowestBlock L n none := by
  intro c hc hcn
  have := hlast _ (h.next_mem hpage hc hcn (hlast c hc))
  simp [pageSize] at this

/-- A complete run is the lowest block. -/
theorem ScanInv.some_of_next {s : ScanState} (h : ScanInv L n s) (hnext : s.nextEntry ∈ L)
    (hc : s.currentEntry + pageSize = s.nextEntry) (hn : s.count + 1 = n) :
    LowestBlock L n (some s.allocBase) := by
  refine ⟨h.base_mem, ?_, h.least⟩
  rw [← hn, Listed, pagesFrom_snoc]
  intro p hp
  rcases List.mem_append.mp hp with hp | hp
  · exact h.listed p hp
  · rw [List.mem_singleton.mp hp, ← h.current, hc]
    exact hnext

/-- What holds before a round of the scan, with `m` entries behind the next one. -/
def ScanAt (mem : Memory) (L : List ℕ) (n m : ℕ) (s : ScanState) : Prop :=
  ScanInv L n s ∧ ∃ pre rest, rest.length = m ∧ L = pre ++ s.currentEntry :: s.nextEntry :: rest ∧
    Seg (readWord mem) s.currentEntry (s.currentEntry :: s.nextEntry :: rest) 0

/-- **One round of the scan** ends it with the answer, or moves on by one entry. -/
theorem scanBody_spec (hsorted : L.Pairwise (· < ·)) (hpage : ∀ p ∈ L, IsPage p) {m : ℕ}
    {s : ScanState} (h : ScanAt mem L n m s) :
    (∃ res, scanBody mem n s = .ok (.inr res) ∧ LowestBlock L n res) ∨
      ∃ m' s', m' < m ∧ scanBody mem n s = .ok (.inl s') ∧ ScanAt mem L n m' s' := by
  obtain ⟨hinv, pre, rest, rfl, hL, -, hcn, hrest⟩ := h
  have hcur := hpage s.currentEntry (by rw [hL]; simp)
  have hnext := hpage s.nextEntry (by rw [hL]; simp)
  by_cases hgo : add64 s.currentEntry pageSize = s.nextEntry ∧ s.count + 1 = n
  · refine .inl ⟨some s.allocBase, ?_, ?_⟩
    · simp only [scanBody, if_pos hinv.count_lt, if_pos hgo, Exec.pure_eq]
    · exact hinv.some_of_next (by rw [hL]; simp)
        ((add64_pageSize_eq_iff hcur hnext).mp hgo.1) hgo.2
  · cases rest with
    | nil =>
      have hend : readWord mem s.nextEntry = 0 := hrest
      refine .inl ⟨none, ?_, ?_⟩
      · simp [scanBody, hinv.count_lt, hgo, hcur.pos, hcn, hnext.pos, hend]
      · refine (hinv.step 0 hsorted hpage hL hgo).none_of_last hpage fun p hp ↦ ?_
        rw [hL] at hsorted hp
        obtain ⟨-, hsr, hpre⟩ := List.pairwise_append.mp hsorted
        have hlt := (List.pairwise_cons.mp hsr).1 s.nextEntry (by simp)
        simp only [List.mem_append, List.mem_cons, List.not_mem_nil, or_false] at hp
        rcases hp with hp | rfl | rfl
        · exact (hpre p hp s.nextEntry (by simp)).le
        · exact hlt.le
        · exact le_refl _
    | cons q rest =>
      obtain ⟨hnq, hrest⟩ := hrest
      have hq := (hpage q (by rw [hL]; simp)).pos
      refine .inr ⟨rest.length, _, Nat.lt_succ_self _, ?_, hinv.step q hsorted hpage hL hgo,
        pre ++ [s.currentEntry], rest, rfl, by simpa using hL, rfl, hnq, hrest⟩
      simp [scanBody, hinv.count_lt, hgo, hcur.pos, hcn, hnext.pos, hnq, hq]

/-- **The scan finds the lowest block, or there is none.** -/
theorem run_scanBody (hsorted : L.Pairwise (· < ·)) (hpage : ∀ p ∈ L, IsPage p) {m k : ℕ}
    {s : ScanState} (h : ScanAt mem L n m s) (hk : m < k) :
    ∃ res, Loop.run (scanBody mem n) k s = .ok res ∧ LowestBlock L n res :=
  Loop.run_of_variant (ScanAt mem L n) (LowestBlock L n)
    (fun _ _ h ↦ scanBody_spec hsorted hpage h) h hk

/-! ## `AllocatePagesImpl` -/

/-- What `AllocatePagesImpl` answers for a list: the lowest block, provided the list has two
entries at least.  For no pages at all that is the head. -/
def blockOf (L : List ℕ) (n : ℕ) : Option ℕ :=
  if 2 ≤ L.length then L.find? fun b ↦ Listed L b n else none

/-- The list that `AllocatePagesImpl` leaves. -/
def remaining (L : List ℕ) (n : ℕ) : List ℕ :=
  match blockOf L n with
  | some b => without L b n
  | none => L

theorem LowestBlock.blockOf_eq {res : Option ℕ} (h : LowestBlock L n res)
    (hsorted : L.Pairwise (· < ·)) (hlen : 2 ≤ L.length) : blockOf L n = res := by
  rw [blockOf, if_pos hlen]
  cases res with
  | none =>
    rw [List.find?_eq_none]
    intro b hb
    simpa using h b hb
  | some b =>
    obtain ⟨hb, hbn, hleast⟩ := h
    cases hf : L.find? fun b ↦ Listed L b n with
    | none =>
      rw [List.find?_eq_none] at hf
      exact absurd hbn (by simpa using hf b hb)
    | some c =>
      rw [List.find?_eq_some_iff_append] at hf
      obtain ⟨hc, as, bs, hL, has⟩ := hf
      have hcn : Listed L c n := by simpa using hc
      have hbc := hleast c (by rw [hL]; simp) hcn
      rw [hL] at hb hsorted
      have hcbs := (List.pairwise_cons.mp (List.pairwise_append.mp hsorted).2.1).1
      rcases List.mem_append.mp hb with hb | hb
      · exact absurd hbn (by simpa using has b hb)
      · rcases List.mem_cons.mp hb with rfl | hb
        · rfl
        · have := hcbs b hb
          omega

theorem blockOf_eq_some {res : ℕ} (h : blockOf L n = some res) :
    2 ≤ L.length ∧ res ∈ L ∧ Listed L res n := by
  rw [blockOf] at h
  split at h
  · rename_i hlen
    refine ⟨hlen, List.mem_of_find?_eq_some h, ?_⟩
    simpa using List.find?_some h
  · exact absurd h (by simp)

theorem blockOf_eq_none_iff : blockOf L n = none ↔ L.length < 2 ∨ ∀ b ∈ L, ¬Listed L b n := by
  rw [blockOf]
  split
  · rename_i hlen
    rw [List.find?_eq_none]
    simp [not_lt.mpr hlen]
  · rename_i hlen
    simp [not_le.mp hlen]

/-- **What a call does to a list**: there is no block, and nothing happens, or the lowest block is
cut out. -/
def CutsLowest (mem : Memory) (head n : ℕ) (L : List ℕ) : Prop :=
  (blockOf L n = none ∧ allocatePagesImpl mem head n = .ok (0, mem, head)) ∨
    ∃ b mem' head', blockOf L n = some b ∧ (∀ c ∈ L, Listed L c n → b ≤ c) ∧
      allocatePagesImpl mem head n = .ok (b, mem', head') ∧
      FreeList mem' head' (without L b n) ∧ WordsOnly L mem mem'

/-- What is answered when the scan has ended. -/
theorem cutsLowest_of_scan {next : ℕ} {res : Option ℕ} (h : FreeList mem head L)
    (hhead : head ≠ 0) (hnext : readWord mem head = next) (hnext0 : next ≠ 0)
    (hlen : 2 ≤ L.length)
    (hscan : Loop.exec (scanBody mem n) ⟨1, head, head, next⟩ = .ok res)
    (hres : LowestBlock L n res) : CutsLowest mem head n L := by
  have hblock := hres.blockOf_eq h.sorted hlen
  cases res with
  | none => exact .inl ⟨hblock, by simp [allocatePagesImpl, hhead, hnext, hnext0, hscan]⟩
  | some b =>
    obtain ⟨mem', head', he, hf, hl⟩ := extractImpl_listed h hres.1 hres.2.1
    exact .inr ⟨b, mem', head', hblock, hres.2.2,
      by simp [allocatePagesImpl, hhead, hnext, hnext0, hscan, he], hf, hl⟩

/-- **A block is found and cut out, or there is none.** -/
theorem allocatePagesImpl_cutsLowest (h : FreeList mem head L) : CutsLowest mem head n L := by
  have hnone : L.length < 2 → blockOf L n = none := fun hlt ↦
    blockOf_eq_none_iff.mpr (.inl hlt)
  match L, h with
  | [], h =>
    obtain rfl : head = 0 := h.seg
    exact .inl ⟨hnone (by simp), rfl⟩
  | [p], h =>
    obtain ⟨rfl, hend⟩ : head = p ∧ readWord mem p = 0 := h.seg
    have hp := (h.page head List.mem_cons_self).pos
    exact .inl ⟨hnone (by simp), by simp [allocatePagesImpl, hp, hend]⟩
  | p :: q :: rest, h =>
    obtain ⟨rfl, hpq, hrest⟩ := h.seg
    have hp := (h.page head (by simp)).pos
    have hq := (h.page q (by simp)).pos
    have hleast : ∀ c ∈ head :: q :: rest, head ≤ c := by
      intro c hc
      rcases List.mem_cons.mp hc with rfl | hc
      · exact le_refl _
      · exact ((List.pairwise_cons.mp h.sorted).1 c hc).le
    by_cases hn : 1 < n
    · have hinv : ScanInv (head :: q :: rest) n ⟨1, head, head, q⟩ :=
        ⟨hn, Nat.one_pos, listed_of_le_one (by simp) (le_refl 1), by simp,
          fun c hc _ ↦ hleast c hc⟩
      have hrounds : rest.length < Loop.rounds := by
        have := h.length_lt
        simp only [List.length_cons] at this
        omega
      have hat : ScanAt mem (head :: q :: rest) n rest.length ⟨1, head, head, q⟩ :=
        ⟨hinv, [], rest, rfl, rfl, rfl, hpq, hrest⟩
      obtain ⟨res, hscan, hres⟩ := run_scanBody h.sorted h.page hat hrounds
      exact cutsLowest_of_scan h hp hpq hq (by simp) hscan hres
    · have hscan : Loop.exec (scanBody mem n) ⟨1, head, head, q⟩ = .ok (some head) :=
        Loop.exec_inr (if_neg hn)
      exact cutsLowest_of_scan h hp hpq hq (by simp) hscan
        ⟨by simp, listed_of_le_one (by simp) (not_lt.mp hn), fun c hc _ ↦ hleast c hc⟩

/-- The two cases in one. -/
theorem allocatePagesImpl_spec (h : FreeList mem head L) :
    ∃ mem' head', allocatePagesImpl mem head n = .ok ((blockOf L n).getD 0, mem', head') ∧
      FreeList mem' head' (remaining L n) ∧ WordsOnly L mem mem' := by
  rw [remaining]
  rcases allocatePagesImpl_cutsLowest (n := n) h with
    ⟨hb, he⟩ | ⟨b, mem', head', hb, -, he, hf, hl⟩ <;> rw [hb]
  · exact ⟨mem, head, he, h, WordsOnly.refl _ _⟩
  · exact ⟨mem', head', he, hf, hl⟩

end Chisaka.PageAllocators
