import Chisaka.Ram.FreelistSpec

/-!
# Setting up the two lists

`Init` runs through the memory map twice, once for each list, and threads the pages of the regions
it takes onto the list, one region behind the other.  While it runs, the list has no end yet: the
link of the last page is whatever the page holds, until the next region or the final null is
written there.  `Growing` is that state, and `InitInv` the invariant of the two loops.

`init_spec` is the result: for a memory map whose `Useable` entries are what the boot loader
promises and end below the top of memory, `Init` leaves the two lists with the pages of the
entries above and below `CUTOFF`, whatever memory held before.
-/

set_option autoImplicit false

namespace Chisaka.PageAllocators

open Bytes Chain

variable {mem mem' : Memory} {head c n limit : ℕ} {L : List ℕ}

/-! ## One region -/

theorem isPage_of_mem_pagesFrom (hc : c % pageSize = 0) (hpos : c ≠ 0)
    (hlt : c + n * pageSize < 2 ^ 64) {p : ℕ} (hp : p ∈ pagesFrom c n) : IsPage p := by
  obtain ⟨i, hi, rfl⟩ := mem_pagesFrom.mp hp
  have hlt' : i * pageSize < n * pageSize := Nat.mul_lt_mul_of_pos_right hi (by decide)
  exact ⟨by simpa [Nat.add_mul_mod_self_right] using hc, by omega, by omega⟩

/-- **The loop of `SetupRegion` links the pages of the region**, and writes nothing else. -/
theorem run_setupRegionBody (hlimit : limit < 2 ^ 64) :
    ∀ {k : ℕ} {mem : Memory} {c : ℕ}, c % pageSize = 0 → c ≠ 0 → c + n * pageSize = limit →
      n < k → ∃ mem' b, Loop.run (setupRegionBody limit) k (mem, c) = .ok (mem', limit) ∧
        Seg (readWord mem') c (pagesFrom c n) b ∧ WordsOnly (pagesFrom c n) mem mem' := by
  induction n with
  | zero =>
    intro k mem c _ _ hc hk
    obtain ⟨k, rfl⟩ := Nat.exists_eq_succ_of_ne_zero (Nat.ne_of_gt hk)
    obtain rfl : c = limit := by simpa using hc
    refine ⟨mem, c, Loop.run_inr ?_ k, rfl, WordsOnly.refl _ _⟩
    simp [setupRegionBody]
  | succ n ih =>
    intro k mem c hal hpos hc hk
    obtain ⟨k, rfl⟩ := Nat.exists_eq_succ_of_ne_zero (Nat.ne_of_gt (Nat.zero_lt_of_lt hk))
    have hc' : c + pageSize + n * pageSize = limit := by rw [← hc]; ring
    have hcp : IsPage c := ⟨hal, hpos, by omega⟩
    have hlt : c < limit := by simp only [pageSize] at *; omega
    have hadd : add64 c pageSize = c + pageSize := add64_of_lt (by omega)
    have hal' : (c + pageSize) % pageSize = 0 := by simpa using hal
    -- the round writes the link of `c`, unless `c` is the last page
    obtain ⟨mem₁, hbody, hl₁, hw⟩ : ∃ mem₁,
        setupRegionBody limit (mem, c) = .ok (.inl (mem₁, c + pageSize)) ∧
          WordsOnly [c] mem mem₁ ∧ (n ≠ 0 → readWord mem₁ c = c + pageSize) := by
      by_cases hn : c + pageSize < limit
      · refine ⟨writeWord mem c (c + pageSize), ?_, wordsOnly_writeWord (by simp), fun _ ↦ ?_⟩
        · simp [setupRegionBody, hlt, hadd, hn, hpos]
        · exact readWord_writeWord (by omega)
      · refine ⟨mem, ?_, WordsOnly.refl _ _, fun h0 ↦ ?_⟩
        · simp [setupRegionBody, hlt, hadd, hn]
        · simp only [pageSize] at *
          omega
    obtain ⟨mem', b, hrun, hseg, hl⟩ :=
      @ih k mem₁ (c + pageSize) hal' (by omega) hc' (by omega)
    have hpages : ∀ p ∈ pagesFrom (c + pageSize) n, IsPage p := fun p hp ↦
      isPage_of_mem_pagesFrom hal' (by omega) (by omega) hp
    have hnotin : c ∉ pagesFrom (c + pageSize) n := by
      intro hin
      obtain ⟨i, -, hi⟩ := mem_pagesFrom.mp hin
      simp only [pageSize] at hi
      omega
    have hword : readWord mem' c = readWord mem₁ c := readWord_page hl hpages hcp hnotin
    refine ⟨mem', if n = 0 then readWord mem' c else b, ?_, ?_, ?_⟩
    · rw [Loop.run_inl hbody, hrun]
    · rw [pagesFrom_succ, seg_cons]
      refine ⟨rfl, ?_⟩
      cases n with
      | zero => simp
      | succ n =>
        rw [hword, hw (Nat.succ_ne_zero n), if_neg (Nat.succ_ne_zero n)]
        exact hseg
    · rw [pagesFrom_succ]
      exact (hl₁.mono (by simp)).trans (hl.mono fun q hq ↦ List.mem_cons_of_mem c hq)

/-! ## One entry -/

/-- A list that has no end yet: the last page has whatever link it holds. -/
structure Growing (mem : Memory) (head : ℕ) (L : List ℕ) : Prop where
  /-- The links, up to the last page. -/
  seg : L ≠ [] → ∃ b, Seg (readWord mem) head L b
  /-- The addresses ascend. -/
  sorted : L.Pairwise (· < ·)
  /-- Every entry is a page. -/
  page : ∀ p ∈ L, IsPage p

/-- The entry is above the pages put up so far, and as the boot loader promises. -/
structure Fits (L : List ℕ) (e : MemoryMapEntry) : Prop where
  /-- The entry consists of pages. -/
  paged : e.Paged
  /-- It ends below the top of memory. -/
  lt : e.base.toNat + e.length.toNat < 2 ^ 64
  /-- It is above every page so far. -/
  above : ∀ p ∈ L, p < e.base.toNat

namespace Fits

variable {e : MemoryMapEntry}

theorem end_eq (h : Fits L e) :
    e.base.toNat + e.length.toNat / pageSize * pageSize = e.base.toNat + e.length.toNat := by
  have := h.paged.length_aligned
  simp only [pageSize] at *
  omega

theorem isPage (h : Fits L e) : ∀ p ∈ e.pages, IsPage p := fun _ hp ↦
  isPage_of_mem_pagesFrom h.paged.base_aligned h.paged.base_ne (h.end_eq ▸ h.lt) hp

theorem le_of_mem (_ : Fits L e) {p : ℕ} (hp : p ∈ e.pages) : e.base.toNat ≤ p := by
  obtain ⟨i, -, rfl⟩ := mem_pagesFrom.mp hp
  exact Nat.le_add_right _ _

theorem sorted (h : Fits L e) (hL : L.Pairwise (· < ·)) : (L ++ e.pages).Pairwise (· < ·) :=
  List.pairwise_append.mpr ⟨hL, pairwise_pagesFrom _ _,
    fun p hp _ hq ↦ (h.above p hp).trans_le (h.le_of_mem hq)⟩

/-- An entry has a last page, and the region ends behind it. -/
theorem exists_last (h : Fits L e) : ∃ l x, e.pages = l ++ [x] ∧
    x + pageSize = e.base.toNat + e.length.toNat := by
  have hend := h.end_eq
  have hne := h.paged.length_ne
  obtain ⟨n, hn⟩ : ∃ n, e.length.toNat / pageSize = n + 1 :=
    Nat.exists_eq_succ_of_ne_zero fun h0 ↦ hne (by simpa [h0] using hend.symm)
  refine ⟨pagesFrom e.base.toNat n, e.base.toNat + n * pageSize, ?_, ?_⟩
  · rw [MemoryMapEntry.pages, hn, pagesFrom_snoc]
  · rw [← hend, hn]
    ring

end Fits

/-- The store of `SetupRegion` before its loop links the last page so far to the region. -/
theorem Growing.link {q b : ℕ} {l M : List ℕ} (h : Growing mem head (l ++ [q])) (hb : b < 2 ^ 64)
    (hl : WordsOnly M (writeWord mem q b) mem') (hM : ∀ p ∈ M, IsPage p)
    (hd : ∀ p ∈ l ++ [q], p ∉ M) : Seg (readWord mem') head (l ++ [q]) b := by
  obtain ⟨d, hseg⟩ := h.seg (by simp)
  have hq := h.page q (by simp)
  refine hseg.set_last (fun p hp ↦ ?_) ?_
  · have hpp := h.page p (by simp [hp])
    have hne := (List.pairwise_append.mp h.sorted).2.2 p hp q (by simp)
    rw [readWord_page hl hM hpp (hd p (by simp [hp])),
      readWord_writeWord_page hq hpp (ne_of_lt hne)]
  · rw [readWord_page hl hM hq (hd q (by simp)), readWord_writeWord hb]

/-- **`SetupRegion` puts the pages of an entry on the list.** -/
theorem setupRegion_spec {e : MemoryMapEntry} (h : Growing mem head L) (he : Fits L e) :
    ∃ mem', setupRegion mem e.base.toNat e.length.toNat (L.getLastD 0)
        = .ok (mem', e.pages.getLastD 0) ∧
      Growing mem' (if L = [] then e.base.toNat else head) (L ++ e.pages) ∧
      WordsOnly (L ++ e.pages) mem mem' := by
  obtain ⟨l', x, hx, hxend⟩ := he.exists_last
  have hround : e.length.toNat / pageSize < Loop.rounds :=
    (Nat.div_le_self _ _).trans_lt e.length.toNat_lt
  have hadd : add64 e.base.toNat e.length.toNat = e.base.toNat + e.length.toNat :=
    add64_of_lt he.lt
  have hsub : sub64 (e.base.toNat + e.length.toNat) pageSize = e.pages.getLastD 0 := by
    rw [sub64_of_le (by omega) he.lt, hx]
    simp
    omega
  have hpage : ∀ p ∈ L ++ e.pages, IsPage p := fun p hp ↦
    (List.mem_append.mp hp).elim (h.page p) (he.isPage p)
  have hloop : ∀ m, ∃ mem' b, Loop.exec (setupRegionBody (e.base.toNat + e.length.toNat))
      (m, e.base.toNat) = .ok (mem', e.base.toNat + e.length.toNat) ∧
      Seg (readWord mem') e.base.toNat e.pages b ∧ WordsOnly e.pages m mem' := fun _ ↦
    run_setupRegionBody he.lt he.paged.base_aligned he.paged.base_ne he.end_eq hround
  rcases List.eq_nil_or_concat L with rfl | ⟨l, q, rfl⟩
  · obtain ⟨mem', b, hrun, hseg, hl⟩ := hloop mem
    refine ⟨mem', ?_, ⟨fun _ ↦ ⟨b, by simpa using hseg⟩, he.sorted h.sorted, hpage⟩, hl⟩
    simp [setupRegion, hadd, hrun, hsub]
  · simp only [List.concat_eq_append] at *
    obtain ⟨mem', b, hrun, hseg, hl⟩ := hloop (writeWord mem q e.base.toNat)
    have hq := (h.page q (by simp)).pos
    have hlink := h.link e.base.toNat_lt hl he.isPage fun p hp hin ↦
      absurd (he.above p hp) (not_lt.mpr (he.le_of_mem hin))
    refine ⟨mem', ?_, ⟨fun _ ↦ ⟨b, ?_⟩, he.sorted h.sorted, hpage⟩, ?_⟩
    · simp [setupRegion, hq, hadd, hrun, hsub]
    · rw [if_neg (by simp)]
      exact seg_append.mpr ⟨_, hlink, hseg⟩
    · exact (wordsOnly_writeWord (by simp)).trans (hl.mono fun p hp ↦ by simp [hp])

/-! ## The loop over the entries -/

/-- The invariant of the two loops: the pages put up so far are `L`. -/
structure InitInv (mem : Memory) (L : List ℕ) (s : InitState) : Prop where
  /-- The list so far. -/
  growing : Growing s.mem s.listHead L
  /-- The flag says whether there is anything on it. -/
  first : s.firstIteration = decide (L = [])
  /-- The last page is known. -/
  last : s.lastAddr = L.getLastD 0
  /-- The pages are counted. -/
  count : s.freePages = L.length
  /-- Only link words of these pages were written since `mem`. -/
  frame : WordsOnly L mem s.mem

/-- The entry is one of those a loop takes. -/
def Taken (keep : ℕ → Bool) (e : MemoryMapEntry) : Prop :=
  keep (add64 e.base.toNat e.length.toNat) ∧ e.type = .Useable

instance (keep : ℕ → Bool) : DecidablePred (Taken keep) := fun e ↦
  inferInstanceAs (Decidable (keep (add64 e.base.toNat e.length.toNat) ∧ e.type = .Useable))

/-- **One round takes the entry or leaves it.** -/
theorem initialiseEntry_spec {keep : ℕ → Bool} {e : MemoryMapEntry} {s : InitState}
    (h : InitInv mem L s) (he : Taken keep e → Fits L e) :
    ∃ s', initialiseEntry keep s e = .ok s' ∧
      InitInv mem (L ++ if Taken keep e then e.pages else []) s' := by
  by_cases ht : Taken keep e
  · obtain ⟨mem', hset, hg, hl⟩ := setupRegion_spec h.growing (he ht)
    obtain ⟨l', x, hx, -⟩ := (he ht).exists_last
    have hlast : (if s.firstIteration then 0 else s.lastAddr) = L.getLastD 0 := by
      rw [h.first, h.last]
      by_cases hL : L = []
      · simp [hL]
      · simp [hL]
    have hlen : L.length + e.length.toNat / pageSize < 2 ^ 64 := by
      have := length_lt_rounds hg.sorted hg.page
      rwa [List.length_append, MemoryMapEntry.pages, length_pagesFrom] at this
    rw [if_pos ht]
    refine ⟨⟨mem', if s.firstIteration then e.base.toNat else s.listHead, false,
      e.pages.getLastD 0, add64 s.freePages (e.length.toNat / pageSize)⟩, ?_, ?_⟩
    · refine (if_pos ht).trans ?_
      rw [hlast, hset]
      rfl
    · refine ⟨?_, ?_, ?_, ?_, ?_⟩
      · rw [h.first]
        simpa using hg
      · simp [hx]
      · simp [hx]
      · simp only [h.count, List.length_append, MemoryMapEntry.pages, length_pagesFrom]
        exact add64_of_lt hlen
      · exact (h.frame.mono fun p hp ↦ List.mem_append_left _ hp).trans hl
  · rw [if_neg ht, List.append_nil]
    exact ⟨s, if_neg ht, h⟩

/-- The pages a loop puts on its list. -/
def takenPages (keep : ℕ → Bool) (entries : List MemoryMapEntry) : List ℕ :=
  (entries.filter fun e ↦ Taken keep e).flatMap MemoryMapEntry.pages

/-- What the loops rely on: the `Useable` entries are made of pages, end below the top of memory,
and each lies above the earlier ones. -/
def Ascending (entries : List MemoryMapEntry) : Prop :=
  (entries.filter fun e ↦ e.type = .Useable).Pairwise
      (fun e f ↦ e.base.toNat + e.length.toNat ≤ f.base.toNat) ∧
    ∀ e ∈ entries, e.type = .Useable → e.Paged ∧ e.base.toNat + e.length.toNat < 2 ^ 64

theorem foldlM_initialiseEntry (keep : ℕ → Bool) {entries : List MemoryMapEntry} :
    ∀ {s : InitState} {L : List ℕ}, InitInv mem L s → Ascending entries →
      (∀ e ∈ entries, e.type = .Useable → ∀ p ∈ L, p < e.base.toNat) →
      ∃ s', entries.foldlM (initialiseEntry keep) s = .ok s' ∧
        InitInv mem (L ++ takenPages keep entries) s' := by
  induction entries with
  | nil => exact fun {s L} h _ _ ↦ ⟨s, rfl, by simpa [takenPages] using h⟩
  | cons e es ih =>
    intro s L h hasc habove
    have hfits : Taken keep e → Fits L e := fun ht ↦
      ⟨(hasc.2 e (by simp) ht.2).1, (hasc.2 e (by simp) ht.2).2, habove e (by simp) ht.2⟩
    obtain ⟨s₁, hs₁, h₁⟩ := initialiseEntry_spec h hfits
    have hasc' : Ascending es := by
      refine ⟨hasc.1.sublist ?_, fun f hf ↦ hasc.2 f (by simp [hf])⟩
      exact (List.sublist_cons_self e es).filter _
    -- what is taken now lies below all that follows
    have habove' : ∀ f ∈ es, f.type = .Useable →
        ∀ p ∈ L ++ (if Taken keep e then e.pages else []), p < f.base.toNat := by
      intro f hf hfu p hp
      rcases List.mem_append.mp hp with hp | hp
      · exact habove f (by simp [hf]) hfu p hp
      · split at hp
        · rename_i ht
          have hle : e.base.toNat + e.length.toNat ≤ f.base.toNat := by
            have hpw := hasc.1
            rw [List.filter_cons, if_pos (by simpa using ht.2)] at hpw
            exact (List.pairwise_cons.mp hpw).1 f (by simp [hf, hfu])
          have hend := (hfits ht).end_eq
          have := (lt_of_mem_pagesFrom hp).2
          omega
        · simp at hp
    obtain ⟨s', hs', h'⟩ := ih h₁ hasc' habove'
    refine ⟨s', ?_, ?_⟩
    · rw [List.foldlM_cons, hs₁, Exec.ok_bind, hs']
    · rw [List.append_assoc] at h'
      convert h' using 2
      by_cases ht : Taken keep e <;> simp [takenPages, ht]

/-- **One of the two loops, with the null at the end.** -/
theorem initialiseEntries_spec {entries : List MemoryMapEntry} (h : Ascending entries)
    (keep : ℕ → Bool) (mem : Memory) (head : ℕ) :
    ∃ s, initialiseEntries keep entries mem head 0 = .ok s ∧
      FreeList s.mem s.listHead (takenPages keep entries) ∧
      s.freePages = (takenPages keep entries).length ∧
      WordsOnly (takenPages keep entries) mem s.mem := by
  have h0 : InitInv mem [] ⟨mem, head, true, 0, 0⟩ :=
    ⟨⟨fun hne ↦ absurd rfl hne, List.Pairwise.nil, by simp⟩, rfl, rfl, rfl, WordsOnly.refl _ _⟩
  obtain ⟨s, hs, hinv⟩ := foldlM_initialiseEntry keep h0 h (by simp)
  rw [List.nil_append] at hinv
  obtain ⟨hseg, hsorted, hpage⟩ := hinv.growing
  rcases List.eq_nil_or_concat (takenPages keep entries) with hL | ⟨l, q, hL⟩
  · rw [hL] at hinv ⊢
    have hlast : s.lastAddr = 0 := hinv.last
    refine ⟨{ s with listHead := 0 }, ?_, ⟨rfl, List.Pairwise.nil, by simp⟩, hinv.count,
      hinv.frame⟩
    simp [initialiseEntries, hs, hlast]
  · simp only [List.concat_eq_append] at hL
    rw [hL] at hinv hseg hsorted hpage ⊢
    have hlast : s.lastAddr = q := by simpa using hinv.last
    have hq := hpage q (by simp)
    obtain ⟨b, hseg⟩ := hseg (by simp)
    refine ⟨{ s with mem := writeWord s.mem q 0 }, ?_, ⟨?_, hsorted, hpage⟩, hinv.count,
      hinv.frame.trans (wordsOnly_writeWord (by simp))⟩
    · simp [initialiseEntries, hs, hlast, hq.pos]
    · refine hseg.set_last (fun p hp ↦ ?_) (readWord_writeWord (by decide))
      have hne := (List.pairwise_append.mp hsorted).2.2 p hp q (by simp)
      exact readWord_writeWord_page hq (hpage p (by simp [hp])) (ne_of_lt hne)

/-! ## `Init` -/

/-- The pages that `Init` puts on the list of `Head()`: those of the `Useable` entries that end
above `CUTOFF`. -/
def highPages (m : MemoryMap) : List ℕ :=
  (m.useable.filter fun e ↦ cutoff < e.base.toNat + e.length.toNat).flatMap MemoryMapEntry.pages

/-- The pages that `Init` puts on the list of `LowHead()`. -/
def lowPages (m : MemoryMap) : List ℕ :=
  (m.useable.filter fun e ↦ e.base.toNat + e.length.toNat ≤ cutoff).flatMap MemoryMapEntry.pages

section Init

variable {m : MemoryMap}

theorem ascending_entries (h : m.Wellformed) (ht : m.BelowTop) : Ascending m.entries :=
  ⟨h.end_le, fun e he hu ↦ ⟨h.paged e (by simp [MemoryMap.useable, he, hu]),
    ht e (by simp [MemoryMap.useable, he, hu])⟩⟩

/-- The entries a loop takes are those whose end passes its test. -/
theorem takenPages_eq {keep : ℕ → Bool} (ht : m.BelowTop) :
    takenPages keep m.entries
      = (m.useable.filter fun e ↦ keep (e.base.toNat + e.length.toNat)).flatMap
        MemoryMapEntry.pages := by
  rw [takenPages, MemoryMap.useable, List.filter_filter]
  congr 1
  refine List.filter_congr fun e he ↦ ?_
  by_cases hu : e.type = .Useable
  · have hlt := ht e (by simp [MemoryMap.useable, he, hu])
    simp [Taken, hu, add64_of_lt hlt]
  · simp [Taken, hu]

/-- The pages of the `Useable` entries ascend. -/
theorem pairwise_useablePages (h : m.Wellformed) : m.useablePages.Pairwise (· < ·) := by
  refine List.pairwise_flatMap.mpr ⟨fun e _ ↦ pairwise_pagesFrom _ _, ?_⟩
  refine h.end_le.imp fun {e f} hef p hp q hq ↦ ?_
  have h1 := (lt_of_mem_pagesFrom hp).2
  have h2 := (lt_of_mem_pagesFrom hq).1
  have h3 := Nat.div_mul_le_self e.length.toNat pageSize
  omega

theorem isPage_of_mem_useablePages (h : m.Wellformed) (ht : m.BelowTop) {p : ℕ}
    (hp : p ∈ m.useablePages) : IsPage p := by
  obtain ⟨e, he, hp⟩ := List.mem_flatMap.mp hp
  exact MemoryMapEntry.isPage_of_mem_pages (h.paged e he) (ht e he) hp

/-- **Every page goes to exactly one of the two lists.** -/
theorem highPages_append_lowPages_perm : (highPages m ++ lowPages m).Perm m.useablePages := by
  rw [highPages, lowPages, ← List.flatMap_append, MemoryMap.useablePages]
  refine List.Perm.flatMap_right _ ?_
  have hperm := List.filter_append_perm (fun e : MemoryMapEntry ↦
    decide (cutoff < e.base.toNat + e.length.toNat)) m.useable
  convert hperm using 3
  funext e
  rw [← decide_not, decide_eq_decide]
  exact not_lt.symm

/-- **`Init` sets up the two lists**, whatever memory held before. -/
theorem init_spec (h : m.Wellformed) (ht : m.BelowTop) (fl : Freelist) :
    ∃ fl', init m fl = .ok fl' ∧ FreeList fl'.mem fl'.head (highPages m) ∧
      FreeList fl'.mem fl'.lowHead (lowPages m) ∧ fl'.freePagesTop = (highPages m).length ∧
      fl'.freePagesLow = (lowPages m).length := by
  have hasc := ascending_entries h ht
  obtain ⟨s, hs, hlist, hcount, -⟩ := initialiseEntries_spec hasc
    (fun top ↦ decide (cutoff < top)) fl.mem fl.head
  obtain ⟨s', hs', hlist', hcount', hl⟩ := initialiseEntries_spec hasc
    (fun top ↦ decide (top ≤ cutoff)) s.mem fl.lowHead
  rw [takenPages_eq ht] at hlist hcount hlist' hcount' hl
  have hnd := highPages_append_lowPages_perm.nodup_iff.mpr
    ((pairwise_useablePages h).imp ne_of_lt)
  have hdisj := (List.nodup_append.mp hnd).2.2
  refine ⟨⟨s'.mem, s.listHead, s'.listHead, s.freePages, s'.freePages⟩, ?_, ?_, hlist', hcount,
    hcount'⟩
  · simp [init, initialiseList, initialiseLowList, hs, hs']
  · exact hlist.frame hl hlist'.page fun p hp hp' ↦ hdisj p hp p hp' rfl

end Init

end Chisaka.PageAllocators
