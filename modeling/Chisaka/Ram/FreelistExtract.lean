import Chisaka.Ram.FreelistPool

/-!
# Extracting a block that may not be there

`AllocatePages` extracts blocks that it has found on the list.  `Extract` is also called with
addresses that nobody has looked up, and `ExtractImpl` treats these differently:

* It walks while `next < pageaddr` without asking whether there is a next entry, so that behind the
  last entry it follows the null link (`extractImpl_past`), unless the list has one entry at most.
* It removes a block by following as many links as there are pages to remove.  If the block is on
  the list only in part, these lead out of the block (`extractImpl_mem`), or behind the last entry
  (`extractImpl_short`).

`extract_extracts_iff` is the condition under which what happens is the removal of a block.
-/

set_option autoImplicit false

namespace Chisaka.PageAllocators

open Bytes Chain

variable {mem mem' : Memory} {fl : Freelist} {head a n : ℕ} {L L' : List ℕ}

/-! ## A block that is not on the list -/

/-- Between two entries there is nothing to extract, nor on a list that is too short for a walk. -/
theorem extractImpl_absent (h : FreeList mem head L) (ha : a ∉ L)
    (hstop : L.length < 2 ∨ ∃ q ∈ L, a < q) : extractImpl mem head a n = .ok (mem, head) := by
  match L, h with
  | [], h =>
    obtain rfl : head = 0 := h.seg
    rfl
  | [p], h =>
    obtain ⟨rfl, hend⟩ : head = p ∧ readWord mem p = 0 := h.seg
    have hp := (h.page head List.mem_cons_self).pos
    have hne : head ≠ a := fun he ↦ ha (he ▸ List.mem_cons_self)
    simp [extractImpl, hp, hne, hend]
  | p :: q :: rest, h =>
    obtain ⟨rfl, hseg⟩ : head = p ∧ Seg (readWord mem) (readWord mem p) (q :: rest) 0 := h.seg
    obtain ⟨hlt, hsorted⟩ := List.pairwise_cons.mp h.sorted
    have hp := (h.page head List.mem_cons_self).pos
    have hne : head ≠ a := fun he ↦ ha (he ▸ List.mem_cons_self)
    have hnext : readWord mem head ≠ 0 := by
      rw [show readWord mem head = q from hseg.1]
      exact (h.page q (by simp)).pos
    -- what the walk passes, and what it stops at
    obtain ⟨l, m, hL, hl, hm⟩ := exists_split hsorted a
    have habove : ∃ r ∈ q :: rest, a ≤ r := by
      obtain ⟨r, hr, har⟩ := hstop.resolve_left (by simp)
      rcases List.mem_cons.mp hr with rfl | hr
      · exact ⟨q, List.mem_cons_self, (har.trans (hlt q List.mem_cons_self)).le⟩
      · exact ⟨r, hr, har.le⟩
    have hm0 : m ≠ [] := by
      rintro rfl
      obtain ⟨r, hr, har⟩ := habove
      rw [hL, List.append_nil] at hr
      exact absurd (hl r hr) (not_lt.mpr har)
    obtain ⟨c, m, rfl⟩ := List.exists_cons_of_ne_nil hm0
    have hc : a < c := by
      refine lt_of_le_of_ne (hm c List.mem_cons_self) fun he ↦ ha ?_
      rw [hL, he]
      simp
    have hpos : ∀ r ∈ l, r ≠ 0 := fun r hr ↦
      (h.page r (List.mem_cons_of_mem head (by rw [hL]; simp [hr]))).pos
    have hlen : l.length < Loop.rounds := by
      have hlt := h.length_lt
      rw [hL, List.length_cons, List.length_append] at hlt
      omega
    rw [hL] at hseg
    have hwalk := run_extractBody (fun r hr ↦ ⟨hpos r hr, hl r hr⟩) hm (by simp) head hseg hlen
    have hexec : Loop.exec (extractBody mem a) (head, readWord mem head)
        = .ok ((head :: l).getLast (List.cons_ne_nil _ _), c) := hwalk
    simp [extractImpl, hp, hne, hnext, hexec, hc]

/-- **The walk does not stop at the end of the list.** -/
theorem run_extractBody_past {l : List ℕ} (ha : 0 < a) (hl : ∀ q ∈ l, q ≠ 0 ∧ q < a) :
    ∀ {k cur : ℕ} (prev : ℕ), Seg (readWord mem) cur l 0 → l.length < k →
      Loop.run (extractBody mem a) k (prev, cur) = .error .nullDeref := by
  induction l with
  | nil =>
    intro k cur prev hseg hk
    obtain ⟨k, rfl⟩ := Nat.exists_eq_succ_of_ne_zero (Nat.ne_of_gt hk)
    obtain rfl : cur = 0 := hseg
    exact Loop.run_error (by simp [extractBody, ha]) k
  | cons q l ih =>
    intro k cur prev hseg hk
    obtain ⟨k, rfl⟩ := Nat.exists_eq_succ_of_ne_zero (Nat.ne_of_gt (Nat.zero_lt_of_lt hk))
    obtain ⟨rfl, hseg⟩ : cur = q ∧ Seg (readWord mem) (readWord mem q) l 0 := hseg
    obtain ⟨hpos, hlt⟩ := hl cur List.mem_cons_self
    have hbody : extractBody mem a (prev, cur) = .ok (.inl (cur, readWord mem cur)) := by
      simp [extractBody, hlt, hpos]
    rw [Loop.run_inl hbody]
    exact ih (fun r hr ↦ hl r (List.mem_cons_of_mem cur hr)) cur hseg (Nat.lt_of_succ_lt_succ hk)

/-- **Behind the last of two or more entries the null link is followed.** -/
theorem extractImpl_past (h : FreeList mem head L) (hlen : 2 ≤ L.length) (hlt : ∀ q ∈ L, q < a) :
    extractImpl mem head a n = .error .nullDeref := by
  obtain ⟨p, L, rfl⟩ := List.exists_cons_of_length_pos (Nat.zero_lt_of_lt hlen)
  obtain ⟨q, rest, rfl⟩ := List.exists_cons_of_length_pos (Nat.lt_of_succ_lt_succ hlen)
  obtain ⟨rfl, hseg⟩ : head = p ∧ Seg (readWord mem) (readWord mem p) (q :: rest) 0 := h.seg
  have hp := (h.page head List.mem_cons_self).pos
  have hne : head ≠ a := ne_of_lt (hlt head List.mem_cons_self)
  have hnext : readWord mem head ≠ 0 := by
    rw [show readWord mem head = q from hseg.1]
    exact (h.page q (by simp)).pos
  have hrounds : (q :: rest).length < Loop.rounds := Nat.lt_of_succ_lt h.length_lt
  have hwalk : Loop.exec (extractBody mem a) (head, readWord mem head) = .error .nullDeref :=
    run_extractBody_past (Nat.zero_lt_of_lt (hlt head List.mem_cons_self))
      (fun r hr ↦ ⟨(h.page r (List.mem_cons_of_mem head hr)).pos,
        hlt r (List.mem_cons_of_mem head hr)⟩) head hseg hrounds
  simp [extractImpl, hp, hne, hnext, hwalk]

/-! ## A block that starts on the list -/

/-- More links than there are entries lead through null. -/
theorem nextFrees_short {l : List ℕ} (h : Seg (readWord mem) a l 0) (hn : l.length < n)
    (hl : ∀ q ∈ l, q ≠ 0) : nextFrees mem n a = .error .nullDeref := by
  induction l generalizing a n with
  | nil =>
    obtain ⟨n, rfl⟩ := Nat.exists_eq_succ_of_ne_zero (Nat.ne_of_gt hn)
    obtain rfl : a = 0 := h
    simp [nextFrees]
  | cons q l ih =>
    obtain ⟨n, rfl⟩ := Nat.exists_eq_succ_of_ne_zero (Nat.ne_of_gt (Nat.zero_lt_of_lt hn))
    obtain ⟨rfl, h⟩ : a = q ∧ Seg (readWord mem) (readWord mem q) l 0 := h
    rw [nextFrees, load_of_ne (hl a List.mem_cons_self), Exec.ok_bind]
    exact ih h (Nat.lt_of_succ_lt_succ hn) fun r hr ↦ hl r (List.mem_cons_of_mem a hr)

theorem extractImpl_short {l r : List ℕ} (h : FreeList mem head (l ++ a :: r))
    (hn : (a :: r).length < n) : extractImpl mem head a n = .error .nullDeref := by
  obtain ⟨c, hsegl, hsegr⟩ := seg_append.mp h.seg
  obtain rfl : c = a := hsegr.1
  have hadv : nextFrees mem n c = .error .nullDeref :=
    nextFrees_short hsegr hn fun q hq ↦ (h.page q (List.mem_append_right l hq)).pos
  rcases List.eq_nil_or_concat l with rfl | ⟨l, q, rfl⟩
  · obtain rfl : head = c := hsegl
    have hp := (h.page head (by simp)).pos
    simp [extractImpl, hp, hadv]
  · simp only [List.concat_eq_append, List.append_assoc, List.cons_append, List.nil_append] at h
    have hhead : head ≠ 0 := h.seg.ne_end (by simp) h.null_notMem
    obtain ⟨hne, hnext, hwalk⟩ := h.exec_extractBody
    simp [extractImpl, hhead, hne, hnext, hwalk, hadv]

/-- **As many entries are removed as there are pages in the block**, wherever they are. -/
theorem extractImpl_mem {l r : List ℕ} (h : FreeList mem head (l ++ a :: r))
    (hn : n ≤ (a :: r).length) : ∃ mem' head', extractImpl mem head a n = .ok (mem', head') ∧
      FreeList mem' head' (l ++ (a :: r).drop n) := by
  have htake : (a :: r).take n ++ (a :: r).drop n = a :: r := List.take_append_drop n (a :: r)
  have h' : FreeList mem head (l ++ ((a :: r).take n ++ (a :: r).drop n)) := by rwa [htake]
  obtain ⟨mem', head', he, hf, -⟩ := extractImpl_spec h' (by rw [htake]; rfl)
  rw [List.length_take_of_le hn] at he
  exact ⟨mem', head', he, hf⟩

/-- **Removing as many entries as the block has pages removes the block only if all of it is
listed.** -/
theorem listed_of_drop {l r : List ℕ} (h : FreeList mem head (l ++ a :: r))
    (hn : n ≤ (a :: r).length) (he : l ++ (a :: r).drop n = without (l ++ a :: r) a n) :
    Listed (l ++ a :: r) a n := by
  have hnd : (l ++ a :: r).Nodup := h.sorted.imp ne_of_lt
  have htake : (a :: r).take n ++ (a :: r).drop n = a :: r := List.take_append_drop n (a :: r)
  have hsplit : (l ++ ((a :: r).take n ++ (a :: r).drop n)).Nodup := by rwa [htake]
  -- the removed entries are different pages of the block, and there are enough of them
  have hsub : (a :: r).take n ⊆ pagesFrom a n := by
    intro q hq
    have hqL : q ∈ l ++ a :: r := List.mem_append_right l (List.mem_of_mem_take hq)
    have hq' : q ∉ without (l ++ a :: r) a n := by
      rw [← he]
      obtain ⟨-, hr, hlr⟩ := List.nodup_append.mp hsplit
      have hd := (List.nodup_append.mp hr).2.2
      intro hmem
      rcases List.mem_append.mp hmem with hmem | hmem
      · exact hlr q hmem q (List.mem_append_left _ hq) rfl
      · exact hd q hq q hmem rfl
    have hin := fun hout ↦ hq' (mem_without.mpr ⟨hqL, hout⟩)
    exact mem_pagesFrom_of_mem (h.page a (by simp)).aligned (h.page q hqL).aligned
      (by by_contra hlt; exact hin (.inl (by omega)))
      (by by_contra hge; exact hin (.inr (by omega)))
  have hnd' : ((a :: r).take n).Nodup :=
    (List.nodup_append.mp (List.nodup_append.mp hsplit).2.1).1
  have hperm : ((a :: r).take n).Perm (pagesFrom a n) := by
    refine (hnd'.subperm hsub).perm_of_length_le ?_
    rw [length_pagesFrom, List.length_take_of_le hn]
  exact fun q hq ↦ List.mem_append_right l (List.mem_of_mem_take (hperm.symm.subset hq))

/-! ## `Extract` -/

/-- `Extract(a, n)` returns, with the listed pages of the block removed from the list of `a` if `a`
is on it, and with that list as it was if `a` is not; a list that shares no page with it stays. -/
def Extracts (fl : Freelist) (a n : ℕ) (L L' : List ℕ) : Prop :=
  ∃ fl', extract a n fl = .ok fl' ∧
    FreeList fl'.mem (fl'.headOf (side a)) (if a ∈ L then without L a n else L) ∧
    ((∀ q ∈ L, q ∉ L') → FreeList fl'.mem (fl'.headOf (side a).other) L')

theorem extract_of_error {e : Fault}
    (h : extractImpl fl.mem (fl.headOf (side a)) a n = .error e) :
    extract a n fl = .error e := by
  by_cases ha : a ≤ cutoff
  · have hs : side a = .LOW := if_pos ha
    rw [hs] at h
    have h' : extractImpl fl.mem fl.lowHead a n = .error e := h
    simp [extract, ha, h']
  · have hs : side a = .Z := if_neg ha
    rw [hs] at h
    have h' : extractImpl fl.mem fl.head a n = .error e := h
    simp [extract, ha, h']

/-- The routine answers for the list it is given, and the other list is framed. -/
theorem extracts_of_ok (h : FreeList fl.mem (fl.headOf (side a)) L)
    (h' : FreeList fl.mem (fl.headOf (side a).other) L')
    (he : extractImpl fl.mem (fl.headOf (side a)) a n = .ok (mem, head))
    (hf : FreeList mem head (if a ∈ L then without L a n else L)) (hw : WordsOnly L fl.mem mem) :
    Extracts fl a n L L' := by
  refine ⟨_, extract_of_ok he, ?_, fun hd ↦ ?_⟩
  · rw [Freelist.mem_setList, Freelist.headOf_setList, Function.update_self]
    exact hf
  · rw [Freelist.mem_setList, Freelist.headOf_setList,
      Function.update_of_ne (RamOptions.other_ne _)]
    exact h'.frame hw h.page fun q hq hq' ↦ hd q hq' hq

theorem not_extracts_of_error {e : Fault}
    (h : extractImpl fl.mem (fl.headOf (side a)) a n = .error e) : ¬Extracts fl a n L L' := by
  rintro ⟨fl', he, -⟩
  rw [extract_of_error h] at he
  cases he

/-- **`Extract` removes what is listed of a block** exactly if all of it is listed, or, when its
first page is not listed, if the list has a page behind that or has one entry at most. -/
theorem extract_extracts_iff (fl : Freelist) {a n : ℕ} {L L' : List ℕ}
    (h : FreeList fl.mem (fl.headOf (side a)) L)
    (h' : FreeList fl.mem (fl.headOf (side a).other) L') :
    Extracts fl a n L L' ↔
      if a ∈ L then Listed L a n else L.length < 2 ∨ ∃ q ∈ L, a < q := by
  by_cases haL : a ∈ L
  · rw [if_pos haL]
    constructor
    · intro hex
      obtain ⟨l, r, rfl⟩ := List.append_of_mem haL
      by_cases hlen : n ≤ (a :: r).length
      · obtain ⟨mem, head, he, hf⟩ := extractImpl_mem h hlen
        obtain ⟨fl', hfl, hf', -⟩ := hex
        obtain rfl := Except.ok.inj ((extract_of_ok he).symm.trans hfl)
        rw [Freelist.mem_setList, Freelist.headOf_setList, Function.update_self,
          if_pos haL] at hf'
        exact listed_of_drop h hlen (hf.unique hf')
      · exact absurd hex (not_extracts_of_error (extractImpl_short h (not_le.mp hlen)))
    · intro hlisted
      obtain ⟨mem, head, he, hf, hw⟩ := extractImpl_listed h haL hlisted
      exact extracts_of_ok h h' he (by rwa [if_pos haL]) hw
  · rw [if_neg haL]
    constructor
    · intro hex
      by_contra hno
      obtain ⟨hlen, hle⟩ := not_or.mp hno
      have hlt : ∀ q ∈ L, q < a := by
        intro q hq
        by_contra hge
        rcases Nat.lt_or_eq_of_le (not_lt.mp hge) with hgt | rfl
        · exact hle ⟨q, hq, hgt⟩
        · exact haL hq
      exact not_extracts_of_error (extractImpl_past h (not_lt.mp hlen) hlt) hex
    · intro hstop
      exact extracts_of_ok h h' (extractImpl_absent h haL hstop) (by rwa [if_neg haL])
        (WordsOnly.refl L fl.mem)

/-- Three free pages below 4 GiB, with a gap behind the first. -/
def gapPages : Freelist :=
  ⟨writeWord (writeWord (fun _ ↦ 0) 0x1000 0x3000) 0x3000 0x4000, 0, 0x1000, 0, 3⟩

theorem freeList_gapPages :
    FreeList gapPages.mem (gapPages.headOf .LOW) [0x1000, 0x3000, 0x4000] := by
  refine ⟨⟨rfl, by decide, by decide, ?_⟩, by decide, by decide⟩
  show readWord gapPages.mem 0x4000 = 0
  decide

theorem freeList_high_gapPages : FreeList gapPages.mem (gapPages.headOf .Z) [] :=
  ⟨rfl, by simp, by simp⟩

theorem extract_extracts_gapPages : Extracts gapPages 0x3000 2 [0x1000, 0x3000, 0x4000] [] :=
  (extract_extracts_iff gapPages (a := 0x3000) freeList_gapPages
    freeList_high_gapPages).mpr (by decide)

/-- **An address above the list is a null dereference**, and a block with a gap takes the page
behind it. -/
theorem not_extracts_gapPages :
    (¬∀ (fl : Freelist) (a n : ℕ) (L L' : List ℕ), IsPage a → 1 ≤ n →
      FreeList fl.mem (fl.headOf (side a)) L → FreeList fl.mem (fl.headOf (side a).other) L' →
      Extracts fl a n L L') ∧
    extract 0x5000 1 gapPages = .error .nullDeref ∧
      ∃ fl', extract 0x1000 2 gapPages = .ok fl' ∧ fl'.lowHead = 0x4000 := by
  have hpast : extractImpl gapPages.mem (gapPages.headOf (side 0x5000)) 0x5000 1
      = .error .nullDeref :=
    extractImpl_past (L := [0x1000, 0x3000, 0x4000]) freeList_gapPages (by decide) (by decide)
  refine ⟨fun hall ↦ ?_, extract_of_error hpast, ?_⟩
  · exact not_extracts_of_error hpast (hall gapPages 0x5000 1 _ [] (by decide) (by decide)
      freeList_gapPages freeList_high_gapPages)
  · obtain ⟨mem, head, he, hf⟩ :=
      extractImpl_mem (l := []) (a := 0x1000) (n := 2) freeList_gapPages (by decide)
    exact ⟨_, extract_of_ok he, hf.head_eq⟩

end Chisaka.PageAllocators
