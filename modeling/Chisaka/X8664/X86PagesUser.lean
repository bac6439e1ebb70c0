import Chisaka.X8664.X86PagesMap

/-!
# Pages for users

The processor lets a user program use a page if all four entries on the way to it say so.
`UserPath` is that condition.  The entries that `MapUserPage` makes are made for users; an upper
entry that is there already stays as it is, whatever its flags are.

The tables that are missing are made of pages as the allocator hands them out, and of what is left
in such a page one word matters: the entry that the way takes in it (`Passable`).  Whatever the
other words are, the new tables hang below one another (`descend_new`), and the flags that count are
those of the entries that were there, `Granted` (`descend_userPath`).  `mapUserPage_userMapped` puts
this together with the number of pages that are needed.
-/

set_option autoImplicit false

namespace X8664

open Bytes Chisaka Chisaka.PageAllocators Walk

variable {mem : Memory} {fl fl' : Freelist} {pml4 table page b pt k : ℕ} {i j : Index}
  {K : Set Index} {p is : List Index} {S : List ℕ} {v pageBase : BitVec 64}

/-- What the processor asks of an entry. -/
structure UserEntry (buffer : BitVec 64) : Prop where
  /-- It is present. -/
  present : isPresent buffer
  /-- It can be written through. -/
  writeable : isWriteable buffer
  /-- Users may pass. -/
  userAccessible : isUserAccessible buffer

theorem userEntry_createUser (base : BitVec 64) : UserEntry (initialiseBuffer base userFlags) :=
  ⟨isPresent_initialiseBuffer base, isWriteable_initialiseBuffer base,
    isUserAccessible_initialiseBuffer base⟩

/-- All entries on a way down, the one in the page table included, let users pass. -/
def UserPath (mem : Memory) : ℕ → List Index → Index → Prop
  | pt, [], j => UserEntry (entryWord mem pt j.toNat)
  | table, i :: is, j =>
    UserEntry (upperEntry mem table i).buffer ∧
      UserPath mem (upperEntry mem table i).baseAddress.toNat is j

/-- **The upper entries that are there let users pass**, down to the first one that is not
there. -/
def Granted (mem : Memory) : ℕ → List Index → Prop
  | _, [] => True
  | table, i :: is => ∀ b, child mem table i = some b →
    isWriteable (upperEntry mem table i).buffer ∧
      isUserAccessible (upperEntry mem table i).buffer ∧ Granted mem b is

/-- There is nothing to grant in a table without entries. -/
theorem Granted.of_absent (h : ∀ i ∈ is.head?, child mem table i = none) :
    Granted mem table is := by
  cases is with
  | nil => trivial
  | cons i is =>
    intro b hb
    rw [h i rfl] at hb
    cases hb

/-! ## New tables -/

/-- **The first pages of the supply can become the tables of the missing steps**: their addresses
fit in an entry, and where the way goes on in an upper one there is no present entry.  Its first
word is cleared when it is handed out, and what the page table holds does not matter. -/
structure Passable (mem : Memory) (is : List Index) (S : List ℕ) : Prop where
  /-- The addresses fit in an entry. -/
  lt : ∀ page ∈ S.take is.length, page < 2 ^ 40
  /-- The way finds no entry. -/
  absent : ∀ n page i, S[n]? = some page → is[n + 1]? = some i → i ≠ 0 →
    isPresent (entryWord mem page i.toNat) = false

namespace Passable

theorem tail (h : Passable mem (i :: is) (page :: S)) : Passable mem is S where
  lt q hq := h.lt q (by rw [List.length_cons, List.take_succ_cons]; exact .tail _ hq)
  absent n q i' hq hi := h.absent (n + 1) q i' hq hi

theorem congr {mem' : Memory} (h : Passable mem is S)
    (hw : ∀ p ∈ S, ∀ j : Index, entryWord mem' p j.toNat = entryWord mem p j.toNat) :
    Passable mem' is S where
  lt := h.lt
  absent n q i hq hi h0 := by
    rw [hw q (List.mem_of_getElem? hq)]
    exact h.absent n q i hq hi h0

/-- Pages without entries can be gone through. -/
theorem of_clean (h : Clean mem K is.length S) : Passable mem is S where
  lt := h.lt
  absent n q i hq hi h0 := by
    have hn : n + 1 < is.length := (List.getElem?_eq_some_iff.mp hi).1
    exact h.absent n q (by omega) hq i h0 fun hk ↦ absurd hk (by omega)

end Passable

/-- **A step that makes a table** of the next page of the supply. -/
structure NewTable (table : ℕ) (i : Index) (is : List Index) (page : ℕ) (S : List ℕ)
    (fl fl' : Freelist) : Prop where
  /-- The page becomes the next table. -/
  next : X86Pages.nextTable fl table (i.setWidth 16) = .ok (page, fl')
  /-- The entry is for users. -/
  entry : upperEntry fl'.mem table i = UpperPageEntry.createUser (BitVec.ofNat 64 page)
  /-- The entries of other pages stay. -/
  keeps : ∀ b, IsPage b → b ≠ page → b ≠ table → ∀ j : Index,
    entryWord fl'.mem b j.toNat = entryWord fl.mem b j.toNat
  /-- The other pages are left. -/
  supply : Supply fl' S
  /-- The way finds no entry in the new table, -/
  absent : ∀ i' ∈ is.head?, child fl'.mem page i' = none
  /-- nor in those that are made next. -/
  passable : Passable fl'.mem is S

theorem exists_newTable (htab : IsPage table) (hS : Supply fl (page :: S)) (htS : table ∉ page :: S)
    (hnone : child fl.mem table i = none) (hc : Passable fl.mem (i :: is) (page :: S)) :
    ∃ fl', NewTable table i is page S fl fl' := by
  obtain ⟨hpt, htS⟩ := List.ne_and_not_mem_of_not_mem_cons htS
  obtain ⟨hpS, -⟩ := List.nodup_cons.mp hS.nodup
  have hp := hS.isPage List.mem_cons_self
  have hlt := hc.lt page (by simp)
  obtain ⟨fl₁, ha, hS₁⟩ := hS.cons
  have hnext := nextTable_of_eq_none htab.pos hnone ha
  rw [toNat_baseAddress_createUser hp hlt] at hnext
  have hout : ∀ q ∈ S, IsPage q ∧ q ≠ page ∧ q ≠ table := fun q hq ↦
    ⟨hS.isPage (List.mem_cons_of_mem page hq), fun he ↦ hpS (he ▸ hq), fun he ↦ htS (he ▸ hq)⟩
  have hkeeps : ∀ b, IsPage b → b ≠ page → b ≠ table → ∀ j : Index,
      entryWord (linked fl₁.mem table i page) b j.toNat = entryWord fl.mem b j.toNat :=
    fun b hb hbp hbt j ↦ entryWord_linked hp ha htab hb hbp (.inl hbt)
  refine ⟨_, hnext, upperEntry_linked, hkeeps, hS₁.congr fun q hq ↦ ?_, fun i' hi' ↦ ?_,
    hc.tail.congr fun q hq j ↦ hkeeps q (hout q hq).1 (hout q hq).2.1 (hout q hq).2.2 j⟩
  · obtain ⟨hq, -, hqt⟩ := hout q hq
    exact readWord_writeWord_of_disjoint
      (entryAddress_disjoint (j := 0) htab.aligned hq.aligned i.lt (by decide) (.inl hqt))
  · refine child_of_not_isPresent ?_
    rw [UpperPageEntry.isPresent, upperEntry, entryWord_linked_page hp htab hpt.symm]
    by_cases h0 : i' = 0
    · have hzero : entryWord (writeWord fl.mem page 0) page (0 : Index).toNat = 0 :=
        entryWord_writeWord fl.mem page 0 0
      rw [mem_of_allocatePage ha hp.pos, h0, hzero]
      decide
    · rw [entryWord_of_allocatePage ha hp h0, hc.absent 0 page i' rfl (by
        rw [List.getElem?_cons_succ, ← List.head?_eq_getElem?]; exact hi') h0]
      exact Bool.false_ne_true

/-- The entry that was made last lets users pass. -/
theorem userPath_nil (mem : Memory) (pt : ℕ) (j : Index) (pageBase : BitVec 64) :
    UserPath (mapped mem pt j pageBase) pt [] j := by
  rw [UserPath, mapped, entryWord_writeWord]
  exact userEntry_createUser pageBase

/-- Where going down has led: to a page table, below which the way is for users if `P` holds. -/
structure Below (table : ℕ) (is : List Index) (P : Prop) (pt : ℕ) (fl' : Freelist) : Prop where
  /-- The page table is a page. -/
  isPage : IsPage pt
  /-- The way is for users. -/
  user : ∀ j pageBase, UserPath (mapped fl'.mem pt j pageBase) table is j ↔ P

/-- The last entry is made in another page. -/
theorem upperEntry_mapped_of_ne (hpt : IsPage pt) (htab : IsPage table) (hne : table ≠ pt) :
    upperEntry (mapped mem pt j pageBase) table i = upperEntry mem table i :=
  congrArg UpperPageEntry.mk
    (entryWord_writeWord_of_ne hpt.aligned htab.aligned j.lt i.lt (.inl hne))

/-- An entry that was there, and stays, lets users pass if it did before. -/
theorem userPath_cons {mem' : Memory} (hchild : child mem table i = some b)
    (hentry : upperEntry mem' table i = upperEntry mem table i)
    (hbelow : UserPath mem' b is j ↔ Granted mem b is) :
    UserPath mem' table (i :: is) j ↔ Granted mem table (i :: is) := by
  obtain ⟨hpres, hbase⟩ := upperEntry_of_eq_some hchild
  rw [UserPath, hentry, hbase, hbelow, Granted, hchild]
  constructor
  · rintro ⟨he, hg⟩ b' hb'
    cases hb'
    exact ⟨he.writeable, he.userAccessible, hg⟩
  · intro h
    obtain ⟨hw, hu, hg⟩ := h b rfl
    exact ⟨⟨hpres, hw, hu⟩, hg⟩

/-- **New tables hang below one another**, whatever is left in them off the way. -/
theorem descend_new (htab : IsPage table) (hS : Supply fl S) (htS : table ∉ S)
    (hlen : is.length ≤ S.length) (hnone : ∀ i ∈ is.head?, child fl.mem table i = none)
    (hc : Passable fl.mem is S) :
    ∃ pt fl', descend table is fl = .ok (pt, fl') ∧ Below table is True pt fl' ∧
      (pt = table ∨ pt ∈ S) ∧ ∀ b, IsPage b → b ∉ S → b ≠ table → ∀ j : Index,
        entryWord fl'.mem b j.toNat = entryWord fl.mem b j.toNat := by
  induction is generalizing table fl S with
  | nil => exact ⟨table, fl, rfl, ⟨htab, fun j pageBase ↦ iff_of_true
      (userPath_nil fl.mem table j pageBase) trivial⟩, .inl rfl, fun _ _ _ _ _ ↦ rfl⟩
  | cons i is ih =>
    obtain ⟨page, S, rfl⟩ : ∃ page S', S = page :: S' :=
      List.exists_cons_of_ne_nil fun h0 ↦ by simp [h0] at hlen
    obtain ⟨fl₁, h⟩ := exists_newTable htab hS htS (hnone i rfl) hc
    obtain ⟨hpS, -⟩ := List.nodup_cons.mp hS.nodup
    have hp := hS.isPage List.mem_cons_self
    obtain ⟨htp, htS'⟩ := List.ne_and_not_mem_of_not_mem_cons htS
    obtain ⟨pt, fl', hd, hbelow, hfrom, hkeeps⟩ :=
      ih hp h.supply hpS (Nat.le_of_succ_le_succ hlen) h.absent h.passable
    have hne : table ≠ pt := by
      rcases hfrom with rfl | hpt
      · exact htp
      · exact fun he ↦ htS' (he ▸ hpt)
    refine ⟨pt, fl', by rw [descend, h.next, Exec.ok_bind]; exact hd, ⟨hbelow.isPage,
      fun j pageBase ↦ iff_of_true ?_ trivial⟩, .inr ?_, fun b hb hbS hbt j ↦ ?_⟩
    · have hentry : upperEntry (mapped fl'.mem pt j pageBase) table i
          = UpperPageEntry.createUser (BitVec.ofNat 64 page) :=
        (upperEntry_mapped_of_ne hbelow.isPage htab hne).trans
          ((congrArg UpperPageEntry.mk (hkeeps table htab htS' htp i)).trans h.entry)
      rw [UserPath, hentry, toNat_baseAddress_createUser hp (hc.lt page (by simp))]
      exact ⟨userEntry_createUser _, (hbelow.user j pageBase).mpr trivial⟩
    · rcases hfrom with rfl | hpt
      · exact List.mem_cons_self
      · exact List.mem_cons_of_mem page hpt
    · obtain ⟨hbp, hbS⟩ := List.ne_and_not_mem_of_not_mem_cons hbS
      rw [hkeeps b hb hbS hbp j, h.keeps b hb hbp hbt j]

/-- Too few pages run out. -/
theorem runsOut_new (htab : IsPage table) (hS : Supply fl S) (htS : table ∉ S)
    (hlen : S.length < is.length) (hnone : ∀ i ∈ is.head?, child fl.mem table i = none)
    (hc : Passable fl.mem is S) : RunsOut table is fl := by
  induction is generalizing table fl S with
  | nil => exact absurd hlen (Nat.not_lt_zero _)
  | cons i is ih =>
    cases S with
    | nil => exact .inl ⟨hnone i rfl, fl, hS.nil⟩
    | cons page S =>
      obtain ⟨fl₁, h⟩ := exists_newTable htab hS htS (hnone i rfl) hc
      exact .inr ⟨page, fl₁, h.next, ih (hS.isPage List.mem_cons_self) h.supply
        (List.nodup_cons.mp hS.nodup).1 (Nat.lt_of_succ_lt_succ hlen) h.absent h.passable⟩

/-! ## The way down -/

section Descend

variable (ht : TreeShaped fl.mem pml4) (hS : Supply fl S)
  (hfresh : ∀ q ∈ S, ¬Reaches (child fl.mem) pml4 3 q)

include ht hS hfresh

/-- **The entries on the way are those that were there, and new ones.** -/
theorem descend_userPath (hp : walk (child fl.mem) pml4 p = some table)
    (hlen : p.length + is.length = 3) (hk : missing (child fl.mem) table is = k)
    (hkS : k ≤ S.length) (hc : Passable fl.mem (is.drop (is.length - k)) S) :
    ∃ pt fl', descend table is fl = .ok (pt, fl') ∧
      Below table is (Granted fl.mem table is) pt fl' ∧
      ∀ r c, r.length < p.length → walk (child fl.mem) pml4 r = some c → c ≠ pt ∧
        ∀ j : Index, entryWord fl'.mem c j.toNat = entryWord fl.mem c j.toNat := by
  have htab : IsPage table := ht.isPage_of_reaches ⟨p, by omega, hp⟩
  -- the tables above are others
  have habove : ∀ r c, r.length < p.length → walk (child fl.mem) pml4 r = some c → c ≠ table := by
    rintro r c hr hrc rfl
    have := congrArg List.length (ht.tree r p c (by omega) (by omega) hrc hp)
    omega
  induction is generalizing p table with
  | nil =>
    exact ⟨table, fl, rfl, ⟨htab, fun j pageBase ↦ iff_of_true
      (userPath_nil fl.mem table j pageBase) trivial⟩,
      fun r c hr hrc ↦ ⟨habove r c hr hrc, fun _ ↦ rfl⟩⟩
  | cons i is ih =>
    rw [List.length_cons] at hlen
    have hlen' : (p ++ [i]).length = p.length + 1 := by
      rw [List.length_append, List.length_singleton]
    cases hchild : child fl.mem table i with
    | none =>
      rw [missing_of_eq_none hchild] at hk
      rw [List.length_cons, hk, Nat.sub_self, List.drop_zero] at hc
      obtain ⟨pt, fl', hd, hbelow, hfrom, hkeeps⟩ := descend_new htab hS
        (fun hin ↦ hfresh table hin ⟨p, by omega, hp⟩) (by rw [List.length_cons]; omega)
        (fun i' hi' ↦ by cases hi'; exact hchild) hc
      refine ⟨pt, fl', hd, ⟨hbelow.isPage, fun j pageBase ↦ iff_of_true
        ((hbelow.user j pageBase).mpr trivial) ?_⟩, fun r c hr hrc ↦ ?_⟩
      · intro b hb
        rw [hchild] at hb
        cases hb
      · have hreach : Reaches (child fl.mem) pml4 3 c := ⟨r, by omega, hrc⟩
        have hcS : c ∉ S := fun hin ↦ hfresh c hin hreach
        have hct := habove r c hr hrc
        refine ⟨?_, hkeeps c (ht.isPage_of_reaches hreach) hcS hct⟩
        rintro rfl
        exact hfrom.elim hct hcS
    | some b =>
      rw [missing_of_eq_some hchild] at hk
      have hb : walk (child fl.mem) pml4 (p ++ [i]) = some b := by
        rw [walk_concat_of_eq_some hp, hchild]
      have hkle : k ≤ is.length := hk ▸ missing_le_length
      have hdrop : (i :: is).drop ((i :: is).length - k) = is.drop (is.length - k) := by
        rw [List.length_cons, Nat.succ_sub hkle, List.drop_succ_cons]
      obtain ⟨pt, fl', hd, hbelow, hkeeps⟩ := ih hb (by omega) hk (hdrop ▸ hc)
        (ht.isPage_of_reaches ⟨p ++ [i], by omega, hb⟩) fun r c hr hrc ↦ by
          rintro rfl
          have := congrArg List.length (ht.tree r (p ++ [i]) c (by omega) (by omega) hrc hb)
          omega
      obtain ⟨hne, hstay⟩ := hkeeps p table (by omega) hp
      have hdescend : descend table (i :: is) fl = .ok (pt, fl') := by
        rw [descend, nextTable_of_eq_some htab.pos hchild, Exec.ok_bind]
        exact hd
      refine ⟨pt, fl', hdescend, ⟨hbelow.isPage, fun j pageBase ↦ ?_⟩,
        fun r c hr hrc ↦ hkeeps r c (by omega) hrc⟩
      have hentry : upperEntry (mapped fl'.mem pt j pageBase) table i = upperEntry fl.mem table i :=
        (upperEntry_mapped_of_ne hbelow.isPage htab hne).trans
          (congrArg UpperPageEntry.mk (hstay i))
      exact userPath_cons hchild hentry (hbelow.user j pageBase)

/-- **Too few pages run out**, wherever the first table is missing. -/
theorem runsOut_of_passable (hp : walk (child fl.mem) pml4 p = some table)
    (hlen : p.length + is.length = 3) (hk : missing (child fl.mem) table is = k)
    (hkS : S.length < k) (hc : Passable fl.mem (is.drop (is.length - k)) S) :
    RunsOut table is fl := by
  have htab : IsPage table := ht.isPage_of_reaches ⟨p, by omega, hp⟩
  induction is generalizing p table with
  | nil =>
    obtain rfl : 0 = k := hk
    exact absurd hkS (Nat.not_lt_zero _)
  | cons i is ih =>
    rw [List.length_cons] at hlen
    have hlen' : (p ++ [i]).length = p.length + 1 := by
      rw [List.length_append, List.length_singleton]
    cases hchild : child fl.mem table i with
    | none =>
      rw [missing_of_eq_none hchild] at hk
      rw [List.length_cons, hk, Nat.sub_self, List.drop_zero] at hc
      exact runsOut_new htab hS (fun hin ↦ hfresh table hin ⟨p, by omega, hp⟩)
        (by rw [List.length_cons]; omega) (fun i' hi' ↦ by cases hi'; exact hchild) hc
    | some b =>
      rw [missing_of_eq_some hchild] at hk
      have hb : walk (child fl.mem) pml4 (p ++ [i]) = some b := by
        rw [walk_concat_of_eq_some hp, hchild]
      have hkle : k ≤ is.length := hk ▸ missing_le_length
      have hdrop : (i :: is).drop ((i :: is).length - k) = is.drop (is.length - k) := by
        rw [List.length_cons, Nat.succ_sub hkle, List.drop_succ_cons]
      exact .inr ⟨b, fl, nextTable_of_eq_some htab.pos hchild, ih hb (by omega) hk (hdrop ▸ hc)
        (ht.isPage_of_reaches ⟨p ++ [i], by omega, hb⟩)⟩

end Descend

/-! ## The call -/

/-- **The page can be used by users**: the call returns, and all four entries let them pass. -/
def UserMapped (pages : X86Pages) (v pageBase : BitVec 64) (fl : Freelist) : Prop :=
  ∃ fl', pages.mapUserPage v pageBase fl = .ok fl' ∧
    UserPath fl'.mem pages.pml4 (upperPath v) (leafIndex v)

section UserMapped

variable (hv : isCanoncial v) (hbase : pageBase.toNat % pageSize = 0) (ht : TreeShaped fl.mem pml4)
  (hS : Supply fl S) (hfresh : ∀ q ∈ S, ¬Reaches (child fl.mem) pml4 3 q)
  (hk : missing (child fl.mem) pml4 (upperPath v) = k)

include hv hbase ht hS hfresh hk

/-- With enough pages, what was there decides. -/
theorem userMapped_iff_granted (hkS : k ≤ S.length)
    (hc : Passable fl.mem ((upperPath v).drop (3 - k)) S) :
    UserMapped ⟨pml4⟩ v pageBase fl ↔ Granted fl.mem pml4 (upperPath v) := by
  obtain ⟨pt, fl₁, hd, hbelow, -⟩ :=
    descend_userPath ht hS hfresh (p := []) rfl rfl hk hkS hc
  have hmap := mapUserPage_of_descend hv hbase hd hbelow.isPage.pos
  have hpath := hbelow.user (leafIndex v) pageBase
  constructor
  · rintro ⟨fl', hmap', hu⟩
    obtain rfl := Except.ok.inj (hmap.symm.trans hmap')
    exact hpath.mp hu
  · exact fun hg ↦ ⟨_, hmap, hpath.mpr hg⟩

/-- Without enough pages the call does not return. -/
theorem le_length_of_userMapped (hc : Passable fl.mem ((upperPath v).drop (3 - k)) S)
    (h : UserMapped ⟨pml4⟩ v pageBase fl) : k ≤ S.length := by
  obtain ⟨fl', hmap, -⟩ := h
  by_contra hlt
  have hout := runsOut_of_passable ht hS hfresh (p := []) rfl rfl hk (not_le.mp hlt) hc
  rw [mapUserPage_of_runsOut hv hbase hout] at hmap
  cases hmap

end UserMapped

/-- **A page is mapped for users if the upper entries on the way that are there are for users**, and
the missing tables can be made of pages in which the way finds no entry.  For such pages the
condition is exact. -/
theorem mapUserPage_userMapped (pages : X86Pages) (v pageBase : BitVec 64) (fl : Freelist)
    (S : List ℕ) (hv : isCanoncial v) (hbase : pageBase.toNat % pageSize = 0)
    (ht : TreeShaped fl.mem pages.pml4) (hS : Supply fl S)
    (hfresh : ∀ q ∈ S, ¬Reaches (child fl.mem) pages.pml4 3 q) (k : ℕ)
    (hk : missing (child fl.mem) pages.pml4 (upperPath v) = k) :
    (k ≤ S.length ∧ Passable fl.mem ((upperPath v).drop (3 - k)) S ∧
        Granted fl.mem pages.pml4 (upperPath v) → UserMapped pages v pageBase fl) ∧
      (Passable fl.mem ((upperPath v).drop (3 - k)) S → UserMapped pages v pageBase fl →
        k ≤ S.length ∧ Granted fl.mem pages.pml4 (upperPath v)) := by
  refine ⟨fun ⟨hkS, hc, hg⟩ ↦ ?_, fun hc hu ↦ ?_⟩
  · exact (userMapped_iff_granted hv hbase ht hS hfresh hk hkS hc).mpr hg
  · have hkS := le_length_of_userMapped hv hbase ht hS hfresh hk hc hu
    exact ⟨hkS, (userMapped_iff_granted hv hbase ht hS hfresh hk hkS hc).mp hu⟩

theorem mapUserPage_userMapped_threePages : UserMapped ⟨0x1000⟩ 0 0x8000 threePages :=
  (mapUserPage_userMapped ⟨0x1000⟩ 0 0x8000 threePages [0x2000, 0x3000, 0x4000] (by decide)
    (by decide) (treeShaped_of_zero zero_threePages).1 supply_threePages
    (fresh_of_zero zero_threePages) 3 (missing_of_zero zero_threePages 0)).1
    ⟨by decide, .of_clean (clean_threePages Set.univ), .of_absent fun i hi ↦ by
      refine child_of_not_isPresent ?_
      rw [upperEntry, zero_threePages]
      decide⟩

/-! ### A root entry for the supervisor -/

/-- The same pages, and in the root an entry for the supervisor, for an empty table. -/
def supervised : Freelist :=
  { threePages with
    mem := writeWord threePages.mem (entryAddress 0x1000 0)
      (UpperPageEntry.createSupervisor 0x5000).buffer.toNat }

theorem supply_supervised : Supply supervised [0x2000, 0x3000, 0x4000] :=
  supply_threePages.congr fun q hq ↦ by
    simp only [List.mem_cons, List.not_mem_nil, or_false] at hq
    exact readWord_writeWord_of_disjoint (by simp only [entryAddress]; omega)

/-- The other entries are those of `threePages`. -/
theorem entryWord_supervised {a : ℕ} (ha : a % pageSize = 0) (hj : a ≠ 0x1000 ∨ j ≠ 0) :
    entryWord supervised.mem a j.toNat = entryWord threePages.mem a j.toNat :=
  entryWord_writeWord_of_ne (by decide) ha (by decide) j.lt
    (hj.imp_right fun h0 he ↦ h0 (BitVec.eq_of_toNat_eq he))

theorem child_supervised_root (j : Index) :
    child supervised.mem 0x1000 j = if j = 0 then some 0x5000 else none := by
  by_cases hj : j = 0
  · have hentry : upperEntry supervised.mem 0x1000 0 = UpperPageEntry.createSupervisor 0x5000 :=
      congrArg UpperPageEntry.mk (entryWord_writeWord _ _ _ _)
    rw [hj, if_pos rfl, child, hentry]
    decide
  · rw [if_neg hj]
    refine child_of_not_isPresent ?_
    rw [upperEntry, entryWord_supervised (by decide) (.inr hj), zero_threePages]
    decide

theorem child_supervised_table (j : Index) : child supervised.mem 0x5000 j = none := by
  refine child_of_not_isPresent ?_
  rw [upperEntry, entryWord_supervised (by decide) (.inl (by decide)),
    entryWord_threePages (by decide) (.inr (by decide))]
  decide

theorem treeShaped_supervised : TreeShaped supervised.mem 0x1000 ∧
    ∀ a, Reaches (child supervised.mem) 0x1000 3 a → a = 0x1000 ∨ a = 0x5000 :=
  TreeShaped.of_single (by decide) (by decide) (by decide) child_supervised_root
    child_supervised_table

theorem clean_supervised (K : Set Index) : Clean supervised.mem K 2 [0x2000, 0x3000, 0x4000] where
  lt := by decide
  absent n page _ hpage j hj _ := by
    have hp := supply_supervised.isPage (List.mem_of_getElem? hpage)
    rw [entryWord_supervised hp.aligned (.inr hj), entryWord_threePages hp.aligned (.inl hj)]
    decide

/-- The page is mapped, below the entry for the supervisor. -/
theorem mapUserPage_supervised :
    ∃ fl', X86Pages.mapUserPage ⟨0x1000⟩ 0 0x8000 supervised = .ok fl' ∧
    X86Pages.virtToPhys ⟨0x1000⟩ fl'.mem 0 = .ok 0x8000 ∧ entryWord fl'.mem 0x1000 0 = 0x5003 := by
  have hrun : (do
      let fl ← X86Pages.mapUserPage ⟨0x1000⟩ 0 0x8000 supervised
      let page ← X86Pages.virtToPhys ⟨0x1000⟩ fl.mem 0
      return (page, entryWord fl.mem 0x1000 0)) = Except.ok (0x8000, 0x5003) := by
    decide
  obtain ⟨fl', hmap, hrun⟩ := Exec.bind_eq_ok.mp hrun
  obtain ⟨page, hpage, hentry⟩ := Exec.bind_eq_ok.mp hrun
  obtain ⟨rfl, hword⟩ := Prod.mk.inj (Except.ok.inj hentry)
  exact ⟨fl', hmap, hpage, hword⟩

/-- **The entry for the supervisor stays one**, although the page below it is mapped. -/
theorem not_userMapped_supervised :
    (¬∀ (pages : X86Pages) (v pageBase : BitVec 64) (fl : Freelist) (S : List ℕ), isCanoncial v →
      pageBase.toNat % pageSize = 0 → TreeShaped fl.mem pages.pml4 → Supply fl S →
      (∀ q ∈ S, ¬Reaches (child fl.mem) pages.pml4 3 q) →
      missing (child fl.mem) pages.pml4 (upperPath v) ≤ S.length →
      Clean fl.mem ∅ (missing (child fl.mem) pages.pml4 (upperPath v)) S →
      UserMapped pages v pageBase fl) ∧
    ∃ fl', X86Pages.mapUserPage ⟨0x1000⟩ 0 0x8000 supervised = .ok fl' ∧
      X86Pages.virtToPhys ⟨0x1000⟩ fl'.mem 0 = .ok 0x8000 ∧
      entryWord fl'.mem 0x1000 0 = 0x5003 := by
  refine ⟨fun hall ↦ ?_, mapUserPage_supervised⟩
  have hmissing : missing (child supervised.mem) 0x1000 (upperPath 0) = 2 := by
    have hroot : child supervised.mem 0x1000 ((0 : BitVec 64).extractLsb' 39 9) = some 0x5000 :=
      child_supervised_root 0
    rw [upperPath, missing_of_eq_some hroot, missing_of_eq_none (child_supervised_table _)]
    rfl
  obtain ⟨fl', hmap, huser, -⟩ := hall ⟨0x1000⟩ 0 0x8000 supervised [0x2000, 0x3000, 0x4000]
    (by decide) (by decide) treeShaped_supervised.1 supply_supervised
    (fun q hq hr ↦ by
      have hq' := treeShaped_supervised.2 q hr
      simp only [List.mem_cons, List.not_mem_nil, or_false] at hq
      omega)
    (by rw [hmissing]; decide) (by rw [hmissing]; exact clean_supervised ∅)
  obtain ⟨fl₁, hmap₁, -, hword⟩ := mapUserPage_supervised
  obtain rfl := Except.ok.inj (hmap.symm.trans hmap₁)
  have haccess : isUserAccessible (entryWord fl'.mem 0x1000 0) := huser.userAccessible
  rw [hword] at haccess
  exact absurd haccess (by decide)

end X8664
