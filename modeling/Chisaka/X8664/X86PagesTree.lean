import Chisaka.Ram.FreelistSupply
import Chisaka.X8664.X86Pages

/-!
# Mapping a page changes one translation

The tables are `TreeShaped` if no table is reached along two paths.  Then a write to one table is
seen along one path only, and `MapUserPage` is the update of the map `translate` at one place.

* `nextTable_of_eq_some`, `nextTable_of_eq_none` say what happens at one of the upper levels;
  `Usable.install` is what a page from the allocator, put in an empty slot, does to the tree.
* `descend_spec` goes through the three levels, with whatever tables there are, and `Descended` is
  what it keeps.
* `mapUserPage_spec` adds the last entry, and `mapUserPage_translates` says it in terms of
  `VirtToPhys`.
-/

set_option autoImplicit false

namespace X8664

open Bytes Chisaka Chisaka.PageAllocators Walk

variable {mem mem' : Memory} {fl fl' : Freelist} {pml4 table page a b pt : ℕ} {i j : Index}
  {K : Set Index} {p path is : List Index} {v pageBase : BitVec 64}

/-! ## The shape -/

/-- **Every present upper entry leads to a table of its own.** -/
structure TreeShaped (mem : Memory) (pml4 : ℕ) : Prop where
  /-- The root is a page. -/
  isPage : IsPage pml4
  /-- No entry leads to null. -/
  nonNull : NonNull mem pml4
  /-- No table is reached along two paths. -/
  tree : TreeTo (child mem) pml4 3

namespace TreeShaped

theorem isPage_of_reaches (h : TreeShaped mem pml4) (ha : Reaches (child mem) pml4 3 a) :
    IsPage a := by
  obtain ⟨p, hp, hw⟩ := ha
  rcases List.eq_nil_or_concat p with rfl | ⟨q, i, rfl⟩
  · obtain rfl : pml4 = a := Option.some.inj hw
    exact h.isPage
  · rw [List.concat_eq_append] at hw hp
    obtain ⟨b, -, hb⟩ := exists_of_walk_concat hw
    refine ⟨aligned_of_child hb, h.nonNull a ⟨_, hp, hw⟩, ?_⟩
    rw [← (upperEntry_of_eq_some hb).2]
    exact BitVec.isLt _

end TreeShaped

/-- A root without entries is a tree. -/
theorem TreeShaped.of_empty (h : IsPage pml4) (hnone : ∀ i, child mem pml4 i = none) :
    TreeShaped mem pml4 ∧ ∀ a, Reaches (child mem) pml4 3 a → a = pml4 := by
  have hroot : ∀ p a, walk (child mem) pml4 p = some a → p = [] ∧ a = pml4 := by
    intro p a hw
    cases p with
    | nil => exact ⟨rfl, (Option.some.inj hw).symm⟩
    | cons i p => simp [walk, hnone] at hw
  have hreach : ∀ a, Reaches (child mem) pml4 3 a → a = pml4 := fun a ha ↦ by
    obtain ⟨p, -, hw⟩ := ha
    exact (hroot p a hw).2
  refine ⟨⟨h, fun a ha ↦ hreach a ha ▸ h.pos, fun p q a _ _ hp hq ↦ ?_⟩, hreach⟩
  rw [(hroot p a hp).1, (hroot q a hq).1]

/-- A root with one entry, for a table without entries, is a tree. -/
theorem TreeShaped.of_single (h : IsPage pml4) (hb : IsPage b) (hne : pml4 ≠ b)
    (hone : ∀ j, child mem pml4 j = if j = i then some b else none)
    (hnone : ∀ j, child mem b j = none) :
    TreeShaped mem pml4 ∧ ∀ a, Reaches (child mem) pml4 3 a → a = pml4 ∨ a = b := by
  have hroot : ∀ p a, walk (child mem) pml4 p = some a → p = [] ∧ a = pml4 ∨ p = [i] ∧ a = b := by
    intro p a hw
    cases p with
    | nil => exact .inl ⟨rfl, (Option.some.inj hw).symm⟩
    | cons j p =>
      by_cases hj : j = i
      swap
      · simp [walk, hone, hj] at hw
      cases p with
      | nil =>
        refine .inr ⟨by rw [hj], ?_⟩
        simpa [walk, hone, hj, eq_comm] using hw
      | cons j' p => simp [walk, hone, hnone, hj] at hw
  have hreach : ∀ a, Reaches (child mem) pml4 3 a → a = pml4 ∨ a = b := by
    rintro a ⟨p, -, hw⟩
    exact (hroot p a hw).imp And.right And.right
  refine ⟨⟨h, fun a ha ↦ ?_, fun p q a _ _ hp hq ↦ ?_⟩, hreach⟩
  · rcases hreach a ha with rfl | rfl
    · exact h.pos
    · exact hb.pos
  · rcases hroot p a hp with ⟨rfl, rfl⟩ | ⟨rfl, rfl⟩ <;>
      rcases hroot q a hq with ⟨rfl, hab⟩ | ⟨rfl, hab⟩
    · rfl
    · exact absurd hab hne
    · exact absurd hab.symm hne
    · rfl

/-! ## One level -/

theorem getEntry_of_ne (h : table ≠ 0) :
    UpperPageTable.getEntry mem table (i.setWidth 16).toNat = .ok (upperEntry mem table i) := by
  rw [UpperPageTable.getEntry, if_neg h, toNat_setWidth_index, upperEntry]

/-- A present entry is followed. -/
theorem nextTable_of_eq_some (h0 : table ≠ 0) (h : child fl.mem table i = some b) :
    X86Pages.nextTable fl table (i.setWidth 16) = .ok (b, fl) := by
  obtain ⟨hpres, hbase⟩ := upperEntry_of_eq_some h
  simp only [X86Pages.nextTable, getEntry_of_ne h0, hpres, Exec.ok_bind, Exec.pure_eq,
    Bool.not_true, Bool.false_eq_true, if_false, hbase]

/-- The memory after an entry was made for a page. -/
def linked (mem : Memory) (table : ℕ) (i : Index) (page : ℕ) : Memory :=
  writeWord mem (entryAddress table i.toNat)
    (UpperPageEntry.createUser (BitVec.ofNat 64 page)).buffer.toNat

@[simp] theorem upperEntry_linked :
    upperEntry (linked mem table i page) table i
      = UpperPageEntry.createUser (BitVec.ofNat 64 page) :=
  congrArg UpperPageEntry.mk (entryWord_writeWord mem table i.toNat _)

/-- An empty entry is filled. -/
theorem nextTable_of_eq_none (h0 : table ≠ 0) (h : child fl.mem table i = none)
    (ha : allocatePage fl = .ok (page, fl')) :
    X86Pages.nextTable fl table (i.setWidth 16)
      = .ok ((UpperPageEntry.createUser (BitVec.ofNat 64 page)).baseAddress.toNat,
        { fl' with mem := linked fl'.mem table i page }) := by
  have habs := isPresent_of_eq_none h
  have hset : setEntry fl'.mem table (i.setWidth 16).toNat
      (UpperPageEntry.createUser (BitVec.ofNat 64 page)).buffer
        = .ok (linked fl'.mem table i page) := by
    rw [setEntry, if_neg h0, toNat_setWidth_index, linked]
  simp only [X86Pages.nextTable, getEntry_of_ne h0, habs, ha, hset, Exec.ok_bind, Exec.pure_eq,
    Bool.not_false, if_true, upperEntry_linked]

/-- The entry is present, whatever it was made for. -/
theorem child_linked : child (linked mem table i page) table i
    = some (UpperPageEntry.createUser (BitVec.ofNat 64 page)).baseAddress.toNat := by
  rw [child_of_isPresent (by simp), upperEntry_linked]

/-- **Afterwards the entry leads to the table** that the level went to. -/
theorem child_of_nextTable (h : X86Pages.nextTable fl table (i.setWidth 16) = .ok (b, fl')) :
    child fl'.mem table i = some b := by
  have h0 : table ≠ 0 := by
    rintro rfl
    cases h
  cases hc : child fl.mem table i with
  | some c =>
    rw [nextTable_of_eq_some h0 hc] at h
    cases h
    exact hc
  | none =>
    cases ha : allocatePage fl with
    | ok r =>
      rw [nextTable_of_eq_none h0 hc ha] at h
      cases h
      exact child_linked
    | error e =>
      simp only [X86Pages.nextTable, getEntry_of_ne h0, isPresent_of_eq_none hc, ha, Exec.ok_bind,
        Exec.error_bind, Bool.not_false, if_true] at h
      cases h

section Linked

/-- The entry for a page leads to it. -/
theorem toNat_baseAddress_createUser (hp : IsPage page) (hlt : page < 2 ^ 40) :
    (UpperPageEntry.createUser (BitVec.ofNat 64 page)).baseAddress.toNat = page := by
  have hn : (BitVec.ofNat 64 page).toNat = page := Nat.mod_eq_of_lt hp.lt
  rw [UpperPageEntry.baseAddress_createUser (by rw [hn]; exact hp.aligned)
    (by rw [hn]; exact hlt), hn]

variable (hp : IsPage page) (ha : allocatePage fl = .ok (page, fl')) (ht : IsPage table)

include hp ha ht

/-- What the entries of the other tables are when the page has been linked. -/
theorem entryWord_linked (hb : IsPage b) (hbp : b ≠ page) (hne : b ≠ table ∨ j ≠ i) :
    entryWord (linked fl'.mem table i page) b j.toNat = entryWord fl.mem b j.toNat := by
  have hj : b ≠ table ∨ j.toNat ≠ i.toNat :=
    hne.imp_right fun hji he ↦ hji (BitVec.eq_of_toNat_eq he)
  rw [linked, entryWord_writeWord_of_ne ht.aligned hb.aligned i.lt j.lt hj,
    mem_of_allocatePage ha hp.pos]
  exact entryWord_writeWord_of_ne (i := 0) hp.aligned hb.aligned (by decide) j.lt (.inl hbp)

omit ht in
/-- Two words are written: the first of the page, and the entry that leads to it. -/
theorem wordsOnly_linked :
    WordsOnly [page, entryAddress table i.toNat] fl.mem (linked fl'.mem table i page) :=
  (mem_of_allocatePage ha hp.pos ▸ wordsOnly_writeWord (by simp)).trans
    (wordsOnly_writeWord (by simp))

/-- Other pages are not touched. -/
theorem apply_linked (hb : IsPage b) (hbp : b ≠ page) (hbt : b ≠ table) {x : ℕ} (hx : b ≤ x)
    (hx' : x < b + pageSize) : linked fl'.mem table i page x = fl.mem x := by
  have h1 := hb.disjoint hp hbp
  have h2 := hb.disjoint ht hbt
  have hilt : i.toNat < 512 := i.lt
  refine wordsOnly_linked hp ha x fun c hc ↦ ?_
  simp only [pageSize, entryAddress, List.mem_cons, List.not_mem_nil, or_false] at *
  rcases hc with rfl | rfl <;> omega

end Linked

/-- The entries of the page itself. -/
theorem entryWord_linked_page (hp : IsPage page) (ht : IsPage table) (htp : page ≠ table) :
    entryWord (linked mem table i page) page j.toNat = entryWord mem page j.toNat :=
  entryWord_writeWord_of_ne ht.aligned hp.aligned i.lt j.lt (.inl htp)

/-- **A page that can become a table**: a page nothing leads to, with an address that fits in an
entry, and without entries.  If it becomes a page table, the entries in `K` may hold anything. -/
structure Usable (pml4 : ℕ) (K : Set Index) (fl : Freelist) (page : ℕ) (fl' : Freelist)
    (is : List Index) : Prop where
  /-- It is a page. -/
  isPage : IsPage page
  /-- Its address fits. -/
  lt : page < 2 ^ 40
  /-- Nothing leads to it. -/
  fresh : ¬Reaches (child fl.mem) pml4 3 page
  /-- It has no entries. -/
  absent : ∀ j : Index, (is = [] → j ∉ K) → isPresent (entryWord fl'.mem page j.toNat) = false

/-! ## The three levels -/

/-- **What going down to a page table keeps.**  The steps of `p` lead to the table `b`, and nothing
else has changed: no translation but those in `K` at the end of `path`, and no memory but that of
tables. -/
structure Extends (pml4 : ℕ) (path : List Index) (K : Set Index) (p : List Index) (b : ℕ)
    (mem mem' : Memory) : Prop where
  /-- There is a tree again. -/
  tree : TreeShaped mem' pml4
  /-- The steps lead to the table. -/
  leads : walk (child mem') pml4 p = some b
  /-- Every table is where it was. -/
  keeps : ∀ q a, q.length ≤ 3 → walk (child mem) pml4 q = some a → walk (child mem') pml4 q = some a
  /-- No other translation has changed. -/
  translates : ∀ q j, q.length = 3 → q ≠ path ∨ j ∉ K →
    translate mem' pml4 q j = translate mem pml4 q j
  /-- Only tables were written. -/
  frame : ∀ x, (∀ a, Reaches (child mem') pml4 3 a → x < a ∨ a + pageSize ≤ x) → mem' x = mem x

namespace Extends

variable {mem'' : Memory} {q : List Index}

theorem refl (h : TreeShaped mem pml4) (hp : walk (child mem) pml4 p = some b) :
    Extends pml4 path K p b mem mem :=
  ⟨h, hp, fun _ _ _ ha ↦ ha, fun _ _ _ _ ↦ rfl, fun _ _ ↦ rfl⟩

/-- A table that was there is there. -/
theorem reaches (h : Extends pml4 path K p b mem mem') (ha : Reaches (child mem) pml4 3 a) :
    Reaches (child mem') pml4 3 a := by
  obtain ⟨q, hq, hw⟩ := ha
  exact ⟨q, hq, h.keeps q a hq hw⟩

theorem trans (h : Extends pml4 path K p b mem mem')
    (h' : Extends pml4 path K q a mem' mem'') : Extends pml4 path K q a mem mem'' where
  tree := h'.tree
  leads := h'.leads
  keeps r c hr hc := h'.keeps r c hr (h.keeps r c hr hc)
  translates r j hr hne := (h'.translates r j hr hne).trans (h.translates r j hr hne)
  frame x hx := (h'.frame x hx).trans (h.frame x fun c hc ↦ hx c (h'.reaches hc))

end Extends

section Install

variable (h : Usable pml4 K fl page fl' is) (ht : TreeShaped fl.mem pml4)
  (hp : walk (child fl.mem) pml4 p = some table) (hlen : p.length + 1 + is.length = 3)
  (hnone : child fl.mem table i = none) (ha : allocatePage fl = .ok (page, fl'))

include h ht hp hlen hnone ha

/-- **The tree gets one more path.** -/
theorem Usable.walk_linked {q : List Index} (hq : q.length ≤ 3) :
    walk (child (linked fl'.mem table i page)) pml4 q
      = if q = p ++ [i] then some page else walk (child fl.mem) pml4 q := by
  have htab : IsPage table := ht.isPage_of_reaches ⟨p, by omega, hp⟩
  have hpt : page ≠ table := fun he ↦ h.fresh (he ▸ ⟨p, by omega, hp⟩)
  refine walk_install ht.tree hp (by omega) hnone (fun b hb j hne ↦ ?_) ?_ (fun hdeep j ↦ ?_) hq
  · have hbp : b ≠ page := fun he ↦ h.fresh (he ▸ hb)
    exact child_congr (entryWord_linked h.isPage ha htab (ht.isPage_of_reaches hb) hbp hne)
  · rw [child_of_isPresent (by simp), upperEntry_linked, toNat_baseAddress_createUser h.isPage h.lt]
  · have hne : is ≠ [] := fun h0 ↦ by
      rw [h0, List.length_nil] at hlen
      omega
    refine child_of_not_isPresent ?_
    rw [UpperPageEntry.isPresent, upperEntry, entryWord_linked_page h.isPage htab hpt,
      h.absent j fun h0 ↦ absurd h0 hne]
    exact Bool.false_ne_true

/-- The page is the only new table. -/
theorem Usable.reaches_linked (hb : Reaches (child (linked fl'.mem table i page)) pml4 3 b) :
    Reaches (child fl.mem) pml4 3 b ∨ b = page := by
  obtain ⟨q, hq, hw⟩ := hb
  rw [h.walk_linked ht hp hlen hnone ha hq] at hw
  split at hw
  · exact .inr (Option.some.inj hw).symm
  · exact .inl ⟨q, hq, hw⟩

/-- **A usable page becomes a table.** -/
theorem Usable.install :
    Extends pml4 (p ++ i :: is) K (p ++ [i]) page fl.mem (linked fl'.mem table i page) := by
  have htab : IsPage table := ht.isPage_of_reaches ⟨p, by omega, hp⟩
  have hpt : page ≠ table := fun he ↦ h.fresh (he ▸ ⟨p, by omega, hp⟩)
  have hw : ∀ q : List Index, q.length ≤ 3 → walk (child (linked fl'.mem table i page)) pml4 q
      = if q = p ++ [i] then some page else walk (child fl.mem) pml4 q :=
    fun q hq ↦ h.walk_linked ht hp hlen hnone ha hq
  have hpi : (p ++ [i]).length ≤ 3 := by
    rw [List.length_append, List.length_singleton]
    omega
  have hold : walk (child fl.mem) pml4 (p ++ [i]) = none := by
    rw [walk_concat_of_eq_some hp, hnone]
  refine ⟨⟨ht.isPage, fun a ha' ↦ ?_, ht.tree.install h.fresh hw⟩, ?_, fun q a hq hqa ↦ ?_,
    fun q j hq hne ↦ ?_, fun x hx ↦ ?_⟩
  · obtain ⟨q, hq, hqa⟩ := ha'
    rw [hw q hq] at hqa
    split at hqa
    · rw [← Option.some.inj hqa]
      exact h.isPage.pos
    · exact ht.nonNull a ⟨q, hq, hqa⟩
  · rw [hw _ hpi, if_pos rfl]
  · rw [hw q hq, if_neg fun he ↦ ?_, hqa]
    rw [he, hold] at hqa
    exact absurd hqa (by simp)
  · rw [translate, translate, hw q hq.le]
    split
    · -- the new page table: nothing was there before, and nothing outside `K` can be there now
      rename_i hqp
      have his : is = [] := List.eq_nil_of_length_eq_zero (by
        rw [hqp, List.length_append, List.length_singleton] at hq
        omega)
      have hj : j ∉ K := hne.resolve_left fun hq' ↦ hq' (by rw [hqp, his])
      rw [hqp, hold, Option.bind_some, leaf, PageEntry.isPresent,
        entryWord_linked_page h.isPage htab hpt, h.absent j fun _ ↦ hj]
      rfl
    · cases hqa : walk (child fl.mem) pml4 q with
      | none => rw [Option.bind_none, Option.bind_none]
      | some c =>
        have hc : Reaches (child fl.mem) pml4 3 c := ⟨q, hq.le, hqa⟩
        have hcp : c ≠ page := fun he ↦ h.fresh (he ▸ hc)
        have hct : c ≠ table := by
          rintro rfl
          have := congrArg List.length (ht.tree q p c hq.le (by omega) hqa hp)
          omega
        rw [Option.bind_some, Option.bind_some]
        have hct' := ht.isPage_of_reaches hc
        exact leaf_congr (entryWord_linked h.isPage ha htab hct' hcp (.inl hct))
  · have hpage := hx page ⟨p ++ [i], hpi, by rw [hw _ hpi, if_pos rfl]⟩
    have htable := hx table ⟨p, by omega, by
      rw [hw p (by omega), if_neg fun he ↦ ?_, hp]
      have := congrArg List.length he
      rw [List.length_append, List.length_singleton] at this
      omega⟩
    have hilt : i.toNat < 512 := i.lt
    refine wordsOnly_linked h.isPage ha x fun c hc ↦ ?_
    simp only [pageSize, entryAddress, List.mem_cons, List.not_mem_nil, or_false] at hpage htable hc
    rcases hc with rfl | rfl <;> omega

end Install

/-! ## Going down -/

/-- The upper levels of `MapUserPage`, one after the other. -/
def descend : ℕ → List Index → Freelist → Exec (ℕ × Freelist)
  | table, [], fl => .ok (table, fl)
  | table, i :: is, fl => do
    let (next, fl) ← X86Pages.nextTable fl table (i.setWidth 16)
    descend next is fl

/-- **Every page that `AllocatePage` hands out on the way down** satisfies `Q`, which is about the
allocator before and after, the page, and the steps that are left. -/
def Supplied (Q : Freelist → ℕ → Freelist → List Index → Prop) : ℕ → List Index → Freelist → Prop
  | _, [], _ => True
  | table, i :: is, fl =>
    (child fl.mem table i = none →
      ∃ page fl', allocatePage fl = .ok (page, fl') ∧ Q fl page fl' is) ∧
      ∀ next fl', X86Pages.nextTable fl table (i.setWidth 16) = .ok (next, fl') →
        Supplied Q next is fl'

theorem Supplied.mono {Q Q' : Freelist → ℕ → Freelist → List Index → Prop}
    (hQ : ∀ fl page fl' is, Q fl page fl' is → Q' fl page fl' is) :
    ∀ {is : List Index} {table : ℕ} {fl : Freelist},
      Supplied Q table is fl → Supplied Q' table is fl
  | [], _, _, _ => trivial
  | _ :: _, _, _, h => by
    refine ⟨fun hnone ↦ ?_, fun next fl' hnext ↦ Supplied.mono hQ (h.2 next fl' hnext)⟩
    obtain ⟨page, fl', ha, hq⟩ := h.1 hnone
    exact ⟨page, fl', ha, hQ _ _ _ _ hq⟩

/-- **The allocator runs out on the way down**: where a table is missing, `AllocatePage()` answers
null. -/
def RunsOut : ℕ → List Index → Freelist → Prop
  | _, [], _ => False
  | table, i :: is, fl =>
    (child fl.mem table i = none ∧ ∃ fl', allocatePage fl = .ok (0, fl')) ∨
      ∃ next fl', X86Pages.nextTable fl table (i.setWidth 16) = .ok (next, fl') ∧
        RunsOut next is fl'

theorem nextTable_null : X86Pages.nextTable fl 0 (i.setWidth 16) = .error .nullDeref := rfl

/-- **Then the way down leads to null**, if it does not follow null before. -/
theorem RunsOut.descend_null (h : RunsOut table is fl) :
    descend table is fl = .error .nullDeref ∨ ∃ fl', descend table is fl = .ok (0, fl') := by
  induction is generalizing table fl with
  | nil => exact h.elim
  | cons i is ih =>
    by_cases h0 : table = 0
    · subst h0
      exact .inl (by rw [descend, nextTable_null]; rfl)
    rcases h with ⟨hnone, fl', ha⟩ | ⟨next, fl', hnext, hrest⟩
    · have hnext := nextTable_of_eq_none h0 hnone ha
      rw [show (UpperPageEntry.createUser (BitVec.ofNat 64 0)).baseAddress.toNat = 0 by decide]
        at hnext
      rw [descend, hnext, Exec.ok_bind]
      cases is with
      | nil => exact .inr ⟨_, rfl⟩
      | cons i' is => exact .inl rfl
    · rw [descend, hnext, Exec.ok_bind]
      exact ih hrest

/-- **One level leads to the next table**: the one that was there, or a usable page. -/
theorem nextTable_spec (ht : TreeShaped fl.mem pml4) (hp : walk (child fl.mem) pml4 p = some table)
    (hlen : p.length + 1 + is.length = 3)
    (hs : child fl.mem table i = none →
      ∃ page fl', allocatePage fl = .ok (page, fl') ∧ Usable pml4 K fl page fl' is) :
    ∃ next fl₁, X86Pages.nextTable fl table (i.setWidth 16) = .ok (next, fl₁) ∧
      Extends pml4 (p ++ i :: is) K (p ++ [i]) next fl.mem fl₁.mem ∧
      (child fl.mem table i = some next ∧ fl₁ = fl ∨ child fl.mem table i = none ∧
        ∃ fl', allocatePage fl = .ok (next, fl') ∧ Usable pml4 K fl next fl' is ∧
          fl₁ = { fl' with mem := linked fl'.mem table i next }) := by
  have htab : table ≠ 0 := ht.nonNull table ⟨p, by omega, hp⟩
  cases hc : child fl.mem table i with
  | some b =>
    refine ⟨b, fl, nextTable_of_eq_some htab hc, Extends.refl ht ?_, .inl ⟨rfl, rfl⟩⟩
    rw [walk_concat_of_eq_some hp, hc]
  | none =>
    obtain ⟨page, fl', ha, hu⟩ := hs hc
    have hnext := nextTable_of_eq_none htab hc ha
    rw [toNat_baseAddress_createUser hu.isPage hu.lt] at hnext
    exact ⟨page, _, hnext, hu.install ht hp hlen hc ha, .inr ⟨rfl, fl', ha, hu, rfl⟩⟩

/-- **Going down leads to a page table**, whichever tables were there. -/
theorem descend_spec (ht : TreeShaped fl.mem pml4) (hp : walk (child fl.mem) pml4 p = some table)
    (hlen : p.length + is.length = 3) (hs : Supplied (Usable pml4 K) table is fl) :
    ∃ pt fl', descend table is fl = .ok (pt, fl') ∧
      Extends pml4 (p ++ is) K (p ++ is) pt fl.mem fl'.mem := by
  induction is generalizing p table fl with
  | nil =>
    rw [List.append_nil]
    exact ⟨table, fl, rfl, Extends.refl ht hp⟩
  | cons i is ih =>
    rw [List.length_cons] at hlen
    have hlen' : (p ++ [i]).length + is.length = 3 := by
      rw [List.length_append, List.length_singleton]
      omega
    obtain ⟨next, fl₁, hnext, hstep, -⟩ := nextTable_spec ht hp (by omega) hs.1
    obtain ⟨pt, fl', hrest, hext⟩ := ih hstep.tree hstep.leads hlen' (hs.2 next fl₁ hnext)
    rw [List.append_assoc, List.singleton_append] at hext
    refine ⟨pt, fl', ?_, hstep.trans hext⟩
    rw [descend, hnext, Exec.ok_bind]
    exact hrest

/-! ## The last entry -/

/-- The memory after the entry of the page was made. -/
def mapped (mem : Memory) (pt : ℕ) (i : Index) (pageBase : BitVec 64) : Memory :=
  writeWord mem (entryAddress pt i.toNat) (PageEntry.createUser pageBase).buffer.toNat

/-- Only the page table was written. -/
theorem mapped_apply {x : ℕ} (hx : x < pt ∨ pt + pageSize ≤ x) :
    mapped mem pt i pageBase x = mem x := by
  have hilt : i.toNat < 512 := i.lt
  refine wordsOnly_writeWord (List.mem_singleton.mpr rfl) x fun c hc ↦ ?_
  rw [List.mem_singleton.mp hc]
  simp only [pageSize, entryAddress] at *
  omega

section Mapped

variable (ht : TreeShaped mem pml4) (hp : walk (child mem) pml4 path = some pt)
  (hlen : path.length = 3)

include ht hp hlen

/-- **The last entry is in no upper table.** -/
theorem walk_mapped {q : List Index} (hq : q.length ≤ 3) :
    walk (child (mapped mem pt i pageBase)) pml4 q = walk (child mem) pml4 q := by
  refine walk_congr (fun r a hr ha j ↦ child_congr ?_) hq
  have hne : a ≠ pt := by
    rintro rfl
    have := congrArg List.length (ht.tree r path a hr.le hlen.le ha hp)
    omega
  exact entryWord_writeWord_of_ne (ht.isPage_of_reaches ⟨path, hlen.le, hp⟩).aligned
    (ht.isPage_of_reaches ⟨r, hr.le, ha⟩).aligned i.lt j.lt (.inl hne)

theorem reaches_mapped : Reaches (child (mapped mem pt i pageBase)) pml4 3 a
    ↔ Reaches (child mem) pml4 3 a :=
  exists_congr fun _ ↦ and_congr_right fun hq ↦ by rw [walk_mapped ht hp hlen hq]

theorem treeShaped_mapped : TreeShaped (mapped mem pt i pageBase) pml4 :=
  ⟨ht.isPage, fun a ha ↦ ht.nonNull a ((reaches_mapped ht hp hlen).mp ha),
    ht.tree.congr fun _ hq ↦ walk_mapped ht hp hlen hq⟩

/-- **One translation is new.** -/
theorem translate_mapped (hbase : pageBase.toNat % pageSize = 0) {q : List Index}
    (hq : q.length = 3) : translate (mapped mem pt i pageBase) pml4 q j
      = if q = path ∧ j = i then some pageBase else translate mem pml4 q j := by
  rw [translate, translate, walk_mapped ht hp hlen hq.le]
  have hpt := ht.isPage_of_reaches ⟨path, hlen.le, hp⟩
  split
  · rename_i hqj
    obtain ⟨rfl, rfl⟩ := hqj
    rw [hp, Option.bind_some, leaf, mapped, entryWord_writeWord]
    exact (if_pos (PageEntry.isPresent_createUser pageBase)).trans
      (congrArg some (PageEntry.baseAddress_createUser hbase))
  · rename_i hqj
    cases hqa : walk (child mem) pml4 q with
    | none => rw [Option.bind_none, Option.bind_none]
    | some a =>
      have ha : Reaches (child mem) pml4 3 a := ⟨q, hq.le, hqa⟩
      have hne : a ≠ pt ∨ j ≠ i := by
        by_contra hcon
        obtain ⟨rfl, rfl⟩ : a = pt ∧ j = i := by tauto
        exact hqj ⟨ht.tree q path a hq.le hlen.le hqa hp, rfl⟩
      rw [Option.bind_some, Option.bind_some]
      exact leaf_congr (entryWord_writeWord_of_ne hpt.aligned (ht.isPage_of_reaches ha).aligned
        i.lt j.lt (hne.imp_right fun hji he ↦ hji (BitVec.eq_of_toNat_eq he)))

end Mapped

/-! ## `MapUserPage` -/

theorem mapUserPage_eq (hv : isCanoncial v) (hbase : pageBase.toNat % pageSize = 0) :
    X86Pages.mapUserPage ⟨pml4⟩ v pageBase fl = (do
      let (pt, fl) ← descend pml4 (upperPath v) fl
      let mem ← setEntry fl.mem pt (leafIndex v).toNat (PageEntry.createUser pageBase).buffer
      return { fl with mem := mem }) := by
  have hal : pageBase % 0x1000#64 = 0 := BitVec.eq_of_toNat_eq (by simpa [pageSize] using hbase)
  simp only [X86Pages.mapUserPage, kassert, Exec.check_of hv, Exec.check_of hal,
    extractPageIndicies_of_canoncial hv, Exec.ok_bind, Exec.pure_eq, upperPath, descend, bind_assoc,
    toNat_setWidth_index]

/-- What `MapUserPage` does, once it has come down to the page table. -/
theorem mapUserPage_of_descend (hv : isCanoncial v) (hbase : pageBase.toNat % pageSize = 0)
    (hd : descend pml4 (upperPath v) fl = .ok (pt, fl')) (hpt : pt ≠ 0) :
    X86Pages.mapUserPage ⟨pml4⟩ v pageBase fl
      = .ok { fl' with mem := mapped fl'.mem pt (leafIndex v) pageBase } := by
  simp only [mapUserPage_eq hv hbase, hd, Exec.ok_bind, setEntry, if_neg hpt, Exec.pure_eq, mapped]

/-- **A call that runs out of tables uses null as one.** -/
theorem mapUserPage_of_runsOut (hv : isCanoncial v) (hbase : pageBase.toNat % pageSize = 0)
    (h : RunsOut pml4 (upperPath v) fl) :
    X86Pages.mapUserPage ⟨pml4⟩ v pageBase fl = .error .nullDeref := by
  rw [mapUserPage_eq hv hbase]
  rcases h.descend_null with hd | ⟨fl', hd⟩ <;> rw [hd]
  · rfl
  · rfl

/-- **`MapUserPage` is an update of the map at one place**, if the pages it gets are usable. -/
theorem mapUserPage_spec (hv : isCanoncial v) (hbase : pageBase.toNat % pageSize = 0)
    (ht : TreeShaped fl.mem pml4)
    (hs : Supplied (Usable pml4 {leafIndex v}) pml4 (upperPath v) fl) :
    ∃ fl', X86Pages.mapUserPage ⟨pml4⟩ v pageBase fl = .ok fl' ∧ TreeShaped fl'.mem pml4 ∧
      ∀ q j, q.length = 3 → translate fl'.mem pml4 q j
        = if q = upperPath v ∧ j = leafIndex v then some pageBase
          else translate fl.mem pml4 q j := by
  obtain ⟨pt, fl', hd, hext⟩ := descend_spec ht (p := []) rfl rfl hs
  rw [List.nil_append] at hext
  have hlen : (upperPath v).length = 3 := rfl
  have hpt : pt ≠ 0 := hext.tree.nonNull pt ⟨_, hlen.le, hext.leads⟩
  refine ⟨_, mapUserPage_of_descend hv hbase hd hpt,
    treeShaped_mapped hext.tree hext.leads hlen, fun q j hq ↦ ?_⟩
  rw [translate_mapped hext.tree hext.leads hlen hbase hq]
  split
  · rfl
  · rename_i hne
    exact hext.translates q j hq (by tauto)

end X8664
