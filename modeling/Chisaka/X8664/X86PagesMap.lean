import Chisaka.X8664.X86PagesTree

/-!
# Mapping pages with the kernel's own allocator

`mapUserPage_translates` is `MapUserPage` in terms of `VirtToPhys`, for whatever pages
`AllocatePage` hands to it, as long as they are filled with zeros.

`AllocatePage` does not fill them with zeros.  It clears the first word, and the rest of a page is
as its last owner left it.  `descend_supply` follows the free pages on their way into the tree, and
`mapUserPage_isolated` says what their contents must be: no word that reads as a present entry.
With such a word there are translations that nobody asked for (`not_isolated_stale`).
-/

set_option autoImplicit false

namespace X8664

open Bytes Chisaka Chisaka.PageAllocators Walk

variable {mem mem' : Memory} {fl fl' : Freelist} {pml4 table page a b pt k : ℕ} {i j : Index}
  {K : Set Index} {p is : List Index} {S : List ℕ} {v pageBase : BitVec 64}

/-! ## The free pages -/

/-- **The first `k` pages of the supply hold no word that reads as a present entry**, apart from
their first words, which are cleared, and the entries in `K` of page `k - 1`. -/
structure Clean (mem : Memory) (K : Set Index) (k : ℕ) (S : List ℕ) : Prop where
  /-- Their addresses fit in an entry. -/
  lt : ∀ page ∈ S.take k, page < 2 ^ 40
  /-- They hold no entries. -/
  absent : ∀ n page, n < k → S[n]? = some page → ∀ j : Index, j ≠ 0 → (n + 1 = k → j ∉ K) →
    isPresent (entryWord mem page j.toNat) = false

namespace Clean

theorem mono {K' : Set Index} (h : Clean mem K k S) (hK : K ⊆ K') : Clean mem K' k S where
  lt := h.lt
  absent n q hn hq j hj hjK := h.absent n q hn hq j hj fun hk hj' ↦ hjK hk (hK hj')

theorem tail (h : Clean mem K (k + 1) (page :: S)) : Clean mem K k S where
  lt q hq := h.lt q (by rw [List.take_succ_cons]; exact List.mem_cons_of_mem page hq)
  absent n q hn hq j hj hK :=
    h.absent (n + 1) q (Nat.succ_lt_succ hn) hq j hj fun hk ↦ hK (Nat.succ.inj hk)

theorem congr (h : Clean mem K k S)
    (hw : ∀ p ∈ S, ∀ j : Index, entryWord mem' p j.toNat = entryWord mem p j.toNat) :
    Clean mem' K k S where
  lt := h.lt
  absent n q hn hq j hj hK := by
    rw [hw q (List.mem_of_getElem? hq)]
    exact h.absent n q hn hq j hj hK

end Clean

/-- What a page is like that has just been handed out. -/
theorem apply_of_allocatePage (ha : allocatePage fl = .ok (page, fl')) (hp : IsPage page) {x : ℕ}
    (hx : page ≤ x) : fl'.mem x = if x < page + 8 then 0 else fl.mem x := by
  rw [mem_of_allocatePage ha hp.pos]
  split
  · rw [writeWord, writeLE, if_pos ⟨hx, by omega⟩, Nat.zero_div]
    rfl
  · exact writeWord_apply_of_ge (by omega)

/-- The entries of such a page, but for the first. -/
theorem entryWord_of_allocatePage (ha : allocatePage fl = .ok (page, fl')) (hp : IsPage page)
    (hj : j ≠ 0) : entryWord fl'.mem page j.toNat = entryWord fl.mem page j.toNat := by
  have hne : j.toNat ≠ 0 := fun he ↦ hj (BitVec.eq_of_toNat_eq he)
  rw [mem_of_allocatePage ha hp.pos]
  exact entryWord_writeWord_of_ne (i := 0) hp.aligned hp.aligned (by decide) j.lt (.inr hne)

/-- The next page of the supply is usable. -/
theorem Clean.usable (h : Clean fl.mem K (is.length + 1) (page :: S)) (hp : IsPage page)
    (hfresh : ¬Reaches (child fl.mem) pml4 3 page) (ha : allocatePage fl = .ok (page, fl')) :
    Usable pml4 K fl page fl' is where
  isPage := hp
  lt := h.lt page (by simp)
  fresh := hfresh
  absent j hj := by
    by_cases h0 : j = 0
    · have hzero : entryWord (writeWord fl.mem page 0) page (0 : Index).toNat = 0 :=
        entryWord_writeWord fl.mem page 0 0
      rw [mem_of_allocatePage ha hp.pos, h0, hzero]
      decide
    · rw [entryWord_of_allocatePage ha hp h0]
      exact h.absent 0 page (by omega) rfl j h0 fun hk ↦
        hj (List.eq_nil_of_length_eq_zero (by omega))

/-- **A step that takes the next page of the supply.** -/
structure Supplies (pml4 : ℕ) (K : Set Index) (p : List Index) (table : ℕ) (i : Index)
    (is : List Index) (page : ℕ) (S : List ℕ) (fl fl₁ fl₂ : Freelist) : Prop where
  /-- The page is handed out. -/
  allocated : allocatePage fl = .ok (page, fl₁)
  /-- It is usable. -/
  usable : Usable pml4 K fl page fl₁ is
  /-- It becomes the next table. -/
  next : X86Pages.nextTable fl table (i.setWidth 16) = .ok (page, fl₂)
  /-- The path leads there. -/
  grows : Extends pml4 (p ++ i :: is) K (p ++ [i]) page fl.mem fl₂.mem
  /-- It is the only new table. -/
  reaches : ∀ a, Reaches (child fl₂.mem) pml4 3 a → Reaches (child fl.mem) pml4 3 a ∨ a = page
  /-- The other pages are left. -/
  supply : Supply fl₂ S
  /-- They are as they were. -/
  bytes : ∀ q ∈ S, ∀ x, q ≤ x → x < q + pageSize → fl₂.mem x = fl.mem x
  /-- They are no tables. -/
  fresh : ∀ q ∈ S, ¬Reaches (child fl₂.mem) pml4 3 q
  /-- The steps behind this one are missing too. -/
  missing : Walk.missing (child fl₂.mem) page is = is.length
  /-- The entries of the page are what they were, but for the first. -/
  words : ∀ j : Index, j ≠ 0 → entryWord fl₂.mem page j.toNat = entryWord fl.mem page j.toNat

theorem supplies (ht : TreeShaped fl.mem pml4) (hp : walk (child fl.mem) pml4 p = some table)
    (hlen : p.length + 1 + is.length = 3) (hS : Supply fl (page :: S))
    (hfresh : ∀ q ∈ page :: S, ¬Reaches (child fl.mem) pml4 3 q)
    (hnone : child fl.mem table i = none) (hc : Clean fl.mem K (is.length + 1) (page :: S)) :
    ∃ fl₁ fl₂, Supplies pml4 K p table i is page S fl fl₁ fl₂ := by
  have htab : IsPage table := ht.isPage_of_reaches ⟨p, by omega, hp⟩
  obtain ⟨hpS, -⟩ := List.nodup_cons.mp hS.nodup
  have hpp := hS.isPage List.mem_cons_self
  obtain ⟨fl₁, ha, hS₁⟩ := hS.cons
  have hu := hc.usable hpp (hfresh page List.mem_cons_self) ha
  have hpt : page ≠ table := fun he ↦ hu.fresh (he ▸ ⟨p, by omega, hp⟩)
  have hnext := nextTable_of_eq_none htab.pos hnone ha
  rw [toNat_baseAddress_createUser hu.isPage hu.lt] at hnext
  have hout : ∀ q ∈ S, IsPage q ∧ q ≠ page ∧ q ≠ table := fun q hq ↦
    ⟨hS.isPage (List.mem_cons_of_mem page hq), fun he ↦ hpS (he ▸ hq),
      fun he ↦ hfresh q (List.mem_cons_of_mem page hq) (he ▸ ⟨p, by omega, hp⟩)⟩
  refine ⟨fl₁, _, ha, hu, hnext, hu.install ht hp hlen hnone ha,
    fun a hr ↦ hu.reaches_linked ht hp hlen hnone ha hr, hS₁.congr fun q hq ↦ ?_,
    fun q hq x hx hx' ↦ ?_, fun q hq hr ↦ ?_, ?_, fun j hj ↦ ?_⟩
  · obtain ⟨hqp, -, hne⟩ := hout q hq
    exact readWord_writeWord_of_disjoint
      (entryAddress_disjoint (j := 0) htab.aligned hqp.aligned i.lt (by decide) (.inl hne))
  · obtain ⟨hqp, hne, hne'⟩ := hout q hq
    exact apply_linked hu.isPage ha htab hqp hne hne' hx hx'
  · exact (hu.reaches_linked ht hp hlen hnone ha hr).elim
      (hfresh q (List.mem_cons_of_mem page hq)) (hout q hq).2.1
  · cases is with
    | nil => rfl
    | cons i' is =>
      refine missing_of_eq_none (child_of_not_isPresent ?_)
      rw [UpperPageEntry.isPresent, upperEntry, entryWord_linked_page hu.isPage htab hpt,
        hu.absent i' fun h0 ↦ absurd h0 (by simp)]
      exact Bool.false_ne_true
  · exact (entryWord_linked_page hu.isPage htab hpt).trans (entryWord_of_allocatePage ha hpp hj)

/-- What is known of a page of the supply when it is handed out: it is usable, and except for its
first word it is as it was in `mem`. -/
def FromSupply (pml4 : ℕ) (K : Set Index) (mem : Memory) (S : List ℕ) (fl : Freelist) (page : ℕ)
    (fl' : Freelist) (is : List Index) : Prop :=
  Usable pml4 K fl page fl' is ∧ page ∈ S ∧
    ∀ x, page ≤ x → x < page + pageSize → fl'.mem x = if x < page + 8 then 0 else mem x

/-- Where going down ends, when the first `k` pages of the supply became tables. -/
structure Taken (pml4 : ℕ) (S : List ℕ) (k : ℕ) (fl : Freelist) (pt : ℕ) (fl' : Freelist) :
    Prop where
  /-- The other pages are left. -/
  supply : Supply fl' (S.drop k)
  /-- They are the only new tables. -/
  reaches : ∀ a, Reaches (child fl'.mem) pml4 3 a → Reaches (child fl.mem) pml4 3 a ∨ a ∈ S.take k
  /-- The last one is the page table, and its entries are what they were, but for the first. -/
  last : ∀ n, k = n + 1 → S[n]? = some pt ∧
    ∀ j : Index, j ≠ 0 → entryWord fl'.mem pt j.toNat = entryWord fl.mem pt j.toNat

/-- **The free pages become tables, one after the other.** -/
theorem descend_supply (ht : TreeShaped fl.mem pml4) (hp : walk (child fl.mem) pml4 p = some table)
    (hlen : p.length + is.length = 3) (hS : Supply fl S)
    (hfresh : ∀ q ∈ S, ¬Reaches (child fl.mem) pml4 3 q)
    (hk : missing (child fl.mem) table is = k) (hkS : k ≤ S.length) (hc : Clean fl.mem K k S) :
    Supplied (FromSupply pml4 K fl.mem S) table is fl ∧
      ∀ pt fl', descend table is fl = .ok (pt, fl') → Taken pml4 S k fl pt fl' := by
  induction is generalizing p table fl S k with
  | nil =>
    obtain rfl : 0 = k := hk
    refine ⟨trivial, fun pt fl' hd ↦ ?_⟩
    obtain ⟨-, rfl⟩ : table = pt ∧ fl = fl' := Prod.mk.inj (Except.ok.inj hd)
    exact ⟨hS, fun a ha ↦ .inl ha, fun n hn ↦ absurd hn (by omega)⟩
  | cons i is ih =>
    rw [List.length_cons] at hlen
    have hlen' : (p ++ [i]).length + is.length = 3 := by
      rw [List.length_append, List.length_singleton]
      omega
    have htab : IsPage table := ht.isPage_of_reaches ⟨p, by omega, hp⟩
    cases hc' : child fl.mem table i with
    | some b =>
      have hnext := nextTable_of_eq_some htab.pos hc'
      have hb : walk (child fl.mem) pml4 (p ++ [i]) = some b := by
        rw [walk_concat_of_eq_some hp, hc']
      rw [missing_of_eq_some hc'] at hk
      obtain ⟨hsup, hrest⟩ := ih ht hb hlen' hS hfresh hk hkS hc
      refine ⟨⟨fun hnone ↦ absurd (hc'.symm.trans hnone) (by simp), fun next fl₁ hn ↦ ?_⟩,
        fun pt fl' hd ↦ hrest pt fl' ?_⟩
      · obtain ⟨rfl, rfl⟩ : b = next ∧ fl = fl₁ := Prod.mk.inj (Except.ok.inj (hnext.symm.trans hn))
        exact hsup
      · rwa [descend, hnext, Exec.ok_bind] at hd
    | none =>
      rw [missing_of_eq_none hc'] at hk
      subst hk
      obtain ⟨page, S, rfl⟩ : ∃ page S', S = page :: S' :=
        List.exists_cons_of_ne_nil fun h0 ↦ by simp [h0] at hkS
      obtain ⟨fl₁, fl₂, h⟩ := supplies ht hp (by omega) hS hfresh hc' hc
      have hc₂ : Clean fl₂.mem K is.length S := hc.tail.congr fun q hq j ↦
        entryWord_congr fun x hx hx' ↦ h.bytes q hq x hx hx'
      obtain ⟨hsup, hrest⟩ := ih h.grows.tree h.grows.leads hlen' h.supply h.fresh h.missing
        (Nat.le_of_succ_le_succ hkS) hc₂
      refine ⟨⟨fun _ ↦ ⟨page, fl₁, h.allocated, h.usable, List.mem_cons_self, fun x hx _ ↦
        apply_of_allocatePage h.allocated h.usable.isPage hx⟩, fun next fl' hn ↦ ?_⟩,
        fun pt fl' hd ↦ ?_⟩
      · obtain ⟨rfl, rfl⟩ : page = next ∧ fl₂ = fl' :=
          Prod.mk.inj (Except.ok.inj (h.next.symm.trans hn))
        refine hsup.mono fun _ q _ _ hq ↦
          ⟨hq.1, List.mem_cons_of_mem page hq.2.1, fun x hx hx' ↦ ?_⟩
        rw [hq.2.2 x hx hx', h.bytes q hq.2.1 x hx hx']
      · rw [descend, h.next, Exec.ok_bind] at hd
        have htaken := hrest pt fl' hd
        refine ⟨htaken.supply, fun a ha' ↦ ?_, fun n hn ↦ ?_⟩
        · rw [List.take_succ_cons, List.mem_cons]
          rcases htaken.reaches a ha' with hr | hr
          · exact (h.reaches a hr).imp_right .inl
          · exact .inr (.inr hr)
        · obtain rfl : is.length = n := Nat.succ.inj hn
          cases is with
          | nil =>
            obtain ⟨rfl, rfl⟩ : page = pt ∧ fl₂ = fl' := Prod.mk.inj (Except.ok.inj hd)
            exact ⟨rfl, h.words⟩
          | cons i' is =>
            obtain ⟨hpt, hwords⟩ := htaken.last is.length rfl
            refine ⟨hpt, fun j hj ↦ (hwords j hj).trans ?_⟩
            exact entryWord_congr fun x hx hx' ↦ h.bytes pt (List.mem_of_getElem? hpt) x hx hx'

/-- **A supply that is too short runs out.** -/
theorem runsOut_of_supply (ht : TreeShaped fl.mem pml4)
    (hp : walk (child fl.mem) pml4 p = some table) (hlen : p.length + is.length = 3)
    (hS : Supply fl S) (hfresh : ∀ q ∈ S, ¬Reaches (child fl.mem) pml4 3 q)
    (hk : missing (child fl.mem) table is = k) (hkS : S.length < k) (hc : Clean fl.mem K k S) :
    RunsOut table is fl := by
  induction is generalizing p table fl S k with
  | nil =>
    obtain rfl : 0 = k := hk
    exact absurd hkS (Nat.not_lt_zero _)
  | cons i is ih =>
    rw [List.length_cons] at hlen
    have hlen' : (p ++ [i]).length + is.length = 3 := by
      rw [List.length_append, List.length_singleton]
      omega
    have htab : IsPage table := ht.isPage_of_reaches ⟨p, by omega, hp⟩
    cases hc' : child fl.mem table i with
    | some b =>
      have hb : walk (child fl.mem) pml4 (p ++ [i]) = some b := by
        rw [walk_concat_of_eq_some hp, hc']
      rw [missing_of_eq_some hc'] at hk
      exact .inr ⟨b, fl, nextTable_of_eq_some htab.pos hc', ih ht hb hlen' hS hfresh hk hkS hc⟩
    | none =>
      rw [missing_of_eq_none hc'] at hk
      subst hk
      cases S with
      | nil => exact .inl ⟨hc', fl, hS.nil⟩
      | cons page S =>
        obtain ⟨fl₁, fl₂, h⟩ := supplies ht hp (by omega) hS hfresh hc' hc
        have hc₂ : Clean fl₂.mem K is.length S := hc.tail.congr fun q hq j ↦
          entryWord_congr fun x hx hx' ↦ h.bytes q hq x hx hx'
        exact .inr ⟨page, fl₂, h.next, ih h.grows.tree h.grows.leads hlen' h.supply h.fresh
          h.missing (Nat.lt_of_succ_lt_succ hkS) hc₂⟩

/-- **An exhausted supply leads to null.** -/
theorem descend_exhausted (ht : TreeShaped fl.mem pml4)
    (hp : walk (child fl.mem) pml4 p = some table) (hlen : p.length + is.length = 3)
    (hS : Supply fl S) (hfresh : ∀ q ∈ S, ¬Reaches (child fl.mem) pml4 3 q)
    (hk : missing (child fl.mem) table is = k) (hkS : S.length < k) (hc : Clean fl.mem K k S) :
    ∀ pt fl', descend table is fl = .ok (pt, fl') → pt = 0 := by
  intro pt fl' hd
  rcases (runsOut_of_supply ht hp hlen hS hfresh hk hkS hc).descend_null with he | ⟨fl₁, he⟩ <;>
    rw [he] at hd <;> cases hd
  rfl

/-! ### An empty tree and three free pages -/

/-- Three free pages from 0x2000 on, linked, in memory that is zero otherwise. -/
def threePages : Freelist :=
  ⟨writeWord (writeWord (fun _ ↦ 0) 0x2000 0x3000) 0x3000 0x4000, 0x2000, 0, 3, 0⟩

theorem supply_threePages : Supply threePages [0x2000, 0x3000, 0x4000] where
  lists := by
    refine ⟨[0x2000, 0x3000, 0x4000], [], rfl, ⟨?_, by decide, fun p hp ↦ ?_⟩,
      ⟨rfl, by simp, by simp⟩⟩
    · exact ⟨rfl, by decide, by decide, show readWord threePages.mem 0x4000 = 0 by decide⟩
    · simp only [List.mem_cons, List.not_mem_nil, or_false] at hp
      rcases hp with rfl | rfl | rfl <;> constructor <;> decide
  nodup := by decide

/-- Nothing but the links is not zero. -/
theorem mem_threePages {x : ℕ} (h1 : x < 0x2000 ∨ 0x2008 ≤ x) (h2 : x < 0x3000 ∨ 0x3008 ≤ x) :
    threePages.mem x = 0 := by
  have hwords : WordsOnly [0x2000, 0x3000] (fun _ ↦ 0) threePages.mem :=
    (wordsOnly_writeWord (by simp)).trans (wordsOnly_writeWord (by simp))
  exact hwords x fun a ha ↦ by
    simp only [List.mem_cons, List.not_mem_nil, or_false] at ha
    rcases ha with rfl | rfl <;> assumption

theorem entryWord_threePages (ha : a % pageSize = 0) (hj : j ≠ 0 ∨ a ≠ 0x2000 ∧ a ≠ 0x3000) :
    entryWord threePages.mem a j.toNat = 0 := by
  have hne : j.toNat ≠ 0 ∨ a ≠ 0x2000 ∧ a ≠ 0x3000 :=
    hj.imp_left fun h0 he ↦ h0 (BitVec.eq_of_toNat_eq he)
  have h1 : ∀ (mem : Memory) (w : ℕ), entryWord (writeWord mem 0x2000 w) a j.toNat
      = entryWord mem a j.toNat := fun mem w ↦
    entryWord_writeWord_of_ne (i := 0) (by decide) ha (by decide) j.lt (by omega)
  have h2 : ∀ (mem : Memory) (w : ℕ), entryWord (writeWord mem 0x3000 w) a j.toNat
      = entryWord mem a j.toNat := fun mem w ↦
    entryWord_writeWord_of_ne (i := 0) (by decide) ha (by decide) j.lt (by omega)
  rw [threePages, h2, h1]
  exact entryWord_of_zero fun _ _ _ ↦ rfl

/-- The page at 0x1000 is a tree without branches. -/
theorem treeShaped_of_zero (h : ∀ j : Index, entryWord mem 0x1000 j.toNat = 0) :
    TreeShaped mem 0x1000 ∧ ∀ a, Reaches (child mem) 0x1000 3 a → a = 0x1000 := by
  refine TreeShaped.of_empty (by decide) fun j ↦ child_of_not_isPresent ?_
  rw [upperEntry, h]
  decide

theorem missing_of_zero (h : ∀ j : Index, entryWord mem 0x1000 j.toNat = 0) (v : BitVec 64) :
    missing (child mem) 0x1000 (upperPath v) = 3 := by
  refine missing_of_eq_none (child_of_not_isPresent ?_)
  rw [upperEntry, h]
  decide

theorem zero_threePages (j : Index) : entryWord threePages.mem 0x1000 j.toNat = 0 :=
  entryWord_threePages (by decide) (.inr (by decide))

theorem clean_threePages (K : Set Index) :
    Clean threePages.mem K 3 [0x2000, 0x3000, 0x4000] where
  lt := by decide
  absent n page _ hpage j hj _ := by
    have hp := supply_threePages.isPage (List.mem_of_getElem? hpage)
    rw [entryWord_threePages hp.aligned (.inl hj)]
    decide

theorem fresh_of_zero (h : ∀ j : Index, entryWord mem 0x1000 j.toNat = 0) :
    ∀ q ∈ [0x2000, 0x3000, 0x4000], ¬Reaches (child mem) 0x1000 3 q := by
  intro q hq hr
  rw [(treeShaped_of_zero h).2 q hr] at hq
  exact absurd hq (by decide)

/-! ## In terms of addresses -/

/-- What `MapUserPage` may expect of a page that `AllocatePage` hands out: it is filled with zeros,
its address fits in an entry, and no table lives there. -/
structure Handed (pml4 : ℕ) (fl : Freelist) (page : ℕ) (fl' : Freelist) (_is : List Index) :
    Prop where
  /-- It is a page, not null. -/
  isPage : IsPage page
  /-- It lies below `2 ^ 40`. -/
  lt : page < 2 ^ 40
  /-- It is none of the tables. -/
  fresh : ¬Reaches (child fl.mem) pml4 3 page
  /-- It is filled with zeros. -/
  zero : ∀ x, page ≤ x → x < page + pageSize → fl'.mem x = 0

theorem Handed.usable (h : Handed pml4 fl page fl' is) : Usable pml4 K fl page fl' is :=
  ⟨h.isPage, h.lt, h.fresh, fun j _ ↦ by rw [entryWord_of_zero h.zero]; decide⟩

/-- **Mapping a page maps that page and no other**, whichever tables were missing: afterwards the
tables form a tree, every address of the page is translated to the new place, and every other one as
before. -/
theorem mapUserPage_translates (pages : X86Pages) (v pageBase : BitVec 64) (fl : Freelist)
    (hv : isCanoncial v) (hbase : pageBase.toNat % pageSize = 0)
    (ht : TreeShaped fl.mem pages.pml4)
    (hs : Supplied (Handed pages.pml4) pages.pml4 (upperPath v) fl) :
    ∃ fl', pages.mapUserPage v pageBase fl = .ok fl' ∧ TreeShaped fl'.mem pages.pml4 ∧
      ∀ w, isCanoncial w →
        (SamePage v w → pages.virtToPhys fl'.mem w = .ok (pageBase + (w &&& 0xFFF#64))) ∧
        (¬SamePage v w → pages.virtToPhys fl'.mem w = pages.virtToPhys fl.mem w) := by
  obtain ⟨fl', hmap, ht', htr⟩ :=
    mapUserPage_spec hv hbase ht (hs.mono fun _ _ _ _ h ↦ h.usable)
  refine ⟨fl', hmap, ht', fun w hw ↦ ?_⟩
  rw [virtToPhys_eq ht'.nonNull hw, virtToPhys_eq ht.nonNull hw, htr _ _ rfl]
  constructor
  · intro hsame
    obtain ⟨hpath, hleaf⟩ := hsame.indices
    rw [if_pos ⟨hpath.symm, hleaf.symm⟩]
    rfl
  · intro hne
    rw [if_neg fun hcon ↦ hne (samePage_of_indices hv hw hcon.1.symm hcon.2.symm)]

/-- The three pages are what `MapUserPage` may expect. -/
theorem supplied_threePages :
    Supplied (Handed 0x1000) 0x1000 (upperPath 0) threePages := by
  have hsup := (descend_supply (p := []) (treeShaped_of_zero zero_threePages).1 rfl rfl
    supply_threePages (fresh_of_zero zero_threePages) (missing_of_zero zero_threePages 0)
    (by decide) (clean_threePages ∅)).1
  refine hsup.mono fun _ page _ _ h ↦ ⟨h.1.isPage, h.1.lt, h.1.fresh, fun x hx hx' ↦ ?_⟩
  rw [h.2.2 x hx hx']
  split
  · rfl
  · have hal := h.1.isPage.aligned
    simp only [pageSize] at *
    exact mem_threePages (by omega) (by omega)

theorem mapUserPage_translates_threePages :
    ∃ fl', X86Pages.mapUserPage ⟨0x1000⟩ 0 0x8000 threePages = .ok fl' ∧ TreeShaped fl'.mem 0x1000 ∧
      X86Pages.virtToPhys ⟨0x1000⟩ fl'.mem 0x123 = .ok 0x8123 := by
  obtain ⟨fl', hmap, ht, htr⟩ := mapUserPage_translates ⟨0x1000⟩ 0 0x8000 threePages (by decide)
    (by decide) (treeShaped_of_zero zero_threePages).1 supplied_threePages
  exact ⟨fl', hmap, ht, (htr 0x123 (by decide)).1 (show (0#64 >>> 12) = 0x123#64 >>> 12 by decide)⟩

/-! ## Stale entries -/

/-- **Another page of the same page table**, at offset 1. -/
theorem exists_address (hv : isCanoncial v) (j : Index) :
    ∃ w, isCanoncial w ∧ upperPath w = upperPath v ∧ leafIndex w = j ∧ w &&& 0xFFF#64 = 1 := by
  set w : BitVec 64 := v.extractLsb' 21 43 ++ (j ++ 1#12) with hw
  have hlow : ∀ n < 12, w.getLsbD n = (1#12).getLsbD n := by
    intro n hn
    rw [hw, BitVec.getLsbD_append, BitVec.getLsbD_append, if_pos (by omega), if_pos hn]
  have hmid : ∀ n < 9, w.getLsbD (12 + n) = j.getLsbD n := by
    intro n hn
    rw [hw, BitVec.getLsbD_append, BitVec.getLsbD_append, if_pos (by omega), if_neg (by omega)]
    rw [show 12 + n - 12 = n by omega]
  have hhigh : ∀ n, 21 ≤ n → n < 64 → w.getLsbD n = v.getLsbD n := by
    intro n hn hlt
    rw [hw, BitVec.getLsbD_append, if_neg (by omega), BitVec.getLsbD_extractLsb']
    rw [show 21 + (n - (9 + 12)) = n by omega, decide_eq_true (by omega), Bool.true_and]
  have hfield : ∀ k, 21 ≤ k → k + 9 ≤ 64 → w.extractLsb' k 9 = v.extractLsb' k 9 := by
    intro k hk hlt
    refine BitVec.eq_of_getLsbD_eq fun n hn ↦ ?_
    rw [BitVec.getLsbD_extractLsb', BitVec.getLsbD_extractLsb', hhigh _ (by omega) (by omega)]
  refine ⟨w, ?_, ?_, ?_, ?_⟩
  · have hmask : w &&& canoncialMask = v &&& canoncialMask := by
      refine BitVec.eq_of_getLsbD_eq fun n hn ↦ ?_
      rw [BitVec.getLsbD_and, BitVec.getLsbD_and, getLsbD_canoncialMask hn]
      by_cases h47 : 47 ≤ n
      · rw [hhigh n (by omega) hn]
      · rw [decide_eq_false h47, Bool.and_false, Bool.and_false]
    rwa [isCanoncial, hmask]
  · rw [upperPath, upperPath, hfield 39 (by decide) (by decide), hfield 30 (by decide) (by decide),
      hfield 21 (by decide) (by decide)]
  · refine BitVec.eq_of_getLsbD_eq fun n hn ↦ ?_
    rw [leafIndex, BitVec.getLsbD_extractLsb', hmid n hn, decide_eq_true hn, Bool.true_and]
  · refine BitVec.eq_of_getLsbD_eq fun n hn ↦ ?_
    have hmask : ∀ n : Fin 64, (0xFFF#64).getLsbD n = decide (n.val < 12) := by decide
    have hone : ∀ n : Fin 64, (1#64).getLsbD n = (1#12).getLsbD n := by decide
    rw [BitVec.getLsbD_and, hmask ⟨n, hn⟩, show (1 : BitVec 64).getLsbD n = _ from hone ⟨n, hn⟩]
    by_cases h12 : n < 12
    · rw [hlow n h12, decide_eq_true h12, Bool.and_true]
    · rw [decide_eq_false h12, Bool.and_false, BitVec.getLsbD_of_ge _ _ (not_lt.mp h12)]

/-- The byte behind the base of a page is not at 0. -/
theorem baseAddress_add_one_ne (e : PageEntry) : e.baseAddress + 1 ≠ 0 := by
  intro h
  have hbase : e.baseAddress = 0#64 - 1#64 := by
    rw [← show e.baseAddress + 1#64 = 0#64 from h, BitVec.add_sub_cancel]
  have hbit := congrArg (fun x ↦ x.getLsbD 0) hbase
  have hmask : PageEntry.addressMask.getLsbD 0 = false := by decide
  have hone : (0#64 - 1#64).getLsbD 0 = true := by decide
  simp only [PageEntry.baseAddress, BitVec.getLsbD_and, hmask, hone, Bool.and_false] at hbit
  exact Bool.false_ne_true hbit

/-- **The call touches nothing it should not**: it returns, no page but the requested one is mapped
that was not mapped before, and nothing is written but the tables and the pages `N` that the call
took from the allocator. -/
def Isolated (pages : X86Pages) (v pageBase : BitVec 64) (fl : Freelist) : Prop :=
  ∃ fl' N S, pages.mapUserPage v pageBase fl = .ok fl' ∧ Supply fl (N ++ S) ∧ Supply fl' S ∧
    (∀ w, isCanoncial w → ¬SamePage v w → pages.virtToPhys fl.mem w = .ok 0 →
      pages.virtToPhys fl'.mem w = .ok 0) ∧
    ∀ x, (∀ a, Reaches (child fl.mem) pages.pml4 3 a ∨ a ∈ N → x < a ∨ a + pageSize ≤ x) →
      fl'.mem x = fl.mem x

section Isolated

variable (hv : isCanoncial v) (hbase : pageBase.toNat % pageSize = 0) (ht : TreeShaped fl.mem pml4)
  (hS : Supply fl S) (hfresh : ∀ q ∈ S, ¬Reaches (child fl.mem) pml4 3 q)
  (hk : missing (child fl.mem) pml4 (upperPath v) = k)

include hv hbase ht hS hfresh hk

/-- With enough clean pages the call returns, and this is where. -/
theorem exists_descend (hkS : k ≤ S.length) (hc : Clean fl.mem K k S) :
    ∃ pt fl₁, descend pml4 (upperPath v) fl = .ok (pt, fl₁) ∧
      Extends pml4 (upperPath v) K (upperPath v) pt fl.mem fl₁.mem ∧ Taken pml4 S k fl pt fl₁ ∧
      X86Pages.mapUserPage ⟨pml4⟩ v pageBase fl
        = .ok { fl₁ with mem := mapped fl₁.mem pt (leafIndex v) pageBase } := by
  obtain ⟨hsup, htaken⟩ := descend_supply ht (p := []) rfl rfl hS hfresh hk hkS hc
  obtain ⟨pt, fl₁, hd, hext⟩ := descend_spec ht (p := []) rfl rfl (hsup.mono fun _ _ _ _ h ↦ h.1)
  rw [List.nil_append] at hext
  have hpt : pt ≠ 0 := hext.tree.nonNull pt ⟨upperPath v, le_refl 3, hext.leads⟩
  exact ⟨pt, fl₁, hd, hext, htaken pt fl₁ hd, mapUserPage_of_descend hv hbase hd hpt⟩

/-- **Clean pages leave no trace.** -/
theorem isolated_of_clean (hkS : k ≤ S.length) (hc : Clean fl.mem {leafIndex v} k S) :
    Isolated ⟨pml4⟩ v pageBase fl := by
  obtain ⟨pt, fl₁, hd, hext, htaken, hmap⟩ := exists_descend hv hbase ht hS hfresh hk hkS hc
  have hlen : (upperPath v).length = 3 := rfl
  have hpt : Reaches (child fl₁.mem) pml4 3 pt := ⟨upperPath v, hlen.le, hext.leads⟩
  have hnodup := hS.nodup
  rw [← List.take_append_drop k S] at hnodup
  refine ⟨_, S.take k, S.drop k, hmap, by rwa [List.take_append_drop],
    htaken.supply.congr fun q hq ↦ ?_, fun w hw hne hw0 ↦ ?_, fun x hx ↦ ?_⟩
  · have hne : q ≠ pt := by
      rintro rfl
      rcases htaken.reaches q hpt with hr | hr
      · exact hfresh q (List.mem_of_mem_drop hq) hr
      · exact (List.nodup_append.mp hnodup).2.2 q hr q hq rfl
    exact readWord_writeWord_of_disjoint (entryAddress_disjoint (j := 0)
      (hext.tree.isPage_of_reaches hpt).aligned (htaken.supply.isPage hq).aligned (leafIndex v).lt
      (by decide) (.inl hne))
  · have ht' : TreeShaped (mapped fl₁.mem pt (leafIndex v) pageBase) pml4 :=
      treeShaped_mapped hext.tree hext.leads hlen
    have hne' : ¬(upperPath w = upperPath v ∧ leafIndex w = leafIndex v) := fun hcon ↦
      hne (samePage_of_indices hv hw hcon.1.symm hcon.2.symm)
    rw [virtToPhys_eq ht.nonNull hw] at hw0
    rw [virtToPhys_eq ht'.nonNull hw, translate_mapped hext.tree hext.leads hlen hbase rfl,
      if_neg hne', hext.translates _ _ rfl (by rw [Set.mem_singleton_iff]; tauto), hw0]
  · have hx' : ∀ a, Reaches (child fl₁.mem) pml4 3 a → x < a ∨ a + pageSize ≤ x :=
      fun a ha ↦ hx a (htaken.reaches a ha)
    exact (mapped_apply (hx' pt hpt)).trans (hext.frame x hx')

/-- **A stale entry in the page table is a translation.** -/
theorem clean_of_isolated (hc : Clean fl.mem Set.univ k S) (h : Isolated ⟨pml4⟩ v pageBase fl) :
    k ≤ S.length ∧ Clean fl.mem {leafIndex v} k S := by
  obtain ⟨fl', -, -, hmap', -, -, hnew, -⟩ := h
  have hkS : k ≤ S.length := by
    by_contra hlt
    rw [mapUserPage_eq hv hbase] at hmap'
    obtain ⟨⟨pt, fl₁⟩, hd, hset⟩ := Exec.bind_eq_ok.mp hmap'
    obtain rfl := descend_exhausted ht (p := []) rfl rfl hS hfresh hk (not_le.mp hlt) hc pt fl₁ hd
    simp [setEntry] at hset
  refine ⟨hkS, hc.lt, fun n page hn hpage j hj hjK ↦ ?_⟩
  by_cases hlast : n + 1 = k
  swap
  · exact hc.absent n page hn hpage j hj fun hk' ↦ absurd hk' hlast
  by_contra hpres
  obtain ⟨pt, fl₁, hd, hext, htaken, hmap⟩ := exists_descend hv hbase ht hS hfresh hk hkS hc
  obtain ⟨hpt, hwords⟩ := htaken.last n hlast.symm
  obtain rfl : page = pt := Option.some.inj (hpage.symm.trans hpt)
  obtain rfl := Except.ok.inj (hmap.symm.trans hmap')
  -- an address of the page that the stale entry stands for
  obtain ⟨w, hw, hpath, hleaf, hone⟩ := exists_address hv j
  have hjv : j ≠ leafIndex v := hjK hlast
  have hne : ¬SamePage v w := fun hsame ↦ hjv (hleaf ▸ hsame.indices.2.symm)
  have hbefore : X86Pages.virtToPhys ⟨pml4⟩ fl.mem w = .ok 0 := by
    rw [virtToPhys_eq ht.nonNull hw, translate, hpath, walk_of_missing_ne_zero (by omega)]
    rfl
  have ht' : TreeShaped (mapped fl₁.mem page (leafIndex v) pageBase) pml4 :=
    treeShaped_mapped hext.tree hext.leads rfl
  have hafter := hnew w hw hne hbefore
  have hleaf' : leaf fl₁.mem page j
      = some (PageEntry.mk (entryWord fl.mem page j.toNat)).baseAddress := by
    rw [leaf, hwords j hj]
    exact if_pos (Bool.eq_true_of_not_eq_false hpres)
  rw [virtToPhys_eq ht'.nonNull hw, translate_mapped hext.tree hext.leads rfl hbase rfl, hpath,
    hleaf, if_neg fun hcon ↦ hjv hcon.2, translate, hext.leads, Option.bind_some, hleaf',
    hone] at hafter
  exact baseAddress_add_one_ne _ (Except.ok.inj hafter)

end Isolated

/-- **Mapping is isolated if the new tables are made of clean pages.**  The condition is exact for
the contents of the new page table and for the number of pages, when those above it are clean. -/
theorem mapUserPage_isolated (pages : X86Pages) (v pageBase : BitVec 64) (fl : Freelist)
    (S : List ℕ) (hv : isCanoncial v) (hbase : pageBase.toNat % pageSize = 0)
    (ht : TreeShaped fl.mem pages.pml4) (hS : Supply fl S)
    (hfresh : ∀ q ∈ S, ¬Reaches (child fl.mem) pages.pml4 3 q) (k : ℕ)
    (hk : missing (child fl.mem) pages.pml4 (upperPath v) = k) :
    (k ≤ S.length ∧ Clean fl.mem {leafIndex v} k S → Isolated pages v pageBase fl) ∧
      (Clean fl.mem Set.univ k S → Isolated pages v pageBase fl →
        k ≤ S.length ∧ Clean fl.mem {leafIndex v} k S) :=
  ⟨fun hc ↦ isolated_of_clean hv hbase ht hS hfresh hk hc.1 hc.2,
    clean_of_isolated hv hbase ht hS hfresh hk⟩

theorem mapUserPage_isolated_threePages : Isolated ⟨0x1000⟩ 0 0x8000 threePages :=
  (mapUserPage_isolated ⟨0x1000⟩ 0 0x8000 threePages [0x2000, 0x3000, 0x4000] (by decide)
    (by decide) (treeShaped_of_zero zero_threePages).1 supply_threePages
    (fresh_of_zero zero_threePages) 3 (missing_of_zero zero_threePages 0)).1
    ⟨by decide, clean_threePages _⟩

/-- The same pages, and in the third of them a word that an earlier owner left there. -/
def stalePages : Freelist := { threePages with mem := writeWord threePages.mem 0x4028 0x9007 }

theorem supply_stalePages : Supply stalePages [0x2000, 0x3000, 0x4000] :=
  supply_threePages.congr fun q hq ↦ by
    simp only [List.mem_cons, List.not_mem_nil, or_false] at hq
    exact readWord_writeWord_of_disjoint (by omega)

theorem zero_stalePages (j : Index) : entryWord stalePages.mem 0x1000 j.toNat = 0 := by
  rw [← zero_threePages j]
  exact entryWord_congr fun x _ hx ↦ writeWord_apply_of_lt (by simp only [pageSize] at hx; omega)

/-- **A stale word is a translation.**  Mapping the page at 0 makes a table of a page whose sixth
word happens to read as an entry, and the address 0x5000, which was not mapped, is. -/
theorem not_isolated_stale :
    ¬∀ (pages : X86Pages) (v pageBase : BitVec 64) (fl : Freelist) (S : List ℕ), isCanoncial v →
      pageBase.toNat % pageSize = 0 → TreeShaped fl.mem pages.pml4 → Supply fl S →
      (∀ q ∈ S, ¬Reaches (child fl.mem) pages.pml4 3 q) → Isolated pages v pageBase fl := by
  intro h
  obtain ⟨fl', N, S, hmap, -, -, hnew, -⟩ := h ⟨0x1000⟩ 0 0x8000 stalePages [0x2000, 0x3000, 0x4000]
    (by decide) (by decide) (treeShaped_of_zero zero_stalePages).1 supply_stalePages
    (fresh_of_zero zero_stalePages)
  have hafter := hnew 0x5000 (by decide) (show ¬(0#64 >>> 12 = 0x5000#64 >>> 12) by decide)
    (by decide)
  have hrun : (do
      let fl ← X86Pages.mapUserPage ⟨0x1000⟩ 0 0x8000 stalePages
      X86Pages.virtToPhys ⟨0x1000⟩ fl.mem 0x5000) = .ok 0x9000 := by
    decide
  rw [hmap, Exec.ok_bind, hafter] at hrun
  exact absurd (Except.ok.inj hrun) (by decide)

end X8664
