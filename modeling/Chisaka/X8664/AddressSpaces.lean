import Chisaka.Ram.FreelistFrames
import Chisaka.Ram.FreelistRuns
import Chisaka.X8664.X86PagesMap

/-!
# Address spaces

Several trees of page tables, which take their tables from one page allocator, while clients take
pages from it, write into them and return them.  `spacesMachine` is this system: a space is made of
an empty page (`X86Pages(pml4)`), `MapUserPage` maps a page in one of them, and `VirtToPhys` looks
an address up.

`spacesSpec` is what a space is for: a map from pages to pages of its own.  `spaces_refine` is the
refinement: in every run whose calls to `MapUserPage` find enough clean pages
(`SpacesRun.Fits`), every answer of `VirtToPhys` is the one of the map, so that a space sees what
was mapped in it, nothing of the other spaces, and nothing of what clients do.
-/

set_option autoImplicit false

namespace X8664

open Bytes Chisaka Chisaka.PageAllocators Walk

/-! ## One call -/

section Call

variable {mem mem' : Memory} {fl : Freelist} {pml4 k : ℕ} {S : List ℕ} {v pageBase : BitVec 64}

/-- **`MapUserPage` with enough clean pages**: which pages it takes, which one it maps, and where it
writes. -/
structure Maps (pml4 : ℕ) (v pageBase : BitVec 64) (N : List ℕ) (mem mem' : Memory) : Prop where
  /-- There is a tree again. -/
  tree : TreeShaped mem' pml4
  /-- Its tables are those it had, and the pages that were taken. -/
  reaches : ∀ a, Reaches (child mem') pml4 3 a → Reaches (child mem) pml4 3 a ∨ a ∈ N
  /-- One page is mapped, and the others as before. -/
  translates : ∀ q j, q.length = 3 → translate mem' pml4 q j =
    if q = upperPath v ∧ j = leafIndex v then some pageBase else translate mem pml4 q j
  /-- Only tables were written. -/
  frame : ∀ x, (∀ a, Reaches (child mem) pml4 3 a ∨ a ∈ N → x < a ∨ a + pageSize ≤ x) →
    mem' x = mem x

theorem exists_maps (hv : isCanoncial v) (hbase : pageBase.toNat % pageSize = 0)
    (ht : TreeShaped fl.mem pml4) (hS : Supply fl S)
    (hfresh : ∀ q ∈ S, ¬Reaches (child fl.mem) pml4 3 q)
    (hk : missing (child fl.mem) pml4 (upperPath v) = k) (hkS : k ≤ S.length)
    (hc : Clean fl.mem ∅ k S) :
    ∃ fl', X86Pages.mapUserPage ⟨pml4⟩ v pageBase fl = .ok fl' ∧ Supply fl' (S.drop k) ∧
      Maps pml4 v pageBase (S.take k) fl.mem fl'.mem := by
  obtain ⟨pt, fl₁, hd, hext, htaken, hmap⟩ := exists_descend hv hbase ht hS hfresh hk hkS hc
  have hlen : (upperPath v).length = 3 := rfl
  have hpt : Reaches (child fl₁.mem) pml4 3 pt := ⟨upperPath v, hlen.le, hext.leads⟩
  have hnodup := hS.nodup
  rw [← List.take_append_drop k S] at hnodup
  refine ⟨_, hmap, htaken.supply.congr fun q hq ↦ ?_, ⟨?_, fun a ha ↦ ?_, fun q j hq ↦ ?_,
    fun x hx ↦ ?_⟩⟩
  · -- the page table is not one of the pages that are left
    have hne : q ≠ pt := by
      rintro rfl
      rcases htaken.reaches q hpt with hr | hr
      · exact hfresh q (List.mem_of_mem_drop hq) hr
      · exact (List.nodup_append.mp hnodup).2.2 q hr q hq rfl
    exact readWord_writeWord_of_disjoint (entryAddress_disjoint (j := 0)
      (hext.tree.isPage_of_reaches hpt).aligned (htaken.supply.isPage hq).aligned (leafIndex v).lt
      (by decide) (.inl hne))
  · exact treeShaped_mapped hext.tree hext.leads hlen
  · exact htaken.reaches a ((reaches_mapped hext.tree hext.leads hlen).mp ha)
  · rw [translate_mapped hext.tree hext.leads hlen hbase hq]
    split
    · rfl
    · exact hext.translates q j hq (.inr (Set.notMem_empty j))
  · have hx' : ∀ a, Reaches (child fl₁.mem) pml4 3 a → x < a ∨ a + pageSize ≤ x :=
      fun a ha ↦ hx a (htaken.reaches a ha)
    exact (mapped_apply (hx' pt hpt)).trans (hext.frame x hx')

/-- The memories agree on the tables. -/
def SameTables (pml4 : ℕ) (mem mem' : Memory) : Prop :=
  ∀ a, Reaches (child mem) pml4 3 a → ∀ x, a ≤ x → x < a + pageSize → mem' x = mem x

namespace SameTables

variable {a : ℕ} {q : List Index}

/-- Then they have the same tree, -/
theorem walk_eq (h : SameTables pml4 mem mem') (hq : q.length ≤ 3) :
    walk (child mem') pml4 q = walk (child mem) pml4 q :=
  walk_congr (fun r a hr ha _ ↦ child_congr (entryWord_congr (h a ⟨r, hr.le, ha⟩))) hq

theorem reaches_iff (h : SameTables pml4 mem mem') :
    Reaches (child mem') pml4 3 a ↔ Reaches (child mem) pml4 3 a :=
  exists_congr fun _ ↦ and_congr_right fun hq ↦ by rw [h.walk_eq hq]

theorem treeShaped (h : SameTables pml4 mem mem') (ht : TreeShaped mem pml4) :
    TreeShaped mem' pml4 :=
  ⟨ht.isPage, fun a ha ↦ ht.nonNull a (h.reaches_iff.mp ha), ht.tree.congr fun _ hq ↦ h.walk_eq hq⟩

/-- and the same translations. -/
theorem translate_eq (h : SameTables pml4 mem mem') (hq : q.length = 3) (j : Index) :
    translate mem' pml4 q j = translate mem pml4 q j := by
  rw [translate, translate, h.walk_eq hq.le]
  cases hw : walk (child mem) pml4 q with
  | none => rw [Option.bind_none, Option.bind_none]
  | some a =>
    rw [Option.bind_some, Option.bind_some]
    exact leaf_congr (entryWord_congr (h a ⟨q, hq.le, hw⟩))

end SameTables

end Call

/-! ## Spaces and clients -/

/-- What is done to the spaces, and to pages. -/
inductive SpacesCall
  /-- `X86Pages(pml4)`, for a page of the caller. -/
  | newSpace (pml4 : ℕ)
  | mapUserPage (pml4 : ℕ) (virtAddr pageBase : BitVec 64)
  | virtToPhys (pml4 : ℕ) (virtAddr : BitVec 64)
  | palloc
  | pallocPages (pages : ℕ)
  | pfree (pagebase : ℕ)
  | writePage (page : ℕ) (contents : ℕ → UInt8)

/-- The page allocator, the spaces, and the pages that clients hold. -/
structure SpacesRun where
  /-- The page allocator. -/
  fl : Freelist
  /-- The `m_pml4` of each space. -/
  spaces : List ℕ
  /-- The pages that clients hold. -/
  held : List ℕ

namespace SpacesRun

/-- A call, its result, and the state it leaves. -/
def step (s : SpacesRun) : SpacesCall → Exec (ℕ × SpacesRun)
  | .newSpace pml4 =>
    return (0, { s with spaces := pml4 :: s.spaces, held := s.held.erase pml4 })
  | .mapUserPage pml4 virtAddr pageBase => do
    let fl ← X86Pages.mapUserPage ⟨pml4⟩ virtAddr pageBase s.fl
    return (0, { s with fl := fl })
  | .virtToPhys pml4 virtAddr => do
    let paddr ← X86Pages.virtToPhys ⟨pml4⟩ s.fl.mem virtAddr
    return (paddr.toNat, s)
  | .palloc => do
    let (p, fl) ← allocatePage s.fl
    return (p, { s with fl := fl, held := hold p 1 s.held })
  | .pallocPages pages => do
    let (p, fl) ← allocatePages pages s.fl
    return (p, { s with fl := fl, held := hold p pages s.held })
  | .pfree pagebase => do
    let fl ← deallocPage pagebase s.fl
    return (0, { s with fl := fl, held := s.held.erase pagebase })
  | .writePage page contents =>
    return (0, { s with fl := { s.fl with mem := overlay s.fl.mem page pageSize contents } })

/-- The contract of the callers: a space is made of a page of theirs without entries, addresses are
canonical and frames aligned, and clients return and write the pages they hold. -/
def Enabled (s : SpacesRun) : SpacesCall → Prop
  | .newSpace pml4 => pml4 ∈ s.held ∧ ∀ i, child s.fl.mem pml4 i = none
  | .mapUserPage pml4 virtAddr pageBase =>
    pml4 ∈ s.spaces ∧ isCanoncial virtAddr ∧ pageBase.toNat % pageSize = 0
  | .virtToPhys pml4 virtAddr => pml4 ∈ s.spaces ∧ isCanoncial virtAddr
  | .pfree pagebase => pagebase = 0 ∨ pagebase ∈ s.held
  | .writePage page _ => page ∈ s.held
  | _ => True

/-- The calls for which the tables are kept apart from what clients left behind: `MapUserPage`
finds as many free pages as tables are missing, without words that read as entries, and no page that
is returned leaves its list open. -/
def Fits (s : SpacesRun) : SpacesCall → Prop
  | .mapUserPage pml4 virtAddr _ => ∃ S, Supply s.fl S ∧
      missing (child s.fl.mem) pml4 (upperPath virtAddr) ≤ S.length ∧
      Clean s.fl.mem ∅ (missing (child s.fl.mem) pml4 (upperPath virtAddr)) S
  | .pfree pagebase => ¬(⟨s.fl, s.held⟩ : Run).LeavesOpen (.deallocPage pagebase)
  | _ => True

end SpacesRun

/-- The spaces and the clients, from the start of the page allocator on. -/
def spacesMachine (m : MemoryMap) : Machine SpacesRun SpacesCall ℕ where
  init s := s.spaces = [] ∧ s.held = [] ∧ ∃ fl, init m fl = .ok s.fl
  enabled := SpacesRun.Enabled
  step := SpacesRun.step

/-! ## What a space is for -/

/-- What is mapped in each space: for a page, the frame. -/
abbrev Spaces := ℕ → BitVec 64 → Option (BitVec 64)

/-- The address that a page and its frame give for an address. -/
def Spaces.lookup (A : Spaces) (pml4 : ℕ) (v : BitVec 64) : BitVec 64 :=
  (A pml4 (v >>> 12)).elim 0 fun pageBase ↦ pageBase + (v &&& 0xFFF#64)

/-- **Independent maps.**  A new space is empty, mapping a page changes one place in one map, and
looking an address up changes nothing and answers what is there. -/
def spacesSpec : Spec Spaces SpacesCall ℕ where
  init A := ∀ pml4 page, A pml4 page = none
  step A k r A' := match k with
    | .newSpace pml4 => A' = Function.update A pml4 fun _ ↦ none
    | .mapUserPage pml4 v pageBase =>
      A' = Function.update A pml4 (Function.update (A pml4) (v >>> 12) (some pageBase))
    | .virtToPhys pml4 v => r = (A.lookup pml4 v).toNat ∧ A' = A
    | _ => A' = A

/-! ## The refinement -/

namespace SpacesRun

variable {m : MemoryMap} {s s' : SpacesRun} {pool : Pool} {T : List ℕ} {A : Spaces}
  {mem' : Memory} {fl' : Freelist} {r r' p q n : ℕ} {v pageBase : BitVec 64}

/-- **The invariant of a run.** -/
structure Inv (m : MemoryMap) (s : SpacesRun) (pool : Pool) (T : List ℕ) (A : Spaces) : Prop where
  /-- The pages of `T` are in use, and the clients do not hold them. -/
  ram : Represents m ⟨s.fl, s.held ++ T⟩ pool
  /-- Every space is a tree, -/
  tree : ∀ r ∈ s.spaces, TreeShaped s.fl.mem r
  /-- of tables in `T`, -/
  tables : ∀ r ∈ s.spaces, ∀ a, Reaches (child s.fl.mem) r 3 a → a ∈ T
  /-- and no two spaces have a table in common. -/
  apart : ∀ r ∈ s.spaces, ∀ r' ∈ s.spaces, r ≠ r' → ∀ a, Reaches (child s.fl.mem) r 3 a →
    ¬Reaches (child s.fl.mem) r' 3 a
  /-- It translates what was mapped in it. -/
  agrees : ∀ r ∈ s.spaces, ∀ v, isCanoncial v →
    translate s.fl.mem r (upperPath v) (leafIndex v) = A r (v >>> 12)

namespace Inv

theorem isPage (hi : s.Inv m pool T A) (hm : m.Wellformed) (ht : m.BelowTop) (hp : p ∈ T) :
    IsPage p := hi.ram.isPage_of_held hm ht (List.mem_append_right _ hp)

/-- There are no spaces at the start. -/
theorem of_init (hm : m.Wellformed) (ht : m.BelowTop) {ram : Freelist}
    (h : PageAllocators.init m ram = .ok fl') :
    Inv m ⟨fl', [], []⟩ (Pool.ofMap m) [] fun _ _ ↦ none := by
  obtain ⟨fl, he, hr⟩ := init_represents hm ht ram
  obtain rfl : fl = fl' := Except.ok.inj (he.symm.trans h)
  exact ⟨hr, fun r hr ↦ absurd hr List.not_mem_nil, fun r hr ↦ absurd hr List.not_mem_nil,
    fun r hr ↦ absurd hr List.not_mem_nil, fun r hr ↦ absurd hr List.not_mem_nil⟩

/-- **Whoever writes into other pages leaves the spaces as they are.** -/
theorem setFl (hi : s.Inv m pool T A) (hm : m.Wellformed) (ht : m.BelowTop) {held S : List ℕ}
    {pool' : Pool} (hr : Represents m ⟨fl', held ++ T⟩ pool')
    (hmem : WithinPages S s.fl.mem fl'.mem) (hS : ∀ q ∈ S, IsPage q ∧ q ∉ T) :
    Inv m { s with fl := fl', held := held } pool' T A := by
  have hsame : ∀ r ∈ s.spaces, SameTables r s.fl.mem fl'.mem := by
    intro r hr a ha x h1 h2
    have haT := hi.tables r hr a ha
    refine hmem x fun q hq hxq ↦ ?_
    have hd := (hi.isPage hm ht haT).disjoint (hS q hq).1 fun h0 ↦ (hS q hq).2 (h0 ▸ haT)
    omega
  refine ⟨hr, fun r hr ↦ (hsame r hr).treeShaped (hi.tree r hr), fun r hr a ha ↦ ?_,
    fun r hr r' hr' hne a ha ha' ↦ ?_, fun r hr v hv ↦ ?_⟩
  · exact hi.tables r hr a ((hsame r hr).reaches_iff.mp ha)
  · exact hi.apart r hr r' hr' hne a ((hsame r hr).reaches_iff.mp ha)
      ((hsame r' hr').reaches_iff.mp ha')
  · exact ((hsame r hr).translate_eq rfl _).trans (hi.agrees r hr v hv)

/-! ### Calls to the spaces -/

/-- A page without entries becomes a space in which nothing is mapped. -/
theorem newSpace (hi : s.Inv m pool T A) (hm : m.Wellformed) (ht : m.BelowTop)
    (hk : s.Enabled (.newSpace p)) :
    ∃ pool', Inv m { s with spaces := p :: s.spaces, held := s.held.erase p } pool' (p :: T)
      (Function.update A p fun _ ↦ none) := by
  obtain ⟨hp, hnone⟩ := hk
  have hpage : IsPage p := hi.ram.isPage_of_held hm ht (List.mem_append_left T hp)
  obtain ⟨htree, hreach⟩ := TreeShaped.of_empty hpage hnone
  have hpT : p ∉ T := fun hpT ↦ hi.ram.notMem_left hm hpT hp
  have hother : ∀ r ∈ s.spaces, ∀ a, Reaches (child s.fl.mem) r 3 a → a ≠ p := fun r hr a ha h0 ↦
    hpT (h0 ▸ hi.tables r hr a ha)
  have hne : ∀ r ∈ s.spaces, r ≠ p := fun r hr ↦
    hother r hr r ⟨[], Nat.zero_le 3, rfl⟩
  have hperm : (s.held ++ T).Perm (s.held.erase p ++ p :: T) :=
    ((List.perm_cons_erase hp).append_right T).trans List.perm_middle.symm
  refine ⟨_, hi.ram.perm_held hperm, fun r hr ↦ ?_, fun r hr a ha ↦ ?_,
    fun r hr r' hr' hrr a ha ha' ↦ ?_, fun r hr v hv ↦ ?_⟩
  · rcases List.mem_cons.mp hr with rfl | hr
    · exact htree
    · exact hi.tree r hr
  · rcases List.mem_cons.mp hr with rfl | hr
    · exact hreach a ha ▸ List.mem_cons_self
    · exact List.mem_cons_of_mem p (hi.tables r hr a ha)
  · rcases List.mem_cons.mp hr with rfl | hrs <;> rcases List.mem_cons.mp hr' with h0 | hrs'
    · exact hrr h0.symm
    · exact hother r' hrs' a ha' (hreach a ha)
    · exact hother r hrs a ha (hreach a (h0 ▸ ha'))
    · exact hi.apart r hrs r' hrs' hrr a ha ha'
  · rcases List.mem_cons.mp hr with rfl | hr
    · rw [Function.update_self, translate, upperPath, walk, hnone]
      rfl
    · rw [Function.update_of_ne (hne r hr)]
      exact hi.agrees r hr v hv

/-- A page is mapped in one space. -/
theorem mapUserPage (hi : s.Inv m pool T A) (hm : m.Wellformed)
    (hk : s.Enabled (.mapUserPage r v pageBase)) (hf : s.Fits (.mapUserPage r v pageBase)) :
    ∃ fl', X86Pages.mapUserPage ⟨r⟩ v pageBase s.fl = .ok fl' ∧
      ∃ pool' T', Inv m { s with fl := fl' } pool' T'
        (Function.update A r (Function.update (A r) (v >>> 12) (some pageBase))) := by
  obtain ⟨hr, hv, hbase⟩ := hk
  obtain ⟨S, hS, hkS, hc⟩ := hf
  set k := missing (child s.fl.mem) r (upperPath v) with hkk
  obtain rfl : S = pool.free := hS.unique (hi.ram.supply hm)
  have hfresh : ∀ q ∈ pool.free, ∀ r ∈ s.spaces, ¬Reaches (child s.fl.mem) r 3 q :=
    fun q hq r hr hre ↦ (hi.ram.free_apart hm hq).2 (hi.tables r hr q hre)
  obtain ⟨fl', hmap, hS', hmaps⟩ := exists_maps hv hbase (hi.tree r hr) hS
    (fun q hq ↦ hfresh q hq r hr) hkk.symm hkS hc
  have hperm : (pool.free.drop k ++ (s.held ++ (pool.free.take k ++ T))).Perm m.useablePages := by
    have hall := hi.ram.perm
    rw [← hi.ram.held, ← Pool.free, ← List.take_append_drop k pool.free] at hall
    refine List.Perm.trans ?_ hall
    have h1 := List.perm_append_comm_assoc s.held (pool.free.take k) T
    refine (h1.append_left _).trans ?_
    rw [List.append_assoc]
    exact List.perm_append_comm_assoc _ _ _
  obtain ⟨pool', hrep, -⟩ := Represents.of_supply hS' hperm
  -- the tables of the other spaces are not written
  have hsame : ∀ r' ∈ s.spaces, r' ≠ r → SameTables r' s.fl.mem fl'.mem := by
    intro r' hr' hne a ha x h1 h2
    refine hmaps.frame x fun b hb ↦ ?_
    have hpa := (hi.tree r' hr').isPage_of_reaches ha
    have hpb : IsPage b ∧ b ≠ a := by
      rcases hb with hb | hb
      · exact ⟨(hi.tree r hr).isPage_of_reaches hb,
          fun h0 ↦ hi.apart r hr r' hr' hne.symm b hb (h0 ▸ ha)⟩
      · have hbS := List.mem_of_mem_take hb
        exact ⟨hS.isPage hbS, fun h0 ↦ hfresh b hbS r' hr' (h0 ▸ ha)⟩
    have hd := hpa.disjoint hpb.1 hpb.2.symm
    omega
  have hreach : ∀ r' ∈ s.spaces, ∀ a, Reaches (child fl'.mem) r' 3 a →
      Reaches (child s.fl.mem) r' 3 a ∨ r' = r ∧ a ∈ pool.free.take k := by
    intro r' hr' a ha
    by_cases hrr : r' = r
    · subst hrr
      exact (hmaps.reaches a ha).imp_right fun h ↦ ⟨rfl, h⟩
    · exact .inl ((hsame r' hr' hrr).reaches_iff.mp ha)
  refine ⟨fl', hmap, pool', pool.free.take k ++ T, hrep, fun r' hr' ↦ ?_, fun r' hr' a ha ↦ ?_,
    fun r₁ hr₁ r₂ hr₂ hne a ha ha' ↦ ?_, fun r' hr' w hw ↦ ?_⟩
  · by_cases hrr : r' = r
    · subst hrr
      exact hmaps.tree
    · exact (hsame r' hr' hrr).treeShaped (hi.tree r' hr')
  · rcases hreach r' hr' a ha with h | ⟨-, h⟩
    · exact List.mem_append_right _ (hi.tables r' hr' a h)
    · exact List.mem_append_left _ h
  · rcases hreach r₁ hr₁ a ha with h₁ | ⟨rfl, h₁⟩ <;> rcases hreach r₂ hr₂ a ha' with h₂ | ⟨h0, h₂⟩
    · exact hi.apart r₁ hr₁ r₂ hr₂ hne a h₁ h₂
    · exact hfresh a (List.mem_of_mem_take h₂) r₁ hr₁ h₁
    · exact hfresh a (List.mem_of_mem_take h₁) r₂ hr₂ h₂
    · exact hne h0.symm
  · by_cases hrr : r' = r
    · subst hrr
      rw [Function.update_self, hmaps.translates _ _ rfl]
      by_cases hsame' : SamePage v w
      · obtain ⟨hpath, hleaf⟩ := hsame'.indices
        rw [if_pos ⟨hpath.symm, hleaf.symm⟩, ← show v >>> 12 = w >>> 12 from hsame',
          Function.update_self]
      · rw [if_neg fun hcon ↦ hsame' (samePage_of_indices hv hw hcon.1.symm hcon.2.symm),
          Function.update_of_ne (fun h0 ↦ hsame' h0.symm)]
        exact hi.agrees r' hr' w hw
    · rw [Function.update_of_ne hrr, (hsame r' hr' hrr).translate_eq rfl]
      exact hi.agrees r' hr' w hw

/-- An address is looked up. -/
theorem virtToPhys (hi : s.Inv m pool T A) (hk : s.Enabled (.virtToPhys r v)) :
    X86Pages.virtToPhys ⟨r⟩ s.fl.mem v = .ok (A.lookup r v) := by
  rw [virtToPhys_eq (hi.tree r hk.1).nonNull hk.2, hi.agrees r hk.1 v hk.2]
  rfl

/-! ### Calls of the clients -/

theorem palloc (hi : s.Inv m pool T A) (hm : m.Wellformed) (ht : m.BelowTop) :
    ∃ p s' pool', s.step .palloc = .ok (p, s') ∧ s'.Inv m pool' T A := by
  obtain ⟨p, fl', pool', hal, hr, honly, -⟩ := hi.ram.palloc hm ht
  exact ⟨p, _, pool', by rw [SpacesRun.step, hal]; rfl,
    hi.setFl hm ht hr honly fun q hq ↦ hi.ram.free_apart hm hq⟩

theorem pallocPages (hi : s.Inv m pool T A) (hm : m.Wellformed) (ht : m.BelowTop) (n : ℕ) :
    ∃ p s' pool', s.step (.pallocPages n) = .ok (p, s') ∧ s'.Inv m pool' T A := by
  obtain ⟨p, fl', pool', hal, hr, honly⟩ := hi.ram.pallocPages hm n
  exact ⟨p, _, pool', by rw [SpacesRun.step, hal]; rfl,
    hi.setFl hm ht hr honly fun q hq ↦ hi.ram.free_apart hm hq⟩

theorem pfree (hi : s.Inv m pool T A) (hm : m.Wellformed) (ht : m.BelowTop)
    (hk : s.Enabled (.pfree p)) (hf : s.Fits (.pfree p)) :
    ∃ s' pool', s.step (.pfree p) = .ok (0, s') ∧ s'.Inv m pool' T A := by
  obtain ⟨fl', pool', hal, hr, honly, hS⟩ := hi.ram.pfree hm ht hk hf
  exact ⟨_, pool', by rw [SpacesRun.step, hal]; rfl, hi.setFl hm ht hr honly hS⟩

theorem writePage (hi : s.Inv m pool T A) (hm : m.Wellformed) (ht : m.BelowTop)
    (hp : p ∈ s.held) (contents : ℕ → UInt8) :
    Inv m { s with fl := { s.fl with mem := overlay s.fl.mem p pageSize contents } } pool T A := by
  have hp' := List.mem_append_left T hp
  have hpage : IsPage p := hi.ram.isPage_of_held hm ht hp'
  refine hi.setFl hm ht ⟨fun o ↦ ?_, hi.ram.count, hi.ram.held, hi.ram.perm⟩ (S := [p])
    (fun x hx ↦ if_neg (hx p (List.mem_singleton_self p))) fun q hq ↦ ?_
  · -- the links of the free pages are elsewhere
    refine (hi.ram.lists o).congr fun q hq ↦ readWord_overlay_of_disjoint ?_
    have hd := hpage.disjoint ((hi.ram.lists o).page q hq) fun h0 ↦
      hi.ram.notMem_list hm hp' o (h0 ▸ hq)
    simp only [pageSize] at *
    omega
  · rw [List.mem_singleton.mp hq]
    exact ⟨hpage, fun hpT ↦ hi.ram.notMem_left hm hpT hp⟩

end Inv

/-- **The spaces refine the maps.** -/
theorem simulates (hm : m.Wellformed) (ht : m.BelowTop) :
    ((spacesMachine m).restrict Fits).Simulates spacesSpec fun s A ↦
      ∃ pool T, s.Inv m pool T A where
  init := by
    rintro ⟨fl, spaces, held⟩ ⟨hspaces, hheld, ram, hinit⟩
    subst hspaces hheld
    exact ⟨fun _ _ ↦ none, fun _ _ ↦ rfl, _, [], Inv.of_init hm ht hinit⟩
  step := by
    rintro s A k ⟨pool, T, hi⟩ ⟨hk, hf⟩
    cases k with
    | newSpace pml4 =>
      obtain ⟨pool', hi'⟩ := hi.newSpace hm ht hk
      exact ⟨0, _, _, rfl, rfl, pool', _, hi'⟩
    | mapUserPage pml4 v pageBase =>
      obtain ⟨fl', hmap, pool', T', hi'⟩ := hi.mapUserPage hm hk hf
      exact ⟨0, _, _, Exec.bind_eq_ok.mpr ⟨fl', hmap, rfl⟩, rfl, pool', T', hi'⟩
    | virtToPhys pml4 v =>
      exact ⟨_, s, A, Exec.bind_eq_ok.mpr ⟨_, hi.virtToPhys hk, rfl⟩, ⟨rfl, rfl⟩, pool, T, hi⟩
    | palloc =>
      obtain ⟨p, s', pool', hs, hi'⟩ := hi.palloc hm ht
      exact ⟨p, s', A, hs, rfl, pool', T, hi'⟩
    | pallocPages n =>
      obtain ⟨p, s', pool', hs, hi'⟩ := hi.pallocPages hm ht n
      exact ⟨p, s', A, hs, rfl, pool', T, hi'⟩
    | pfree p =>
      obtain ⟨s', pool', hs, hi'⟩ := hi.pfree hm ht hk hf
      exact ⟨0, s', A, hs, rfl, pool', T, hi'⟩
    | writePage p contents => exact ⟨0, _, A, rfl, rfl, pool, T, hi.writePage hm ht hk contents⟩

end SpacesRun

/-- **Address spaces are independent maps.** -/
theorem spaces_refine {m : MemoryMap} (hm : m.Wellformed) (ht : m.BelowTop)
    {t : List (SpacesCall × ℕ)} {s : SpacesRun}
    (hs : ((spacesMachine m).restrict SpacesRun.Fits).Trace t s) : ∃ A, spacesSpec.Trace t A := by
  obtain ⟨A, hA, -⟩ := (SpacesRun.simulates hm ht).trace hs
  exact ⟨A, hA⟩

/-! ### A page in a space of four pages -/

/-- A memory map with a single region of four pages. -/
def fourPages : MemoryMap := .ofList [region 0x1000 0x4000] (by decide)

theorem fourPages_wellformed : fourPages.Wellformed :=
  wellformed_of_single (e := region 0x1000 0x4000) rfl (by constructor <;> decide)

theorem fourPages_belowTop : fourPages.BelowTop := by
  have h : fourPages.useable = [region 0x1000 0x4000] := rfl
  intro e he
  rw [h, List.mem_singleton] at he
  rw [he]
  decide

/-- In memory that is zero but for links, no page has an entry. -/
theorem clean_of_wordsOnly {m : MemoryMap} (hm : m.Wellformed) (ht : m.BelowTop) {mem : Memory}
    {S : List ℕ} {k : ℕ} (h : WordsOnly m.useablePages (fun _ ↦ 0) mem)
    (hS : ∀ p ∈ S, p ∈ m.useablePages) (hlt : ∀ p ∈ m.useablePages, p < 2 ^ 40) :
    Clean mem ∅ k S where
  lt p hp := hlt p (hS p (List.mem_of_mem_take hp))
  absent n page _ hpage j hj _ := by
    have hp := isPage_of_mem_useablePages hm ht (hS page (List.mem_of_getElem? hpage))
    have hj0 : j.toNat ≠ 0 := fun h0 ↦ hj (BitVec.eq_of_toNat_eq h0)
    have hzero : readWord mem (entryAddress page j.toNat) =
        readWord (fun _ ↦ 0) (entryAddress page j.toNat) := by
      refine h.readWord fun a ha ↦ ?_
      have ha' := (isPage_of_mem_useablePages hm ht ha).aligned
      exact (entryAddress_disjoint ha' hp.aligned (i := 0) (by decide) j.lt (.inr hj0))
    rw [entryWord, hzero, readWord_zero]
    decide

theorem useablePages_fourPages : fourPages.useablePages = [0x1000, 0x2000, 0x3000, 0x4000] := by
  decide

/-- A client fills the first page it is given with zeros; then no page has an entry. -/
theorem zeroedPage_fourPages : ∃ p fl pool,
    ((spacesMachine fourPages).restrict SpacesRun.Fits).Trace
      [(.writePage p fun _ ↦ 0, 0), (.palloc, p)] ⟨fl, [], [p]⟩ ∧
    SpacesRun.Inv fourPages ⟨fl, [], [p]⟩ pool [] (fun _ _ ↦ none) ∧
    (∀ i, child fl.mem p i = none) ∧ WordsOnly fourPages.useablePages (fun _ ↦ 0) fl.mem := by
  have hm := fourPages_wellformed
  have ht := fourPages_belowTop
  obtain ⟨fl, hinit, -⟩ := init_represents hm ht ⟨fun _ ↦ 0, 0, 0, 0, 0⟩
  have hi₀ := SpacesRun.Inv.of_init hm ht hinit
  have hfree : (Pool.ofMap fourPages).free ≠ [] := fun h0 ↦ by
    have hperm := hi₀.ram.perm
    rw [← Pool.free, h0, useablePages_fourPages] at hperm
    exact absurd (List.nil_perm.mp hperm) (by decide)
  obtain ⟨p, fl₁, hal, hmem⟩ := hi₀.ram.allocatePage_mem hfree
  obtain ⟨p', fl', pool₁, hal', hr₁, honly, -⟩ := hi₀.ram.palloc hm ht
  cases hal'.symm.trans hal
  have hp0 : p ≠ 0 := (hi₀.ram.free_apart hm hmem).1.pos
  have hheld : hold p 1 [] = [p] := by simp [hold, hp0, pagesFrom]
  have hi₁ := hi₀.setFl hm ht hr₁ honly fun q hq ↦ hi₀.ram.free_apart hm hq
  rw [hheld] at hi₁
  refine ⟨p, { fl₁ with mem := overlay fl₁.mem p pageSize fun _ ↦ 0 }, pool₁, ?_,
    hi₁.writePage hm ht (List.mem_singleton_self p) fun _ ↦ 0, fun i ↦ ?_, fun x hx ↦ ?_⟩
  · let M := (spacesMachine fourPages).restrict SpacesRun.Fits
    have hpalloc : M.step ⟨fl, [], []⟩ .palloc = .ok (p, ⟨fl₁, [], [p]⟩) :=
      Exec.bind_eq_ok.mpr ⟨(p, fl₁), hal,
        congrArg (fun held ↦ Except.ok (p, SpacesRun.mk fl₁ [] held)) hheld⟩
    have hstart : M.init ⟨fl, [], []⟩ := ⟨rfl, rfl, _, hinit⟩
    have hempty : M.enabled ⟨fl, [], []⟩ .palloc := ⟨trivial, trivial⟩
    have hheld₁ : M.enabled ⟨fl₁, [], [p]⟩ (.writePage p fun _ ↦ 0) :=
      ⟨List.mem_singleton_self p, trivial⟩
    exact ((Machine.Trace.init hstart).step hempty hpalloc).step hheld₁ rfl
  · refine child_of_not_isPresent ?_
    have hzero : entryWord (overlay fl₁.mem p pageSize fun _ ↦ 0) p i.toNat = 0 :=
      entryWord_of_zero fun x h1 h2 ↦ if_pos ⟨h1, h2⟩
    rw [upperEntry, hzero]
    decide
  · by_cases hxp : p ≤ x ∧ x < p + pageSize
    · exact if_pos hxp
    · -- the links of the free list are all that the allocator has written
      have hx1 : fl₁.mem x = fl.mem x := by
        rw [mem_of_allocatePage hal hp0]
        refine wordsOnly_writeWord (List.mem_singleton_self p) x fun a ha ↦ ?_
        rw [List.mem_singleton.mp ha]
        rw [pageSize] at hxp
        omega
      exact (if_neg hxp).trans (hx1.trans (init_wordsOnly hm ht hinit x hx))

/-- What is mapped at address 0 of the first space is found there. -/
theorem spaces_refine_fourPages : ∃ p A, spacesSpec.Trace
    [(.virtToPhys p 0, 0x8000), (.mapUserPage p 0 0x8000, 0), (.newSpace p, 0),
      (.writePage p fun _ ↦ 0, 0), (.palloc, p)] A := by
  have hm := fourPages_wellformed
  have ht := fourPages_belowTop
  obtain ⟨p, fl, pool, htrace, hi₀, hnone, hblank⟩ := zeroedPage_fourPages
  have hk₁ : SpacesRun.Enabled ⟨fl, [], [p]⟩ (.newSpace p) := ⟨List.mem_singleton_self p, hnone⟩
  obtain ⟨pool₁, hi₁⟩ := hi₀.newSpace hm ht hk₁
  -- the three other pages are enough for the tables, and clean
  have hsub : ∀ q ∈ pool₁.free, q ∈ fourPages.useablePages := fun q hq ↦
    hi₁.ram.perm.subset (List.mem_append_left _ hq)
  have hlen : pool₁.free.length = 3 := by
    have hperm := hi₁.ram.perm.length_eq
    rw [← hi₁.ram.held, useablePages_fourPages, ← Pool.free, List.length_append] at hperm
    simpa using hperm
  have hmissing : missing (child fl.mem) p (upperPath 0) = 3 := missing_of_eq_none (hnone _)
  have hk₂ : SpacesRun.Enabled ⟨fl, [p], [p].erase p⟩ (.mapUserPage p 0 0x8000) :=
    ⟨List.mem_singleton_self p, by decide, by decide⟩
  have hf₂ : SpacesRun.Fits ⟨fl, [p], [p].erase p⟩ (.mapUserPage p 0 0x8000) := by
    refine ⟨_, hi₁.ram.supply hm, (hmissing.trans hlen.symm).le, ?_⟩
    exact clean_of_wordsOnly hm ht hblank hsub (by rw [useablePages_fourPages]; decide)
  obtain ⟨fl₂, hmap, pool₂, T₂, hi₂⟩ := hi₁.mapUserPage hm hk₂ hf₂
  have hlookup := hi₂.virtToPhys (v := 0) ⟨List.mem_singleton_self p, by decide⟩
  -- the rest of the run
  let M := (spacesMachine fourPages).restrict SpacesRun.Fits
  let s₁ : SpacesRun := ⟨fl, [p], [p].erase p⟩
  let s₂ : SpacesRun := ⟨fl₂, [p], [p].erase p⟩
  have hs₂ : M.step s₁ (.mapUserPage p 0 0x8000) = .ok (0, s₂) :=
    Exec.bind_eq_ok.mpr ⟨fl₂, hmap, rfl⟩
  have hs₃ : M.step s₂ (.virtToPhys p 0) = .ok (0x8000, s₂) :=
    Exec.bind_eq_ok.mpr ⟨_, hlookup, by simp [Spaces.lookup]⟩
  have h₁ : M.enabled ⟨fl, [], [p]⟩ (.newSpace p) := ⟨hk₁, trivial⟩
  have h₂ : M.enabled s₁ (.mapUserPage p 0 0x8000) := ⟨hk₂, hf₂⟩
  have h₃ : M.enabled s₂ (.virtToPhys p 0) := ⟨⟨List.mem_singleton_self p, by decide⟩, trivial⟩
  exact ⟨p, spaces_refine hm ht (((htrace.step h₁ rfl).step h₂ hs₂).step h₃ hs₃)⟩

end X8664
