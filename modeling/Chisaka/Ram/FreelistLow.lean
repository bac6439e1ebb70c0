import Chisaka.Ram.FreelistRuns

/-!
# The low list

Drivers with 32-bit addresses ask for pages of the low list.  `Init` puts a page there if its whole
region ends at or below `CUTOFF`, and `DeallocPage` if the page itself starts there, so that a page
of a region across `CUTOFF` starts on one list and comes back to the other.

* `Pool.step_lowPages` is the invariant: whatever the clients call, the low list has pages that
  start at or below `CUTOFF` only.
* `allocatePageOpt_below` is what the drivers rely on: no page that `AllocatePage(RamOptions::LOW)`
  returns reaches above 4 GiB.
-/

set_option autoImplicit false

namespace Chisaka.PageAllocators

open Bytes Chain

variable {m : MemoryMap} {memset : Memset} {s s' : Run} {a a' : Pool} {k : Call} {p r : ℕ}
  {o : RamOptions} {L : List ℕ}

/-! ## The invariant -/

namespace Pool

/-- The pages of the low list start at or below `CUTOFF`. -/
def LowPages (a : Pool) : Prop := ∀ p ∈ a.list .LOW, p ≤ cutoff

/-- A list may lose pages. -/
theorem LowPages.update (h : a.LowPages) (hL : ∀ p ∈ L, p ∈ a.list o) (count : RamOptions → ℕ)
    (held : List ℕ) : LowPages ⟨Function.update a.list o L, count, held⟩ := by
  intro p hp
  cases o with
  | LOW => exact h p (hL p (by simpa using hp))
  | Z => exact h p (by simpa [Function.update_of_ne (show RamOptions.LOW ≠ .Z by decide)] using hp)

theorem LowPages.pop (h : a.LowPages) (hs : a.pop o = some (r, a')) : a'.LowPages := by
  rw [Pool.pop] at hs
  cases hL : a.list o with
  | nil =>
    rw [hL] at hs
    exact absurd hs (by simp)
  | cons p L =>
    rw [hL] at hs
    cases hs
    exact h.update (fun q hq ↦ by rw [hL]; exact List.mem_cons_of_mem _ hq) _ _

theorem LowPages.cut (h : a.LowPages) (o : RamOptions) (b n : ℕ) : (a.cut o b n).LowPages :=
  h.update (fun _ hp ↦ (mem_without.mp hp).1) _ _

theorem LowPages.popBlock (h : a.LowPages) (o : RamOptions) (n : ℕ) :
    (a.popBlock o n).2.LowPages := by
  rw [Pool.popBlock]
  cases blockOf (a.list o) n with
  | none => exact h
  | some b => exact h.cut o b n

/-- **A page comes back to the list of its own address.** -/
theorem LowPages.insert (h : a.LowPages) (p : ℕ) : (a.insert (side p) p).LowPages := by
  intro q hq
  by_cases hp : p ≤ cutoff
  · have hside : side p = .LOW := if_pos hp
    simp only [Pool.insert, hside, Function.update_self] at hq
    rcases (List.mem_orderedInsert _).mp hq with rfl | hq
    · exact hp
    · exact h q hq
  · have hside : side p = .Z := if_neg hp
    simp only [Pool.insert, hside] at hq
    rw [Function.update_of_ne (by decide)] at hq
    exact h q hq

/-- **No call puts a high page on the low list.** -/
theorem step_lowPages (h : a.LowPages) (hs : a.step k = some (r, a')) : a'.LowPages := by
  cases k with
  | allocatePage =>
    simp only [step] at hs
    split at hs
    · rename_i hpop
      have hlow := h.pop hpop
      cases hs
      exact hlow
    · split at hs
      · rename_i hpop
        have hlow := h.pop hpop
        cases hs
        exact hlow
      · cases hs
        exact h
  | allocatePageOpt o => exact h.pop hs
  | allocatePages n =>
    obtain rfl : (a.popBlock .Z n).2 = a' := congrArg Prod.snd (Option.some.inj hs)
    exact h.popBlock .Z n
  | allocatePagesOpt n o =>
    obtain rfl : (a.popBlock o n).2 = a' := congrArg Prod.snd (Option.some.inj hs)
    exact h.popBlock o n
  | extract p n =>
    cases hs
    exact h.cut _ p n
  | deallocPage p =>
    simp only [step] at hs
    split at hs
    · cases hs
      exact h
    · cases hs
      exact h.insert p
  | clientWrite p f =>
    cases hs
    exact h

end Pool

/-- `Init` takes the end of a region for all of its pages. -/
theorem lowPages_ofMap : (Pool.ofMap m).LowPages := by
  intro p hp
  obtain ⟨e, he, hp⟩ := List.mem_flatMap.mp (show p ∈ lowPages m from hp)
  have hend : e.base.toNat + e.length.toNat ≤ cutoff := by
    simpa using (List.mem_filter.mp he).2
  have hlt := (lt_of_mem_pagesFrom hp).2
  have := Nat.div_mul_le_self e.length.toNat pageSize
  omega

/-! ## Runs -/

/-- The clients allocate single pages, from any list or from the low one, and return them. -/
def SinglePages (_ : Run) : Call → Prop
  | .allocatePage => True
  | .allocatePageOpt o => o = .LOW
  | .deallocPage _ => True
  | _ => False

/-- On the low list the option asks for nothing but a page. -/
theorem Represents.allocatePageOpt_low (h : Represents m s a) (hL : a.list .LOW = p :: L) :
    allocatePageOpt memset .LOW s.fl = .ok (p, s.fl.setList (writeWord s.fl.mem p 0) (L.headD 0)
      (s.fl.countOf .LOW) .LOW) := by
  have hlist := h.lists .LOW
  rw [hL] at hlist
  obtain ⟨himpl, -⟩ := allocatePageImpl_cons hlist
  rw [allocatePageOpt_of_ok himpl, zeroed, if_neg (by simp)]

theorem Represents.allocatePageOpt_low_nil (h : Represents m s a) (hL : a.list .LOW = []) :
    allocatePageOpt memset .LOW s.fl = .error .nullDeref := by
  have hlist := h.lists .LOW
  rw [hL] at hlist
  exact allocatePageOpt_of_error (allocatePageImpl_nil hlist)

/-- What is kept in such a run. -/
structure LowInv (m : MemoryMap) (s : Run) : Prop where
  /-- The allocator is a pool whose low list has low pages. -/
  represents : ∃ a, Represents m s a ∧ a.LowPages
  /-- The links of the held pages are null. -/
  cleared : Cleared s

theorem LowInv.step_allocatePageOpt (h : LowInv m s) (hm : m.Wellformed) (ht : m.BelowTop)
    (hs : s.step memset (.allocatePageOpt .LOW) = .ok (r, s')) :
    LowInv m s' ∧ r ≤ cutoff ∧ IsPage r := by
  obtain ⟨a, hr, hlow⟩ := h.represents
  cases hL : a.list .LOW with
  | nil =>
    simp only [Run.step, hr.allocatePageOpt_low_nil hL, Exec.error_bind] at hs
    exact absurd hs (by simp)
  | cons p L =>
    have hmem : p ∈ a.list .LOW := by rw [hL]; exact List.mem_cons_self
    simp only [Run.step, hr.allocatePageOpt_low hL, Exec.ok_bind, Exec.pure_eq] at hs
    cases hs
    refine ⟨⟨⟨_, hr.pop hm hL _ fun q hq hqp ↦ hr.readWord_popped hL hq hqp, ?_⟩,
      h.cleared.pop hr hm ht hL⟩, hlow _ hmem, (hr.lists .LOW).page _ hmem⟩
    exact hlow.update (fun q hq ↦ by rw [hL]; exact List.mem_cons_of_mem _ hq) _ _

theorem LowInv.step (h : LowInv m s) (hm : m.Wellformed) (ht : m.BelowTop) (hk : s.Enabled k)
    (hpages : SinglePages s k) (hs : s.step memset k = .ok (r, s')) : LowInv m s' := by
  obtain ⟨a, hr, hlow⟩ := h.represents
  have hfollows : Follows m memset s a k → Cleared s' → LowInv m s' := by
    rintro (⟨-, he⟩ | ⟨r', s₁, a', hp, he, hr'⟩) hc
    · exact absurd (he.symm.trans hs) (by simp)
    · obtain ⟨-, rfl⟩ := Prod.mk.inj (Except.ok.inj (he.symm.trans hs))
      exact ⟨⟨a', hr', Pool.step_lowPages hlow hp⟩, hc⟩
  cases k with
  | allocatePage => exact hfollows (follows_allocatePage hr hm) (h.cleared.allocatePage hr hm ht hs)
  | deallocPage p =>
    exact hfollows (follows_deallocPage hr hm ht hk (h.cleared.not_leavesOpen hk))
      (h.cleared.deallocPage hr hm ht hk hs)
  | allocatePageOpt o =>
    obtain rfl : o = .LOW := hpages
    exact (h.step_allocatePageOpt hm ht hs).1
  | allocatePages n => exact hpages.elim
  | allocatePagesOpt n o => exact hpages.elim
  | extract p n => exact hpages.elim
  | clientWrite p f => exact hpages.elim

theorem lowInv_of_reach (hm : m.Wellformed) (ht : m.BelowTop)
    (hs : ((machine m memset).restrict SinglePages).Reach s) : LowInv m s := by
  refine Machine.Reach.induct (M := (machine m memset).restrict SinglePages) (I := LowInv m)
    (fun s h0 ↦ ?_) ?_ hs
  · refine ⟨⟨_, represents_of_init memset hm ht h0, lowPages_ofMap⟩, fun p hp ↦ ?_⟩
    rw [h0.1] at hp
    exact absurd hp List.not_mem_nil
  · rintro s k r s' h ⟨hk, hpages⟩ hstep
    exact h.step hm ht hk hpages hstep

/-- In every state of a run, a page that `AllocatePage(RamOptions::LOW)` returns ends at or below
4 GiB. -/
def LowBelow (m : MemoryMap) (memset : Memset) : Prop :=
  ∀ s, ((machine m memset).restrict SinglePages).Reach s → ∀ r s',
    s.step memset (.allocatePageOpt .LOW) = .ok (r, s') → r + pageSize ≤ 2 ^ 32

/-- **The low list serves pages below 4 GiB only.** -/
theorem allocatePageOpt_below (m : MemoryMap) (memset : Memset) (hm : m.Wellformed)
    (ht : m.BelowTop) : LowBelow m memset := by
  intro s hs r s' hstep
  obtain ⟨-, hr, hpage⟩ := (lowInv_of_reach hm ht hs).step_allocatePageOpt hm ht hstep
  have hal := hpage.aligned
  -- an aligned address at or below `CUTOFF` leaves room for the page
  simp only [cutoff, pageSize] at *
  omega

theorem allocatePageOpt_below_twoPages : LowBelow twoPages memsetBytes :=
  allocatePageOpt_below twoPages memsetBytes twoPages_wellformed twoPages_belowTop

/-- **Without `BelowTop` it fails**: the sum `base + length` of the last region of the address space
is 0, and its page goes on the low list. -/
theorem not_lowBelow_topPage :
    ¬∀ (m : MemoryMap) (memset : Memset), m.Wellformed → LowBelow m memset := by
  intro h
  have hwf : topPage.Wellformed :=
    wellformed_of_single (e := topRegion) rfl (by constructor <;> decide)
  have hreach : ((machine topPage memsetBytes).restrict SinglePages).Reach
      ⟨⟨writeWord (fun _ ↦ 0) 0xFFFFFFFFFFFFE000 0, 0, 0xFFFFFFFFFFFFF000, 0, 1⟩, []⟩ :=
    .init ⟨rfl, _, init_topPage fun _ ↦ 0⟩
  obtain ⟨s', hs'⟩ : ∃ s', Run.step memsetBytes
      ⟨⟨writeWord (fun _ ↦ 0) 0xFFFFFFFFFFFFE000 0, 0, 0xFFFFFFFFFFFFF000, 0, 1⟩, []⟩
      (.allocatePageOpt .LOW) = .ok (0xFFFFFFFFFFFFF000, s') := by
    simp [Run.step, allocatePageOpt, allocatePageImpl]
  exact absurd (h topPage memsetBytes hwf _ hreach _ _ hs') (by decide)

end Chisaka.PageAllocators
