import Chisaka.X8664.X86PagesMap

/-!
# Mapping pages when there are none

`AllocatePage()` answers null when both lists are empty, and `MapUserPage` does not ask: it makes an
entry for null, which is a present entry for frame 0, and goes on with the table there.

`Passes` are the states that the call goes through, level by level.  `Harmless` is what one would
have of a call that cannot be served: no entry for frame 0, no table at null, and all translations
as they were.  `mapUserPage_exhausted_never` says that this is never so, at whichever of the three
levels the pages run out, and `RunsOut.installsNull` where the entry is.
-/

set_option autoImplicit false

namespace X8664

open Bytes Chisaka Chisaka.PageAllocators Walk

variable {fl fl' : Freelist} {table : ℕ} {is : List Index} {v pageBase : BitVec 64}

/-- The tables that the call comes to, with the steps that are left and the allocator there. -/
inductive Passes : ℕ → List Index → Freelist → ℕ → List Index → Freelist → Prop
  | here {table : ℕ} {is : List Index} {fl : Freelist} : Passes table is fl table is fl
  | down {table next a : ℕ} {i : Index} {is is' : List Index} {fl fl' fl₁ : Freelist}
      (h : X86Pages.nextTable fl table (i.setWidth 16) = .ok (next, fl'))
      (hrest : Passes next is fl' a is' fl₁) : Passes table (i :: is) fl a is' fl₁

/-- At one of the levels, the entry leads to frame 0 when the level has been dealt with. -/
def InstallsNull (table : ℕ) (is : List Index) (fl : Freelist) : Prop :=
  ∃ a i is' fl₁ b fl₂, Passes table is fl a (i :: is') fl₁ ∧
    X86Pages.nextTable fl₁ a (i.setWidth 16) = .ok (b, fl₂) ∧ child fl₂.mem a i = some 0

/-- The memory that the call leaves at a level, or at the end. -/
inductive Leaves (pages : X86Pages) (v pageBase : BitVec 64) (fl : Freelist) : Memory → Prop
  | level {a : ℕ} {is : List Index} {fl₁ : Freelist}
      (h : Passes pages.pml4 (upperPath v) fl a is fl₁) : Leaves pages v pageBase fl fl₁.mem
  | done {fl' : Freelist} (h : pages.mapUserPage v pageBase fl = .ok fl') :
      Leaves pages v pageBase fl fl'.mem

/-- **What a call leaves behind that cannot be served.** -/
structure Harmless (pages : X86Pages) (v pageBase : BitVec 64) (fl : Freelist) : Prop where
  /-- No entry is made for null. -/
  installs : ¬InstallsNull pages.pml4 (upperPath v) fl
  /-- Null is not used as a table. -/
  follows : pages.mapUserPage v pageBase fl ≠ .error .nullDeref
  /-- What was mapped is mapped to the same page. -/
  keeps : ∀ mem, Leaves pages v pageBase fl mem → ∀ q j page, q.length = 3 →
    translate fl.mem pages.pml4 q j = some page → translate mem pages.pml4 q j = some page

/-- **The level at which the pages run out gets an entry for null.** -/
theorem RunsOut.installsNull (h : RunsOut table is fl) (h0 : table ≠ 0) :
    InstallsNull table is fl := by
  induction is generalizing table fl with
  | nil => exact h.elim
  | cons i is ih =>
    rcases h with ⟨hnone, fl', ha⟩ | ⟨next, fl', hnext, hrest⟩
    · refine ⟨table, i, is, fl, _, _, .here, nextTable_of_eq_none h0 hnone ha, ?_⟩
      rw [child_linked]
      decide
    · by_cases hz : next = 0
      · subst hz
        exact ⟨table, i, is, fl, 0, fl', .here, hnext, child_of_nextTable hnext⟩
      · obtain ⟨a, j, is', fl₁, b, fl₂, hpass, hlevel⟩ := ih hrest hz
        exact ⟨a, j, is', fl₁, b, fl₂, .down hnext hpass, hlevel⟩

/-- **A call that runs out of pages is never harmless.** -/
theorem mapUserPage_exhausted_never (pages : X86Pages) (v pageBase : BitVec 64) (fl : Freelist)
    (hv : isCanoncial v) (hbase : pageBase.toNat % pageSize = 0)
    (h : RunsOut pages.pml4 (upperPath v) fl) : ¬Harmless pages v pageBase fl := by
  intro hh
  exact hh.follows (mapUserPage_of_runsOut hv hbase h)

/-- No free pages, in memory that is zero. -/
def noPages : Freelist := ⟨fun _ ↦ 0, 0, 0, 0, 0⟩

theorem zero_noPages (j : Index) : entryWord noPages.mem 0x1000 j.toNat = 0 :=
  entryWord_of_zero fun _ _ _ ↦ rfl

/-- The first level is enough. -/
theorem runsOut_noPages : RunsOut 0x1000 (upperPath 0) noPages := by
  refine .inl ⟨child_of_not_isPresent ?_, noPages, rfl⟩
  rw [upperEntry, zero_noPages]
  decide

theorem mapUserPage_exhausted_never_noPages : ¬Harmless ⟨0x1000⟩ 0 0x8000 noPages :=
  mapUserPage_exhausted_never ⟨0x1000⟩ 0 0x8000 noPages (by decide) (by decide) runsOut_noPages

/-- **The first entry of an empty root becomes 7**: present, writeable, for users, and for the table
at 0. -/
theorem not_harmless_noPages :
    (¬∀ (pages : X86Pages) (v pageBase : BitVec 64) (fl : Freelist), isCanoncial v →
      pageBase.toNat % pageSize = 0 → TreeShaped fl.mem pages.pml4 →
      RunsOut pages.pml4 (upperPath v) fl → Harmless pages v pageBase fl) ∧
    (∃ fl', X86Pages.nextTable noPages 0x1000 0 = .ok (0, fl') ∧ entryWord fl'.mem 0x1000 0 = 7) ∧
    X86Pages.mapUserPage ⟨0x1000⟩ 0 0x8000 noPages = .error .nullDeref := by
  refine ⟨fun hall ↦ ?_, ⟨_, rfl, by decide⟩,
    mapUserPage_of_runsOut (by decide) (by decide) runsOut_noPages⟩
  exact (hall ⟨0x1000⟩ 0 0x8000 noPages (by decide) (by decide)
    (treeShaped_of_zero zero_noPages).1 runsOut_noPages).installs
    (runsOut_noPages.installsNull (by decide))

end X8664
