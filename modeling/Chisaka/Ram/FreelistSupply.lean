import Chisaka.Ram.FreelistSpec

/-!
# What `AllocatePage()` hands out

Whoever calls `AllocatePage()` gets the pages of the first list and then those of the second, one
after the other.  `Supply fl S` says that these are the pages `S`; `Supply.cons` and `Supply.nil`
are the next call.  All it writes is the first word of the page (`mem_of_allocatePage`), so that the
rest of the page is as its last owner left it.
-/

set_option autoImplicit false

namespace Chisaka.PageAllocators

open Bytes

variable {fl fl' : Freelist} {mem mem' : Memory} {page p head : ℕ} {S : List ℕ}

theorem mem_of_allocatePageImpl {head' : ℕ}
    (h : allocatePageImpl mem head = .ok (page, mem', head')) : mem' = writeWord mem page 0 := by
  rw [allocatePageImpl] at h
  by_cases h0 : head = 0
  · simp [h0] at h
  · simp only [ne_eq, h0, not_false_eq_true, if_true, load_of_ne h0, store_of_ne h0,
      Exec.ok_bind, Exec.pure_eq] at h
    cases h
    rfl

/-- `AllocatePage()` clears the first word of the page it returns, and writes nothing else. -/
theorem mem_of_allocatePage (h : allocatePage fl = .ok (page, fl')) (hp : page ≠ 0) :
    fl'.mem = writeWord fl.mem page 0 := by
  rw [allocatePage] at h
  split at h
  · obtain ⟨⟨q, mem', head'⟩, hq, he⟩ := Exec.bind_eq_ok.mp h
    cases he
    exact mem_of_allocatePageImpl hq
  · split at h
    · obtain ⟨⟨q, mem', head'⟩, hq, he⟩ := Exec.bind_eq_ok.mp h
      cases he
      exact mem_of_allocatePageImpl hq
    · cases h
      exact absurd rfl hp

/-- The pages that `AllocatePage()` will hand out, in order. -/
structure Supply (fl : Freelist) (S : List ℕ) : Prop where
  /-- They are the pages of the two lists. -/
  lists : ∃ H L, S = H ++ L ∧ FreeList fl.mem fl.head H ∧ FreeList fl.mem fl.lowHead L
  /-- No page is on both. -/
  nodup : S.Nodup

namespace Supply

theorem isPage (h : Supply fl S) (hp : p ∈ S) : IsPage p := by
  obtain ⟨H, L, rfl, hH, hL⟩ := h.lists
  exact (List.mem_append.mp hp).elim (hH.page p) (hL.page p)

/-- The supply depends on the links of its pages only. -/
theorem congr (h : Supply fl S) (hw : ∀ p ∈ S, readWord mem p = readWord fl.mem p) :
    Supply { fl with mem := mem } S := by
  obtain ⟨H, L, rfl, hH, hL⟩ := h.lists
  exact ⟨⟨H, L, rfl, hH.congr fun p hp ↦ hw p (List.mem_append_left L hp),
    hL.congr fun p hp ↦ hw p (List.mem_append_right H hp)⟩, h.nodup⟩

/-- **An exhausted supply hands out null.** -/
theorem nil (h : Supply fl []) : allocatePage fl = .ok (0, fl) := by
  obtain ⟨H, L, he, hH, hL⟩ := h.lists
  obtain ⟨rfl, rfl⟩ := List.append_eq_nil_iff.mp he.symm
  have hhead : fl.head = 0 := hH.head_eq_zero_iff.mpr rfl
  have hlow : fl.lowHead = 0 := hL.head_eq_zero_iff.mpr rfl
  simp [allocatePage, hhead, hlow]

/-- **The next page is handed out.** -/
theorem cons (h : Supply fl (page :: S)) :
    ∃ fl', allocatePage fl = .ok (page, fl') ∧ Supply fl' S := by
  obtain ⟨H, L, he, hH, hL⟩ := h.lists
  obtain ⟨hpage, hnodup⟩ := List.nodup_cons.mp h.nodup
  have hpp := h.isPage List.mem_cons_self
  cases H with
  | cons q H =>
    obtain ⟨rfl, rfl⟩ : page = q ∧ S = H ++ L := List.cons_eq_cons.mp he
    obtain ⟨himpl, hH'⟩ := allocatePageImpl_cons hH
    have hhead : fl.head ≠ 0 := fun h0 ↦ absurd (hH.head_eq_zero_iff.mp h0) (by simp)
    have hL' : FreeList (writeWord fl.mem page 0) fl.lowHead L := hL.congr fun p hp ↦
      readWord_writeWord_page hpp (hL.page p hp) fun he ↦ hpage (he ▸ List.mem_append_right H hp)
    refine ⟨⟨writeWord fl.mem page 0, H.headD 0, fl.lowHead, sub64 fl.freePagesTop 1,
      fl.freePagesLow⟩, ?_, ⟨⟨H, L, rfl, hH', hL'⟩, hnodup⟩⟩
    simp [allocatePage, hhead, himpl]
  | nil =>
    obtain rfl : page :: S = L := he
    obtain ⟨himpl, hL'⟩ := allocatePageImpl_cons hL
    have hhead : fl.head = 0 := hH.head_eq_zero_iff.mpr rfl
    have hlow : fl.lowHead ≠ 0 := fun h0 ↦ absurd (hL.head_eq_zero_iff.mp h0) (by simp)
    have hH' : FreeList (writeWord fl.mem page 0) fl.head [] := hH.congr (by simp)
    refine ⟨⟨writeWord fl.mem page 0, fl.head, S.headD 0, fl.freePagesTop,
      sub64 fl.freePagesLow 1⟩, ?_, ⟨⟨[], S, rfl, hH', hL'⟩, hnodup⟩⟩
    simp [allocatePage, hhead, hlow, himpl]

end Supply

end Chisaka.PageAllocators
