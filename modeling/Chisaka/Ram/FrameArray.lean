import Mathlib.Algebra.Order.BigOperators.Group.List
import Mathlib.Algebra.Order.Ring.Nat
import Chisaka.Lib.Exec
import Chisaka.Memmap.MemoryMap

/-!
# The page frame array

`FrameArray` is to hold one `FrameDescriptor` for every page frame of the memory map, of whatever
type, in memory that it gets from the page allocator.  `Init` goes over the frames twice, once to
count them and once to describe them; both loops are `forFrames`, with what they do to a frame as a
parameter.

`DescribesFrames` is what the array is for.  It fails for every map that has a frame
(`describesFrames_iff`): `m_pages` is never assigned, so that no index is below `Size`, and the
second loop never advances its index, so that every frame is written to element 0.
-/

set_option autoImplicit false

namespace Chisaka

/-- `FrameDescriptor`. -/
structure FrameDescriptor where
  /-- `m_base`. -/
  base : ℕ
  /-- `m_type`. -/
  type : EntryType
  /-- `m_flags`, 32 bits. -/
  flags : ℕ
  /-- `m_procCount`, 32 bits. -/
  procCount : ℤ
  deriving DecidableEq, Repr

/-- The constructor. -/
def FrameDescriptor.new (base : ℕ) (type : EntryType) : FrameDescriptor := ⟨base, type, 0, 0⟩

/-- The size of a `FrameDescriptor`. -/
def sizeofFrameDescriptor : ℕ := 24

/-- `FrameArray`, with the descriptors in the memory it points to. -/
structure FrameArray where
  /-- `m_buffer`. -/
  buffer : ℕ
  /-- `m_pages`. -/
  pages : ℕ
  /-- `m_buffer[i]`, whether or not anybody has written it. -/
  elems : ℕ → FrameDescriptor

/-! ## The loops over the frames -/

/-- The `while` loop over the frames of an entry, over `s` and `current`. -/
def walkBody {σ : Type} (limit : ℕ) (f : σ → ℕ → Exec σ) : σ × ℕ → Exec ((σ × ℕ) ⊕ σ)
  | (s, current) =>
    if current < limit then do
      let s ← f s current
      return .inl (s, add64 current pageSize)
    else return .inr s

/-- The `for` loop over the entries of the map. -/
def forFrames {σ : Type} (m : MemoryMap) (f : MemoryMapEntry → σ → ℕ → Exec σ) (s : σ) : Exec σ :=
  m.entries.foldlM (fun s e ↦
    Loop.exec (walkBody (add64 e.base.toNat e.length.toNat) (f e)) (s, e.base.toNat)) s

namespace FrameArray

/-- `MemoryRequired`, over `pageIndex`. -/
def memoryRequired (m : MemoryMap) : Exec ℕ := do
  let pageIndex ← forFrames m (fun _ pageIndex _ ↦ .ok (add64 pageIndex 1)) 0
  return mul64 pageIndex pageSize

/-- How many pages `InitMemory` asks for.  The parameter of `Allocate` has 32 bits. -/
def pagesRequired (m : MemoryMap) : Exec ℕ := do
  let bytes ← memoryRequired m
  let pages := bytes / 0x1000 + if bytes % 0x1000 ≠ 0 then 1 else 0
  return pages % 2 ^ 32

/-- `InitMemory`, where `alloc n` is what the page allocator answers when asked for `n` pages. -/
def initMemory (alloc : ℕ → ℕ) (fa : FrameArray) (m : MemoryMap) : Exec FrameArray := do
  let pages ← pagesRequired m
  return { fa with buffer := alloc pages }

/-- `m_buffer[i] = d`. -/
def write (fa : FrameArray) (i : ℕ) (d : FrameDescriptor) : Exec FrameArray :=
  if fa.buffer = 0 then .error .nullDeref
  else .ok { fa with elems := fun j ↦ if j = i then d else fa.elems j }

/-- `InitFrameDescriptors`.  Nothing assigns to its `pageIndex` after the initial 0. -/
def initFrameDescriptors (fa : FrameArray) (m : MemoryMap) : Exec FrameArray :=
  let pageIndex := 0
  forFrames m (fun e fa current ↦ fa.write pageIndex (.new current e.type)) fa

/-- `Init`. -/
def init (alloc : ℕ → ℕ) (fa : FrameArray) (m : MemoryMap) : Exec FrameArray := do
  let fa ← fa.initMemory alloc m
  fa.initFrameDescriptors m

/-- `IndexOf`. -/
def indexOf (_fa : FrameArray) (paddr : ℕ) : Exec ℕ := do
  kassert (paddr < 0x240000000)
  return paddr / 0x1000

/-- `BaseOf`. -/
def baseOf (fa : FrameArray) (index : ℕ) : Exec ℕ := do
  kassert (index < fa.pages)
  if fa.buffer = 0 then
    throw .nullDeref
  return (fa.elems index).base

end FrameArray

/-! ## What the array is for -/

/-- The page frame at `p` is in the entry: `p` is a page base and an address of the region. -/
def MemoryMapEntry.HasFrame (e : MemoryMapEntry) (p : ℕ) : Prop :=
  p % pageSize = 0 ∧ p < 2 ^ 64 ∧ p ∈ e.region

/-- The array describes every frame of the map, each in an element of its own. -/
structure FrameArray.Describes (fa : FrameArray) (m : MemoryMap) : Prop where
  /-- The element that `IndexOf` finds is the frame's. -/
  frame : ∀ e ∈ m.entries, ∀ p, e.HasFrame p → ∃ i, fa.indexOf p = .ok i ∧ i < fa.pages ∧
    fa.baseOf i = .ok p ∧ (fa.elems i).type = e.type
  /-- Different frames have different elements. -/
  distinct : ∀ e ∈ m.entries, ∀ f ∈ m.entries, ∀ p q, e.HasFrame p → f.HasFrame q → p ≠ q →
    fa.indexOf p ≠ fa.indexOf q

/-- **What `Init` should do**, with an allocator that never runs out, and whatever the array and the
memory contained: it returns, the array describes the frames of the map, and no element outside the
allocated pages has been written. -/
def DescribesFrames (m : MemoryMap) : Prop :=
  ∀ (alloc : ℕ → ℕ) (fa : FrameArray), (∀ n ≠ 0, alloc n ≠ 0) →
    ∃ n fa', FrameArray.pagesRequired m = .ok n ∧ fa.init alloc m = .ok fa' ∧ fa'.Describes m ∧
      ∀ i, n * pageSize < (i + 1) * sizeofFrameDescriptor → fa'.elems i = fa.elems i

/-- The walk over the entry ends: the region wraps around, or ends far enough below the top of the
address space for `current` to get past it. -/
def MemoryMapEntry.WalkEnds (e : MemoryMapEntry) : Prop :=
  2 ^ 64 ≤ e.base.toNat + e.length.toNat ∨ e.length.toNat = 0 ∨
    e.base.toNat + e.length.toNat ≤ 2 ^ 64 - pageSize + e.base.toNat % pageSize

instance (e : MemoryMapEntry) : Decidable e.WalkEnds :=
  inferInstanceAs (Decidable (_ ∨ _ ∨ _))

/-- How often the walk over the entry goes round. -/
def MemoryMapEntry.rounds (e : MemoryMapEntry) : ℕ :=
  if 2 ^ 64 ≤ e.base.toNat + e.length.toNat then 0
  else (e.length.toNat + pageSize - 1) / pageSize

/-! ## The walks -/

section Walk

variable {σ : Type} {limit : ℕ} {f : σ → ℕ → Exec σ}

/-- **A walk visits page after page.** -/
theorem run_walkBody {n : ℕ} : ∀ {k c : ℕ} (s : σ), (n ≠ 0 → c + (n - 1) * 0x1000 < limit) →
    limit ≤ c + n * 0x1000 → c + n * 0x1000 < 2 ^ 64 → n < k →
    Loop.run (walkBody limit f) k (s, c) = (pagesFrom c n).foldlM f s := by
  induction n with
  | zero =>
    intro k c s _ hle _ hk
    obtain ⟨k, rfl⟩ := Nat.exists_eq_succ_of_ne_zero (Nat.ne_of_gt hk)
    rw [Loop.run_inr (r := s) (by simp [walkBody]; omega)]
    rfl
  | succ n ih =>
    intro k c s hlt hle hwrap hk
    obtain ⟨k, rfl⟩ := Nat.exists_eq_succ_of_ne_zero (Nat.ne_of_gt (Nat.zero_lt_of_lt hk))
    have hc : c < limit := by
      have := hlt (Nat.succ_ne_zero n)
      omega
    have hadd : add64 c pageSize = c + 0x1000 := add64_of_lt (by simp only [pageSize]; omega)
    rw [pagesFrom_succ, List.foldlM_cons]
    cases hs : f s c with
    | error e =>
      rw [Loop.run_error (e := e) (by simp [walkBody, hc, hs])]
      rfl
    | ok s' =>
      have hbody : walkBody limit f (s, c) = .ok (.inl (s', c + 0x1000)) := by
        simp [walkBody, hc, hs, hadd]
      rw [Loop.run_inl hbody, ih s' (fun hn ↦ ?_) (by omega) (by omega) (by omega)]
      · rfl
      · have := hlt (Nat.succ_ne_zero n)
        omega

/-- The walk over an entry, when it ends. -/
theorem exec_walkBody {e : MemoryMapEntry} (he : e.WalkEnds) (s : σ) :
    Loop.exec (walkBody (add64 e.base.toNat e.length.toNat) f) (s, e.base.toNat)
      = (pagesFrom e.base.toNat e.rounds).foldlM f s := by
  have hb := e.base.toNat_lt
  have hl := e.length.toNat_lt
  refine run_walkBody s ?_ ?_ ?_ ?_ <;>
    simp only [MemoryMapEntry.rounds, MemoryMapEntry.WalkEnds, add64, pageSize,
      Loop.rounds] at * <;>
    split <;> omega

/-- **And when it does not**: the addresses that it visits stay below the limit for ever. -/
theorem exec_walkBody_diverges {e : MemoryMapEntry} (he : ¬e.WalkEnds)
    (hf : ∀ s c, ∃ s', f s c = .ok s') (s : σ) :
    Loop.exec (walkBody (add64 e.base.toNat e.length.toNat) f) (s, e.base.toNat)
      = .error .diverges := by
  simp only [MemoryMapEntry.WalkEnds, not_or, not_le, pageSize] at he
  obtain ⟨hwrap, -, hend⟩ := he
  refine Loop.run_diverges (fun s ↦ s.2 < 2 ^ 64 ∧ s.2 % 0x1000 = e.base.toNat % 0x1000) ?_ _
    ⟨e.base.toNat_lt, rfl⟩
  rintro ⟨s, c⟩ ⟨hc, hmod⟩
  obtain ⟨s', hs'⟩ := hf s c
  have hlimit : add64 e.base.toNat e.length.toNat = e.base.toNat + e.length.toNat :=
    add64_of_lt hwrap
  have hlt : c < e.base.toNat + e.length.toNat := by
    simp only at hc hmod
    omega
  refine ⟨(s', add64 c pageSize), by simp [walkBody, hlimit, hlt, hs'], ?_⟩
  simp only [add64, pageSize] at hmod ⊢
  omega

end Walk

section Frames

variable {σ : Type} {m : MemoryMap} {f : MemoryMapEntry → σ → ℕ → Exec σ}

/-- **The loops visit the frames of entry after entry**, when all walks end. -/
theorem forFrames_eq (hends : ∀ e ∈ m.entries, e.WalkEnds) (s : σ) :
    forFrames m f s
      = m.entries.foldlM (fun s e ↦ (pagesFrom e.base.toNat e.rounds).foldlM (f e) s) s := by
  rw [forFrames]
  generalize m.entries = l at hends
  induction l generalizing s with
  | nil => rfl
  | cons e l ih =>
    rw [List.foldlM_cons, List.foldlM_cons, exec_walkBody (hends e List.mem_cons_self)]
    refine congrArg _ (funext fun s' ↦ ?_)
    exact ih s' fun e' he' ↦ hends e' (List.mem_cons_of_mem e he')

/-- The invariant rule of the loops over the frames. -/
theorem forFrames_returns {I : σ → Prop} (hends : ∀ e ∈ m.entries, e.WalkEnds)
    (hf : ∀ e ∈ m.entries, 0 < e.rounds → ∀ s c, I s → ∃ s', f e s c = .ok s' ∧ I s')
    {s : σ} (hs : I s) : ∃ s', forFrames m f s = .ok s' ∧ I s' := by
  rw [forFrames_eq hends]
  refine Exec.foldlM_returns (fun e he s hs ↦ ?_) hs
  refine Exec.foldlM_returns (fun c hc s hs ↦ hf e he ?_ s c hs) hs
  obtain ⟨i, hi, -⟩ := mem_pagesFrom.mp hc
  exact Nat.zero_lt_of_lt hi

/-- One walk that does not end keeps the loops from ending. -/
theorem forFrames_diverges {e : MemoryMapEntry} (he : e ∈ m.entries) (hends : ¬e.WalkEnds)
    (hf : ∀ e s c, ∃ s', f e s c = .ok s') (s : σ) : ∃ x, forFrames m f s = .error x :=
  Exec.foldlM_error he (fun s ↦ ⟨.diverges, exec_walkBody_diverges hends (hf e) s⟩) s

/-- How many frames the loops visit. -/
def MemoryMap.visits (m : MemoryMap) : ℕ := (m.entries.map MemoryMapEntry.rounds).sum

theorem foldlM_count {α : Type} (l : List α) {n : ℕ} (hn : n + l.length < 2 ^ 64) :
    l.foldlM (fun n _ ↦ (.ok (add64 n 1) : Exec ℕ)) n = .ok (n + l.length) := by
  induction l generalizing n with
  | nil => rfl
  | cons x l ih =>
    rw [List.length_cons] at hn ⊢
    rw [List.foldlM_cons, Exec.ok_bind, add64_of_lt (by omega), ih (by omega)]
    congr 1
    omega

theorem forFrames_count (hends : ∀ e ∈ m.entries, e.WalkEnds) (hlt : m.visits < 2 ^ 64) :
    forFrames m (fun _ n _ ↦ .ok (add64 n 1)) 0 = .ok m.visits := by
  rw [forFrames_eq hends, MemoryMap.visits] at *
  suffices h : ∀ (l : List MemoryMapEntry) (n : ℕ),
      n + (l.map MemoryMapEntry.rounds).sum < 2 ^ 64 →
      l.foldlM (fun n e ↦ (pagesFrom e.base.toNat e.rounds).foldlM
        (fun n _ ↦ (.ok (add64 n 1) : Exec ℕ)) n) n
          = .ok (n + (l.map MemoryMapEntry.rounds).sum) by
    simpa using h m.entries 0 (by omega)
  intro l
  induction l with
  | nil => exact fun n _ ↦ rfl
  | cons e l ih =>
    intro n hn
    rw [List.map_cons, List.sum_cons] at hn ⊢
    rw [List.foldlM_cons, foldlM_count _ (by rw [length_pagesFrom]; omega), Exec.ok_bind,
      length_pagesFrom, ih _ (by omega)]
    congr 1
    omega

end Frames

/-! ## What `Init` does -/

namespace FrameArray

variable {m : MemoryMap} {alloc : ℕ → ℕ}

theorem pagesRequired_eq (hends : ∀ e ∈ m.entries, e.WalkEnds) (hlt : m.visits < 2 ^ 32) :
    pagesRequired m = .ok m.visits := by
  have hbytes : memoryRequired m = .ok (m.visits * 0x1000) := by
    rw [memoryRequired, forFrames_count hends (by omega), Exec.ok_bind, mul64,
      Nat.mod_eq_of_lt (by simp only [pageSize]; omega)]
    rfl
  rw [pagesRequired, hbytes]
  simpa using hlt

/-- **`InitFrameDescriptors` writes element 0 only**, and does not assign `m_pages`. -/
theorem initFrameDescriptors_spec (fa : FrameArray) (hends : ∀ e ∈ m.entries, e.WalkEnds)
    (hbuffer : m.visits ≠ 0 → fa.buffer ≠ 0) :
    ∃ fa', fa.initFrameDescriptors m = .ok fa' ∧ fa'.pages = fa.pages ∧
      fa'.buffer = fa.buffer ∧ ∀ i, i ≠ 0 ∨ m.visits = 0 → fa'.elems i = fa.elems i := by
  rw [initFrameDescriptors]
  refine forFrames_returns (I := fun fa' : FrameArray ↦ fa'.pages = fa.pages ∧
    fa'.buffer = fa.buffer ∧ ∀ i, i ≠ 0 ∨ m.visits = 0 → fa'.elems i = fa.elems i) hends ?_
    ⟨rfl, rfl, fun _ _ ↦ rfl⟩
  rintro e he hpos s c ⟨hpages, hs, helems⟩
  have hvisits : m.visits ≠ 0 := by
    have := List.le_sum_of_mem (List.mem_map_of_mem (f := MemoryMapEntry.rounds) he)
    rw [← MemoryMap.visits] at this
    omega
  refine ⟨{ s with elems := fun j ↦ if j = 0 then .new c e.type else s.elems j },
    if_neg (hs ▸ hbuffer hvisits), hpages, hs, fun i hi ↦ ?_⟩
  rw [← helems i hi]
  exact if_neg (hi.resolve_right hvisits)

theorem init_spec (hends : ∀ e ∈ m.entries, e.WalkEnds) (hlt : m.visits < 2 ^ 32)
    (halloc : m.visits ≠ 0 → alloc m.visits ≠ 0) (fa : FrameArray) :
    ∃ fa', fa.init alloc m = .ok fa' ∧ fa'.pages = fa.pages ∧ fa'.buffer = alloc m.visits ∧
      ∀ i, i ≠ 0 ∨ m.visits = 0 → fa'.elems i = fa.elems i := by
  have hmem : fa.initMemory alloc m = .ok { fa with buffer := alloc m.visits } := by
    rw [initMemory, pagesRequired_eq hends hlt]
    rfl
  rw [init, hmem]
  exact initFrameDescriptors_spec { fa with buffer := alloc m.visits } hends halloc

end FrameArray

/-! ## Which maps are described -/

variable {m : MemoryMap} {e : MemoryMapEntry}

/-- The walk over an entry without a frame goes round once at most. -/
theorem MemoryMapEntry.rounds_le_one (hframe : ∀ p, ¬e.HasFrame p) : e.rounds ≤ 1 := by
  by_contra hgt
  -- the first page base from `base` on
  refine hframe ((e.base.toNat + 0xFFF) / 0x1000 * 0x1000) ⟨Nat.mul_mod_left _ _, ?_⟩
  simp only [rounds, pageSize] at hgt
  split at hgt
  · omega
  · exact ⟨by omega, by omega, by omega⟩

/-- A map has 20 entries, so that one without a frame is visited 20 times at most. -/
theorem MemoryMap.visits_le (hframe : ∀ e ∈ m.entries, ∀ p, ¬e.HasFrame p) : m.visits ≤ 20 := by
  have hle : m.visits ≤ (m.entries.map MemoryMapEntry.rounds).length • 1 :=
    List.sum_le_card_nsmul _ 1 fun n hn ↦ by
      obtain ⟨e, he, rfl⟩ := List.mem_map.mp hn
      exact MemoryMapEntry.rounds_le_one (hframe e he)
  simpa [m.size_eq, maxEntries] using hle

/-- Where `Init` returns, all walks end. -/
theorem DescribesFrames.walkEnds (h : DescribesFrames m) (he : e ∈ m.entries) : e.WalkEnds := by
  by_contra hends
  obtain ⟨n, fa', hn, -⟩ := h (fun _ ↦ 0x1000) ⟨0, 0, fun _ ↦ .new 0 .Empty⟩ fun _ _ ↦ by decide
  obtain ⟨x, hx⟩ := forFrames_diverges (f := fun _ n _ ↦ .ok (add64 n 1)) he hends
    (fun _ _ _ ↦ ⟨_, rfl⟩) 0
  rw [FrameArray.pagesRequired, FrameArray.memoryRequired, hx] at hn
  cases hn

/-- A map with a frame is not described: if `m_pages` was 0, it still is. -/
theorem DescribesFrames.no_frame (h : DescribesFrames m) (he : e ∈ m.entries) (p : ℕ) :
    ¬e.HasFrame p := by
  intro hp
  obtain ⟨n, fa', hn, hinit, hdesc, -⟩ := h (fun _ ↦ 0x1000) ⟨0, 0, fun _ ↦ .new 0 .Empty⟩
    fun _ _ ↦ by decide
  obtain ⟨fa'', hfill, hpages, -⟩ := FrameArray.initFrameDescriptors_spec
    ⟨0x1000, 0, fun _ ↦ .new 0 .Empty⟩ (fun e he ↦ h.walkEnds he) fun _ ↦ by decide
  rw [FrameArray.init, FrameArray.initMemory, hn] at hinit
  cases hfill.symm.trans hinit
  obtain ⟨i, -, hi, -⟩ := hdesc.frame e he p hp
  rw [hpages] at hi
  exact absurd hi (Nat.not_lt_zero i)

/-- **The frame array describes exactly the maps that have no frame**, as far as `Init` returns. -/
theorem describesFrames_iff (m : MemoryMap) : DescribesFrames m ↔
    ∀ e ∈ m.entries, e.WalkEnds ∧ ∀ p, ¬e.HasFrame p := by
  refine ⟨fun h e he ↦ ⟨h.walkEnds he, h.no_frame he⟩, fun h alloc fa halloc ↦ ?_⟩
  have hends : ∀ e ∈ m.entries, e.WalkEnds := fun e he ↦ (h e he).1
  have hframe : ∀ e ∈ m.entries, ∀ p, ¬e.HasFrame p := fun e he ↦ (h e he).2
  have hvisits : m.visits < 2 ^ 32 := (MemoryMap.visits_le hframe).trans_lt (by decide)
  obtain ⟨fa', hinit, -, -, helems⟩ :=
    FrameArray.init_spec hends hvisits (halloc m.visits) fa
  refine ⟨m.visits, fa', FrameArray.pagesRequired_eq hends hvisits, hinit, ⟨?_, ?_⟩, fun i hi ↦ ?_⟩
  · exact fun e he p hp ↦ absurd hp (hframe e he p)
  · exact fun e he f _ p q hp _ _ ↦ absurd hp (hframe e he p)
  · refine helems i ?_
    simp only [pageSize, sizeofFrameDescriptor] at hi
    omega

/-- A map of two frames. -/
def twoFrames : MemoryMap := .ofList [⟨0x1000, 0x2000, .Useable⟩] (by decide)

/-- Two frames, in an array that was zeroed before: the second one is in element 0 and nothing in
element 1, which is the first one's, and no index is in range. -/
theorem twoFrames_not_described : ¬DescribesFrames twoFrames ∧
    ∃ fa', FrameArray.init (fun _ ↦ 0x8000) ⟨0, 0, fun _ ↦ .new 0 .Useable⟩ twoFrames = .ok fa' ∧
      fa'.indexOf 0x1000 = .ok 1 ∧ fa'.pages = 0 ∧ fa'.baseOf 1 = .error .assertFailed ∧
      fa'.elems 0 = .new 0x2000 .Useable ∧ fa'.elems 1 = .new 0 .Useable := by
  have hfirst : (⟨0x1000, 0x2000, .Useable⟩ : MemoryMapEntry) ∈ twoFrames.entries :=
    List.mem_cons_self
  refine ⟨fun h ↦ ?_, ?_⟩
  · exact h.no_frame hfirst 0x1000 ⟨rfl, by decide, by decide, by decide⟩
  · have hends : ∀ e ∈ twoFrames.entries, e.WalkEnds := by
      decide
    have hvisits : twoFrames.visits = 2 := by decide
    rw [FrameArray.init, FrameArray.initMemory, FrameArray.pagesRequired_eq hends (by omega),
      Exec.ok_bind, Exec.pure_eq, Exec.ok_bind, FrameArray.initFrameDescriptors, forFrames_eq hends]
    exact ⟨_, rfl, rfl, rfl, rfl, rfl, rfl⟩

end Chisaka
