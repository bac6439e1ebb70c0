import Chisaka.Ram.FreelistRuns
import Chisaka.Ram.FreelistFrames
import Chisaka.KContext

/-!
# Pages and objects do not get into each other's way

What holds of the two allocators on one memory, in every run of their clients whose calls fit
(`KRun.Fits`).

* `kernel_memory_sound`: every usable page is on one of the two lists, held by a client, or taken by
  the heap, and only one of these; every object lies in a page of the heap, and overlaps no other
  object, no descriptor and no buffer.
* `kernel_memory_kept`: what a client wrote into a page or an object stays there, whatever the
  clients do with both allocators, until it writes there again or gives it back.

The invariant is that of the page allocator, for the pages of clients and heap together, that of the
slab allocator, and that each slab is one page of the heap (`KRun.Inv`).
-/

set_option autoImplicit false

namespace Chisaka

open Bytes PageAllocators Slab

/-! ## The invariant -/

namespace KRun

variable {m : MemoryMap} {s s' : KRun} {pool pool' : PageAllocators.Pool} {g g' : Allocator.Layout}
  {mem' : Memory} {ram' : Freelist} {S : List ℕ} {p r x d b n : ℕ} {o : ℕ × ℕ}

/-- The page allocator, and all pages that are in use. -/
def pages (s : KRun) : PageAllocators.Run := ⟨s.k.ram, s.held ++ s.heapPages⟩

/-- The heap, and the objects. -/
def heap (s : KRun) : AllocatorRun := ⟨s.k.kheap, s.objects⟩

/-- **The invariant of a run.** -/
structure Inv (m : MemoryMap) (s : KRun) (pool : PageAllocators.Pool) (g : Allocator.Layout) :
    Prop where
  /-- The page allocator is in order. -/
  ram : Represents m s.pages pool
  /-- The heap is in order. -/
  kheap : s.heap.Inv g
  /-- A slab is a page of the heap. -/
  slabs : ∀ d b n, s.k.kheap.heap.region d = some (b, n) → b ∈ s.heapPages ∧ n = 1

namespace Inv

/-- The pages of the heap are held by no client. -/
theorem notMem_held (hi : s.Inv m pool g) (hm : m.Wellformed) (hp : p ∈ s.heapPages) :
    p ∉ s.held := hi.ram.notMem_left hm hp

theorem isPage (hi : s.Inv m pool g) (hm : m.Wellformed) (ht : m.BelowTop)
    (hp : p ∈ s.heapPages) : IsPage p :=
  hi.ram.isPage_of_held hm ht (List.mem_append_right _ hp)

/-- What lies in a slab lies in a page of the heap. -/
theorem exists_page (hi : s.Inv m pool g) (hc : s.k.kheap.heap.contains x d) :
    ∃ p ∈ s.heapPages, p ≤ x ∧ x < p + pageSize := by
  cases he : s.k.kheap.heap.descs d with
  | none => simp [Heap.contains, he] at hc
  | some ld =>
    obtain ⟨hb, hn⟩ := hi.slabs d ld.baseAddress ld.pages (by rw [Heap.region, he]; rfl)
    rw [contains_eq he, ListDescriptor.objectInRange, decide_eq_true_iff] at hc
    have hlimit : ld.limit ≤ ld.baseAddress + pageSize := by
      rw [ListDescriptor.limit, hn]
      exact Nat.mod_le _ _
    exact ⟨_, hb, hc.1, Nat.lt_of_lt_of_le hc.2 hlimit⟩

/-- A page of the heap overlaps no page that the heap does not have. -/
theorem page_apart (hi : s.Inv m pool g) (hm : m.Wellformed) (ht : m.BelowTop)
    (hp : p ∈ s.heapPages) {q : ℕ} (hq : IsPage q) (hqp : q ∉ s.heapPages) :
    p + pageSize ≤ q ∨ q + pageSize ≤ p :=
  (hi.isPage hm ht hp).disjoint hq fun h0 ↦ hqp (h0 ▸ hp)

/-! ### Updates -/

/-- **The page allocator has done something**: it wrote into pages that the heap does not have. -/
theorem setRam (hi : s.Inv m pool g) (hm : m.Wellformed) (ht : m.BelowTop) {held : List ℕ}
    (hr : Represents m ⟨ram', held ++ s.heapPages⟩ pool') (hmem : WithinPages S s.k.mem ram'.mem)
    (hS : ∀ q ∈ S, IsPage q ∧ q ∉ s.heapPages) :
    Inv m { s with k := s.k.setRam ram', held := held } pool' g := by
  refine ⟨hr, ?_, hi.slabs⟩
  have hstep : s.heap.step (.others ram'.mem) = .ok (0, ⟨(s.k.setRam ram').kheap, s.objects⟩) := rfl
  refine hi.kheap.step_others (fun x hx _ ↦ ?_) hstep
  -- a byte of a slab lies in a page of the heap
  obtain ⟨d, hd⟩ := hx
  obtain ⟨p, hp, h1, h2⟩ := hi.exists_page hd
  refine (hmem x fun q hq hxq ↦ ?_).trans (congrFun s.k.mem_eq x).symm
  have hapart := hi.page_apart hm ht hp (hS q hq).1 (hS q hq).2
  omega

/-- **The heap has done something**, and wrote no byte of memory. -/
theorem setKheap (hi : s.Inv m pool g) {kheap : Allocator} {objects : List (ℕ × ℕ)}
    (hf : Heap.Frame s.k.kheap.heap kheap.heap)
    (hi' : (⟨kheap, objects⟩ : AllocatorRun).Inv g') :
    Inv m { s with k := s.k.setKheap kheap, objects := objects } pool g' := by
  have hram : (s.k.setKheap kheap).ram = s.k.ram := by
    show { s.k.ram with mem := kheap.heap.mem } = s.k.ram
    rw [hf.mem, s.k.mem_eq]
  refine ⟨?_, hi', fun d b n h ↦ ?_⟩
  · show Represents m ⟨(s.k.setKheap kheap).ram, _⟩ pool
    rw [hram]
    exact hi.ram
  · have hregion : kheap.heap.region d = some (b, n) := h
    rw [hf.region] at hregion
    exact hi.slabs d b n hregion

/-- **A client writes** into what it owns. -/
theorem setMem (hi : s.Inv m pool g)
    (hlink : ∀ q ∈ pool.free, readWord mem' q = readWord s.k.mem q)
    (hslab : ∀ x, (∃ d, s.k.kheap.heap.contains x d) →
      (∀ o ∈ s.objects, ¬(o.1 ≤ x ∧ x < o.1 + o.2)) → mem' x = s.k.mem x) :
    Inv m { s with k := s.k.setMem mem' } pool g := by
  refine ⟨⟨fun o ↦ ?_, hi.ram.count, hi.ram.held, hi.ram.perm⟩, ?_, hi.slabs⟩
  · exact (hi.ram.lists o).congr fun q hq ↦ hlink q (Pool.mem_free.mpr ⟨o, hq⟩)
  · have hstep : s.heap.step (.others mem') = .ok (0, ⟨(s.k.setMem mem').kheap, s.objects⟩) := rfl
    refine hi.kheap.step_others (fun x hx ho ↦ ?_) hstep
    exact (hslab x hx ho).trans (congrFun s.k.mem_eq x).symm

/-! ### Steps -/

/-- `palloc`, for a client. -/
theorem palloc (hi : s.Inv m pool g) (hm : m.Wellformed) (ht : m.BelowTop) {k : KContext}
    (hs : s.k.palloc = .ok (p, k)) :
    (∃ pool', Inv m { s with k := k, held := hold p 1 s.held } pool' g) ∧
      WithinPages pool.free s.k.mem k.mem ∧ (p = 0 ∨ p ∈ pool.free) := by
  obtain ⟨⟨q, ram'⟩, hal, heq⟩ := Exec.bind_eq_ok.mp hs
  cases heq
  obtain ⟨p', ram'', pool', hal', hr, honly, hfree⟩ := hi.ram.palloc hm ht
  cases hal'.symm.trans hal
  exact ⟨⟨pool', hi.setRam hm ht hr honly fun q hq ↦ hi.ram.free_apart hm hq⟩, honly, hfree⟩

theorem pallocPages (hi : s.Inv m pool g) (hm : m.Wellformed) (ht : m.BelowTop) {k : KContext}
    (hs : s.k.pallocPages n = .ok (p, k)) :
    (∃ pool', Inv m { s with k := k, held := hold p n s.held } pool' g) ∧
      WithinPages pool.free s.k.mem k.mem := by
  obtain ⟨⟨q, ram'⟩, hal, heq⟩ := Exec.bind_eq_ok.mp hs
  cases heq
  obtain ⟨p', ram'', pool', hal', hr, honly⟩ := hi.ram.pallocPages hm n
  cases hal'.symm.trans hal
  exact ⟨⟨pool', hi.setRam hm ht hr honly fun q hq ↦ hi.ram.free_apart hm hq⟩, honly⟩

theorem pfree (hi : s.Inv m pool g) (hm : m.Wellformed) (ht : m.BelowTop) {k : KContext}
    (hk : p = 0 ∨ p ∈ s.held) (ho : s.Fits (.pfree p)) (hs : s.k.pfree p = .ok k) :
    (∃ pool', Inv m { s with k := k, held := s.held.erase p } pool' g) ∧
      WithinPages (pool.freed p) s.k.mem k.mem := by
  obtain ⟨ram', hal, heq⟩ := Exec.bind_eq_ok.mp hs
  cases heq
  obtain ⟨ram'', pool', hal', hr, honly, hS⟩ := hi.ram.pfree hm ht hk ho
  cases hal'.symm.trans hal
  exact ⟨⟨pool', hi.setRam hm ht hr honly hS⟩, honly⟩

theorem kmalloc (hi : s.Inv m pool g) {bytes : ℕ} (hf : s.Fits (.kmalloc bytes))
    (hs : s.step (.kmalloc bytes) = .ok (r, s')) :
    (∃ g', s'.Inv m pool g') ∧ s'.k.mem = s.k.mem := by
  obtain ⟨⟨p, k⟩, hk, heq⟩ := Exec.bind_eq_ok.mp hs
  obtain ⟨⟨q, a⟩, hal, hk'⟩ := Exec.bind_eq_ok.mp hk
  cases hk'
  cases heq
  have hframe := s.k.kheap.allocateObject_frame bytes _ hal
  have hstep : s.heap.step (.allocateObject bytes) =
      .ok (r, ⟨a, if r = 0 then s.objects else (r, bytes) :: s.objects⟩) := by
    rw [AllocatorRun.step, show s.heap.a.allocateObject bytes = _ from hal]
    rfl
  have hfit : s.heap.Fits (.allocateObject bytes) := hf
  obtain ⟨g', hi'⟩ := AllocatorRun.Inv.of_step (hi.kheap.step_allocateObject hfit) hstep
  exact ⟨⟨g', hi.setKheap hframe hi'⟩, hframe.mem.trans s.k.mem_eq⟩

theorem kfree (hi : s.Inv m pool g) {pobj : ℕ} (hs : s.step (.kfree pobj) = .ok (r, s')) :
    (∃ g', s'.Inv m pool g') ∧ s'.k.mem = s.k.mem := by
  obtain ⟨k, hk, heq⟩ := Exec.bind_eq_ok.mp hs
  obtain ⟨a, hal, hk'⟩ := Exec.bind_eq_ok.mp hk
  cases hk'
  cases heq
  rw [Allocator.deallocateObject_eq] at hal
  cases hal
  have hstep : s.heap.step (.deallocateObject pobj) =
      .ok (0, ⟨s.k.kheap, s.objects.filter fun o ↦ o.1 ≠ pobj⟩) := by
    rw [AllocatorRun.step, Allocator.deallocateObject_eq]
    rfl
  obtain ⟨g', hi'⟩ := AllocatorRun.Inv.of_step (hi.kheap.step_deallocateObject pobj) hstep
  exact ⟨⟨g', hi.setKheap (Heap.Frame.refl _) hi'⟩, s.k.mem_eq⟩

theorem newBuffer (hi : s.Inv m pool g) {size : UInt16} (hf : s.Fits (.newBuffer size))
    (hs : s.step (.newBuffer size) = .ok (r, s')) :
    (∃ g', s'.Inv m pool g') ∧ s'.k.mem = s.k.mem := by
  obtain ⟨⟨p, k⟩, hk, heq⟩ := Exec.bind_eq_ok.mp hs
  obtain ⟨⟨q, a⟩, hal, hk'⟩ := Exec.bind_eq_ok.mp hk
  cases hk'
  cases heq
  have hframe := s.k.kheap.newBuffer_frame size _ hal
  have hstep : s.heap.step (.newBuffer size) = .ok (r, ⟨a, s.objects⟩) := by
    rw [AllocatorRun.step, show s.heap.a.newBuffer size = _ from hal]
    rfl
  have hfit : s.heap.Fits (.newBuffer size) := hf
  obtain ⟨g', hi'⟩ := AllocatorRun.Inv.of_step (hi.kheap.step_newBuffer hfit) hstep
  exact ⟨⟨g', hi.setKheap hframe hi'⟩, hframe.mem.trans s.k.mem_eq⟩

theorem newListDescriptor (hi : s.Inv m pool g) (hm : m.Wellformed) (ht : m.BelowTop)
    {size : UInt16} {pages : UInt8} (hf : s.Fits (.newListDescriptor size pages))
    (hs : s.step (.newListDescriptor size pages) = .ok (r, s')) :
    (∃ pool' g', s'.Inv m pool' g') ∧ WithinPages pool.free s.k.mem s'.k.mem := by
  obtain ⟨⟨list, page, k⟩, hk, heq⟩ := Exec.bind_eq_ok.mp hs
  obtain ⟨⟨p, k₁⟩, hpal, hk'⟩ := Exec.bind_eq_ok.mp hk
  obtain ⟨⟨l, a⟩, hal, hk''⟩ := Exec.bind_eq_ok.mp hk'
  cases hk''
  cases heq
  obtain ⟨hroom, rfl, hfits⟩ := hf
  obtain ⟨⟨pool₁, hi₁⟩, honly, hfree⟩ := hi.palloc hm ht hpal
  have hroom₁ : k₁.kheap.Room := KContext.palloc_room hpal hroom
  by_cases hp0 : page = 0
  · subst hp0
    exact (k₁.kheap.newListDescriptor_null size 1 _ hal).elim
  · obtain ⟨hc, hlinks⟩ := hfits page k₁ hpal hp0
    have hheld : hold page 1 s.held = page :: s.held := by simp [hold, hp0, pagesFrom]
    have hmine : page ∈ (page :: s.held) ++ s.heapPages := List.mem_cons_self
    have hpage : IsPage page := hi₁.ram.isPage_of_held hm ht (hheld ▸ hmine)
    have hnew : page ∉ s.heapPages := fun hp ↦
      hi₁.notMem_held hm hp (hheld ▸ List.mem_cons_self : page ∈ hold page 1 s.held)
    have hadds := Allocator.newListDescriptor_adds hc hlinks k₁.kheap _ hal
    have hother : ∀ q, IsPage q → q ≠ page → readWord a.heap.mem q = readWord k₁.ram.mem q := by
      intro q hq hne
      have hd := hpage.disjoint hq hne.symm
      refine readWord_congr fun x hx hx' ↦ (hadds.mem x ?_).trans (congrFun k₁.mem_eq x)
      simp only [pageSize, UInt8.reduceToNat] at hd ⊢
      omega
    -- the heap gets a slab in a page that no slab of it has
    have hstep : AllocatorRun.step ⟨k₁.kheap, s.objects⟩ (.newListDescriptor page size 1) =
        .ok (r, ⟨a, s.objects⟩) := by
      rw [AllocatorRun.step, hal]
      rfl
    have hk : AllocatorRun.Enabled ⟨k₁.kheap, s.objects⟩ (.newListDescriptor page size 1) := by
      intro d x h1 h2
      refine Bool.eq_false_iff.mpr fun hc ↦ ?_
      obtain ⟨p, hp, h3, h4⟩ := hi₁.exists_page hc
      have hd := hi₁.page_apart hm ht hp hpage hnew
      simp only [pageSize, UInt8.reduceToNat] at hd h2 h4
      omega
    obtain ⟨g', hi'⟩ := AllocatorRun.Inv.of_step
      (hi₁.kheap.step_newListDescriptor hk ⟨hroom₁, hc, hlinks⟩) hstep
    have hperm : (hold page 1 s.held ++ s.heapPages).Perm (s.held ++ hold page 1 s.heapPages) := by
      rw [hheld, show hold page 1 s.heapPages = page :: s.heapPages by simp [hold, hp0, pagesFrom]]
      exact List.perm_middle.symm
    have hr := hi₁.ram.perm_held hperm
    refine ⟨⟨_, g', ⟨fun o ↦ ?_, hr.count, hr.held, hr.perm⟩, hi', fun d b n h ↦ ?_⟩, ?_⟩
    · refine (hr.lists o).congr fun q hq ↦ hother q ((hr.lists o).page q hq) ?_
      rintro rfl
      exact hi₁.ram.notMem_list hm (hheld ▸ hmine) o hq
    · have hregion : a.heap.region d = some (b, n) := h
      rw [hadds.region] at hregion
      have hheap : hold page 1 s.heapPages = page :: s.heapPages := by simp [hold, hp0, pagesFrom]
      show b ∈ hold page 1 s.heapPages ∧ n = 1
      rw [hheap]
      by_cases hd : d = r
      · subst hd
        rw [Function.update_self] at hregion
        cases hregion
        exact ⟨List.mem_cons_self, rfl⟩
      · rw [Function.update_of_ne hd] at hregion
        obtain ⟨hb, hn⟩ := hi₁.slabs d b n hregion
        exact ⟨List.mem_cons_of_mem page hb, hn⟩
    · intro x hx
      have h1 : a.heap.mem x = k₁.kheap.heap.mem x := by
        refine hadds.mem x fun hin ↦ hx page (hfree.resolve_left hp0) ?_
        simpa only [pageSize, UInt8.reduceToNat] using hin
      exact h1.trans ((congrFun k₁.mem_eq x).trans (honly x hx))

theorem writePage (hi : s.Inv m pool g) (hm : m.Wellformed) (ht : m.BelowTop)
    {f : ℕ → UInt8} (hp : p ∈ s.held) :
    Inv m { s with k := s.k.setMem (overlay s.k.mem p pageSize f) } pool g := by
  have hpage := hi.ram.isPage_of_held hm ht (List.mem_append_left s.heapPages hp)
  refine hi.setMem (fun q hq ↦ readWord_overlay_of_disjoint ?_) fun x ⟨d, hd⟩ _ ↦ ?_
  · obtain ⟨o, ho⟩ := Pool.mem_free.mp hq
    have hd := hpage.disjoint ((hi.ram.lists o).page q ho) fun h0 ↦
      hi.ram.notMem_list hm (List.mem_append_left s.heapPages hp) o (h0 ▸ ho)
    simp only [pageSize] at *
    omega
  · obtain ⟨q, hq, h1, h2⟩ := hi.exists_page hd
    have hd := hi.page_apart hm ht hq hpage fun hp' ↦ hi.notMem_held hm hp' hp
    exact if_neg (by omega)

/-- An object lies in a page of the heap. -/
theorem object_inside (hi : s.Inv m pool g) (ho : o ∈ s.objects) :
    ∃ p ∈ s.heapPages, p ≤ o.1 ∧ o.1 + o.2 ≤ p + pageSize := by
  obtain ⟨d, ld, he, h1, h2⟩ := hi.kheap.sound.inside o ho
  have hdesc : s.k.kheap.heap.region d = some (ld.baseAddress, ld.pages) := by
    rw [Heap.region, show s.k.kheap.heap.descs d = some ld from he]
    rfl
  obtain ⟨hb, hn⟩ := hi.slabs d _ _ hdesc
  rw [hn] at h2
  exact ⟨_, hb, h1, h2⟩

/-- An object overlaps no page that the heap does not have. -/
theorem object_apart (hi : s.Inv m pool g) (hm : m.Wellformed) (ht : m.BelowTop)
    (ho : o ∈ s.objects) {q : ℕ} (hq : IsPage q) (hqh : q ∉ s.heapPages) :
    AllocatorRun.Apart o.1 o.2 q pageSize := by
  obtain ⟨p, hp, h1, h2⟩ := hi.object_inside ho
  have hd := hi.page_apart hm ht hp hq hqh
  unfold AllocatorRun.Apart
  omega

theorem writeObject (hi : s.Inv m pool g) (hm : m.Wellformed) (ht : m.BelowTop)
    {f : ℕ → UInt8} (ho : o ∈ s.objects) :
    Inv m { s with k := s.k.setMem (overlay s.k.mem o.1 o.2 f) } pool g := by
  refine hi.setMem (fun q hq ↦ readWord_overlay_of_disjoint ?_) fun x _ hout ↦ if_neg (hout o ho)
  have hd := hi.object_apart hm ht ho (hi.ram.free_apart hm hq).1 (hi.ram.free_apart hm hq).2
  unfold AllocatorRun.Apart at hd
  rw [pageSize] at hd
  omega

/-- The bytes that a call may change: those of free pages, and what it names. -/
def Touches (pool : PageAllocators.Pool) (k : KCall) (x : ℕ) : Prop :=
  (∃ q ∈ pool.free, q ≤ x ∧ x < q + pageSize) ∨
    match k with
    | .pfree pagebase => pagebase ≠ 0 ∧ pagebase ≤ x ∧ x < pagebase + pageSize
    | .writePage page _ => page ≤ x ∧ x < page + pageSize
    | .writeObject object _ => object.1 ≤ x ∧ x < object.1 + object.2
    | _ => False

/-- **Every call that returns keeps the invariant**, and changes only what it touches. -/
theorem step (hi : s.Inv m pool g) (hm : m.Wellformed) (ht : m.BelowTop) {k : KCall}
    (hk : s.Enabled k) (hf : s.Fits k) (hs : s.step k = .ok (r, s')) :
    (∃ pool' g', s'.Inv m pool' g') ∧ ∀ x, ¬Touches pool k x → s'.k.mem x = s.k.mem x := by
  have hfree : ∀ {k : KCall} {mem : Memory}, WithinPages pool.free s.k.mem mem →
      ∀ x, ¬Touches pool k x → mem x = s.k.mem x := fun honly x hx ↦
    honly x fun q hq hin ↦ hx (.inl ⟨q, hq, hin⟩)
  cases k with
  | palloc =>
    obtain ⟨⟨p, k⟩, hk, heq⟩ := Exec.bind_eq_ok.mp hs
    cases heq
    obtain ⟨⟨pool', hi'⟩, honly, -⟩ := hi.palloc hm ht hk
    exact ⟨⟨pool', g, hi'⟩, hfree honly⟩
  | pallocPages n =>
    obtain ⟨⟨p, k⟩, hk, heq⟩ := Exec.bind_eq_ok.mp hs
    cases heq
    obtain ⟨⟨pool', hi'⟩, honly⟩ := hi.pallocPages hm ht hk
    exact ⟨⟨pool', g, hi'⟩, hfree honly⟩
  | pfree p =>
    obtain ⟨k, hk', heq⟩ := Exec.bind_eq_ok.mp hs
    cases heq
    obtain ⟨⟨pool', hi'⟩, honly⟩ := hi.pfree hm ht hk hf hk'
    refine ⟨⟨pool', g, hi'⟩, fun x hx ↦ honly x fun q hq hin ↦ hx ?_⟩
    rw [Pool.freed] at hq
    split at hq
    · exact .inl ⟨q, hq, hin⟩
    · rename_i hp0
      rcases List.mem_cons.mp hq with rfl | hq
      · exact .inr ⟨hp0, hin⟩
      · exact .inl ⟨q, hq, hin⟩
  | kmalloc bytes =>
    obtain ⟨⟨g', hi'⟩, hmem⟩ := hi.kmalloc hf hs
    exact ⟨⟨pool, g', hi'⟩, fun x _ ↦ congrFun hmem x⟩
  | kfree pobj =>
    obtain ⟨⟨g', hi'⟩, hmem⟩ := hi.kfree hs
    exact ⟨⟨pool, g', hi'⟩, fun x _ ↦ congrFun hmem x⟩
  | newBuffer size =>
    obtain ⟨⟨g', hi'⟩, hmem⟩ := hi.newBuffer hf hs
    exact ⟨⟨pool, g', hi'⟩, fun x _ ↦ congrFun hmem x⟩
  | newListDescriptor size pages =>
    obtain ⟨⟨pool', g', hi'⟩, honly⟩ := hi.newListDescriptor hm ht hf hs
    exact ⟨⟨pool', g', hi'⟩, hfree honly⟩
  | writePage p f =>
    cases hs
    exact ⟨⟨pool, g, hi.writePage hm ht hk⟩, fun x hx ↦ if_neg fun hin ↦ hx (.inr hin)⟩
  | writeObject o f =>
    cases hs
    exact ⟨⟨pool, g, hi.writeObject hm ht hk⟩, fun x hx ↦ if_neg fun hin ↦ hx (.inr hin)⟩

/-- **The invariant is established** when both allocators have been set up. -/
theorem of_init (hm : m.Wellformed) (ht : m.BelowTop) {ram : Freelist} {buffer64 stack page : ℕ}
    {uninitialised : Buffer} {k : KContext} (hapart : m.KernelApart buffer64 stack)
    (hs : KContext.init m ram buffer64 stack uninitialised = .ok (page, k)) :
    ∃ pool g, Inv m ⟨k, [], [page], []⟩ pool g ∧ k.kheap.Room := by
  obtain ⟨ram₁, hinit, hk⟩ := Exec.bind_eq_ok.mp hs
  obtain ⟨ram₁', hinit', hr⟩ := init_represents hm ht ram
  obtain rfl : ram₁' = ram₁ := Except.ok.inj (hinit'.symm.trans hinit)
  obtain ⟨⟨p, k₁⟩, hpal, hk'⟩ := Exec.bind_eq_ok.mp hk
  obtain ⟨⟨q, ram₂⟩, hal, hk₁⟩ := Exec.bind_eq_ok.mp hpal
  obtain ⟨a, hheap, hk''⟩ := Exec.bind_eq_ok.mp hk'
  cases hk₁
  cases hk''
  by_cases hp0 : page = 0
  · subst hp0
    exact (Allocator.init_null _ stack uninitialised _ hheap).elim
  obtain ⟨q, ram₃, pool, hal', hr₂, -⟩ := hr.palloc (H := []) (T := []) hm ht
  cases hal'.symm.trans hal
  rw [show hold page 1 [] ++ [] = [page] by simp [hold, hp0, pagesFrom]] at hr₂
  have hpage : IsPage page := hr₂.isPage_of_held hm ht (List.mem_singleton_self page)
  have hmem : page ∈ m.useablePages :=
    hr₂.perm.subset (List.mem_append_right _ (hr₂.held ▸ List.mem_singleton_self page))
  have hp := hapart page hmem
  have honly := Allocator.init_frame hp ram₂.mem uninitialised _ hheap
  obtain ⟨a', x, hspec, hi, -⟩ := Allocator.Inv.initAt_spec hp ram₂.mem uninitialised
  rw [← Allocator.Inv.init_eq_initAt hp] at hspec
  obtain rfl : a' = a := Except.ok.inj (hspec.symm.trans hheap)
  refine ⟨pool, _, ⟨⟨fun o ↦ ?_, hr₂.count, hr₂.held, hr₂.perm⟩, ⟨hi, by simp [KRun.heap],
    by simp [KRun.heap]⟩, fun d b n h ↦ ?_⟩, hi.room_of_length (show 2 + 1 < 64 by decide)⟩
  · -- the links of the free pages are outside the first page of the heap
    refine (hr₂.lists o).congr fun q hq ↦ readWord_congr fun x hx hx' ↦ honly x fun hin ↦ ?_
    have hd := hpage.disjoint ((hr₂.lists o).page q hq) fun h0 ↦
      hr₂.notMem_list hm (List.mem_singleton_self page) o (h0 ▸ hq)
    simp only [pageSize] at hd
    omega
  · -- there is one slab
    obtain ⟨nextFree, used, -, hfirst⟩ := hi.first
    have hregion : a'.heap.region d = some (b, n) := h
    cases hdesc : a'.heap.descs d with
    | none =>
      rw [Heap.region, hdesc] at hregion
      cases hregion
    | some ld =>
      have hd : d ∈ [page] := (hi.descs d).mpr (by rw [hdesc]; rfl)
      obtain rfl : d = page := List.mem_singleton.mp hd
      rw [Heap.region, show a'.heap.descs d = _ from hfirst] at hregion
      cases hregion
      exact ⟨List.mem_singleton_self _, rfl⟩

/-- **The invariant holds in every run** whose calls fit. -/
theorem of_reach (hm : m.Wellformed) (ht : m.BelowTop)
    (hs : ((kernelMachine m).restrict Fits).Reach s) : ∃ pool g, s.Inv m pool g := by
  refine hs.induct (I := fun s ↦ ∃ pool g, s.Inv m pool g) (fun s h0 ↦ ?_)
    fun s k r s' ⟨pool, g, hi⟩ hk he ↦ (hi.step hm ht hk.1 hk.2 he).1
  obtain ⟨hheld, hobj, ram, buffer64, stack, b, page, hapart, hinit, hpages⟩ := h0
  obtain ⟨k, held, heapPages, objects⟩ := s
  subst hheld hobj hpages
  obtain ⟨pool, g, hi, -⟩ := of_init hm ht hapart hinit
  exact ⟨pool, g, hi⟩

/-- A request of 64 bytes is served when the first page of the heap has room. -/
theorem kmalloc_64 (hi : s.Inv m pool g) (hroom : s.k.kheap.Room) :
    ∃ p s', s.step (.kmalloc 64) = .ok (p, s') ∧ s'.objects = (p, 64) :: s.objects := by
  obtain ⟨p, a', hstep, -⟩ :=
    AllocatorRun.allocateObject_buffer64 (s := s.heap) hi.kheap.inv hroom 64 rfl
  obtain ⟨⟨q, a⟩, hal, heq⟩ := Exec.bind_eq_ok.mp hstep
  have hal' : s.k.kheap.allocateObject 64 = .ok (q, a) := hal
  have hobj := congrArg (fun r ↦ r.2.objects) (Except.ok.inj heq)
  have hq : q = p := congrArg Prod.fst (Except.ok.inj heq)
  subst hq
  refine ⟨q, _, by rw [KRun.step, KContext.kmalloc, hal']; rfl, hobj⟩

end Inv

/-- `Init` of both allocators returns if there is a usable page. -/
theorem exists_init (hm : m.Wellformed) (ht : m.BelowTop) {buffer64 stack : ℕ}
    (hapart : m.KernelApart buffer64 stack) (hne : m.useablePages ≠ []) :
    ∃ s pool g, (kernelMachine m).init s ∧ s.Inv m pool g ∧ s.k.kheap.Room := by
  let ram : Freelist := ⟨fun _ ↦ 0, 0, 0, 0, 0⟩
  obtain ⟨ram₁, hinit, hr⟩ := init_represents hm ht ram
  have hfree : (Pool.ofMap m).free ≠ [] := fun h0 ↦ by
    have hperm := hr.perm
    rw [← Pool.free, h0] at hperm
    exact hne (List.nil_perm.mp hperm)
  obtain ⟨page, ram₂, hal, hmem⟩ := hr.allocatePage_mem hfree
  have hp := hapart page (hr.perm.subset (List.mem_append_left _ hmem))
  obtain ⟨a, x, hspec, -⟩ := Allocator.Inv.initAt_spec hp ram₂.mem (Buffer.new 0 0)
  rw [← Allocator.Inv.init_eq_initAt hp] at hspec
  let k₁ : KContext := ⟨ram₁, Allocator.new ram₁.mem buffer64, rfl⟩
  have hk : KContext.init m ram buffer64 stack (Buffer.new 0 0) =
      .ok (page, (k₁.setRam ram₂).setKheap a) :=
    Exec.bind_eq_ok.mpr ⟨ram₁, hinit, Exec.bind_eq_ok.mpr ⟨(page, k₁.setRam ram₂),
      Exec.bind_eq_ok.mpr ⟨(page, ram₂), hal, rfl⟩, Exec.bind_eq_ok.mpr ⟨a, hspec, rfl⟩⟩⟩
  obtain ⟨pool, g, hi, hroom⟩ := Inv.of_init hm ht hapart hk
  exact ⟨_, pool, g, ⟨rfl, rfl, ram, buffer64, stack, _, page, hapart, hk, rfl⟩, hi, hroom⟩

/-! ## Soundness -/

/-- **Nothing overlaps**, in either allocator or between the two. -/
structure Sound (m : MemoryMap) (s : KRun) : Prop where
  /-- Every usable page is on one of the two lists, held by a client, or taken by the heap, and is
  in one of these places once. -/
  pages : ∃ L H, FreeList s.k.mem s.k.ram.lowHead L ∧ FreeList s.k.mem s.k.ram.head H ∧
    (L ++ H ++ s.held ++ s.heapPages).Perm m.useablePages
  /-- An object lies in a page of the heap, -/
  inside : ∀ o ∈ s.objects, ∃ p ∈ s.heapPages, p ≤ o.1 ∧ o.1 + o.2 ≤ p + pageSize
  /-- and overlaps no other page. -/
  apart : ∀ o ∈ s.objects, ∀ q ∈ m.useablePages, q ∉ s.heapPages →
    AllocatorRun.Apart o.1 o.2 q pageSize
  /-- Objects overlap neither each other nor what the heap keeps for itself. -/
  heap : s.heap.Sound

theorem Inv.sound (hi : s.Inv m pool g) (hm : m.Wellformed) (ht : m.BelowTop) : s.Sound m := by
  refine ⟨⟨pool.list .LOW, pool.list .Z, hi.ram.lists .LOW, hi.ram.lists .Z, ?_⟩,
    fun o ho ↦ hi.object_inside ho, fun o ho q hq hqh ↦ ?_, hi.kheap.sound⟩
  · have hperm := hi.ram.perm_of .LOW
    rw [← hi.ram.held] at hperm
    simpa only [List.append_assoc, RamOptions.other, pages] using hperm
  · exact hi.object_apart hm ht ho (isPage_of_mem_useablePages hm ht hq) hqh

end KRun

/-! ## What is owned is kept -/

/-- What a client can own. -/
inductive Owned
  | page (base : ℕ)
  | object (o : ℕ × ℕ)

namespace Owned

/-- The bytes of a page, or of an object. -/
def Has : Owned → ℕ → Prop
  | .page p, x => p ≤ x ∧ x < p + pageSize
  | .object o, x => o.1 ≤ x ∧ x < o.1 + o.2

/-- A client holds it. -/
def HeldIn (held : List ℕ) (objects : List (ℕ × ℕ)) : Owned → Prop
  | .page p => p ∈ held
  | .object o => o ∈ objects

/-- The call neither gives it back nor writes into it. -/
def SparedBy (w : Owned) : KCall → Prop
  | .pfree p => w ≠ .page p
  | .kfree p => ∀ o, w = .object o → o.1 ≠ p
  | .writePage p _ => w ≠ .page p
  | .writeObject o _ => w ≠ .object o
  | _ => True

end Owned

namespace KRun

variable {m : MemoryMap} {s s' : KRun} {pool : PageAllocators.Pool} {g : Allocator.Layout}
  {k : KCall} {w : Owned} {r x : ℕ}

/-- A client holds it. -/
def Holds (s : KRun) (w : Owned) : Prop := w.HeldIn s.held s.objects

/-- What is not given back is still held. -/
theorem holds_step (hw : s.Holds w) (hk : w.SparedBy k) (hs : s.step k = .ok (r, s')) :
    s'.Holds w := by
  have hhold : ∀ p n, w.HeldIn (hold p n s.held) s.objects := by
    intro p n
    cases w with
    | object o => exact hw
    | page q =>
      show q ∈ hold p n s.held
      rw [hold]
      split
      · exact hw
      · exact List.mem_append_right _ hw
  cases k with
  | palloc =>
    obtain ⟨⟨p, k⟩, -, heq⟩ := Exec.bind_eq_ok.mp hs
    cases heq
    exact hhold r 1
  | pallocPages n =>
    obtain ⟨⟨p, k⟩, -, heq⟩ := Exec.bind_eq_ok.mp hs
    cases heq
    exact hhold r n
  | pfree p =>
    obtain ⟨k, -, heq⟩ := Exec.bind_eq_ok.mp hs
    cases heq
    cases w with
    | object o => exact hw
    | page q => exact (List.mem_erase_of_ne fun h0 ↦ hk (congrArg Owned.page h0)).mpr hw
  | kmalloc bytes =>
    obtain ⟨⟨p, k⟩, -, heq⟩ := Exec.bind_eq_ok.mp hs
    cases heq
    cases w with
    | page q => exact hw
    | object o =>
      show o ∈ if r = 0 then s.objects else (r, bytes) :: s.objects
      split
      · exact hw
      · exact List.mem_cons_of_mem _ hw
  | kfree pobj =>
    obtain ⟨k, -, heq⟩ := Exec.bind_eq_ok.mp hs
    cases heq
    cases w with
    | page q => exact hw
    | object o => exact List.mem_filter.mpr ⟨hw, by simpa using hk o rfl⟩
  | newBuffer size =>
    obtain ⟨⟨p, k⟩, -, heq⟩ := Exec.bind_eq_ok.mp hs
    cases heq
    exact hw
  | newListDescriptor size pages =>
    obtain ⟨⟨l, p, k⟩, -, heq⟩ := Exec.bind_eq_ok.mp hs
    cases heq
    exact hw
  | writePage p f =>
    cases hs
    exact hw
  | writeObject o f =>
    cases hs
    exact hw

/-- A call that spares what a client holds does not touch it. -/
theorem Inv.not_touches (hi : s.Inv m pool g) (hm : m.Wellformed) (ht : m.BelowTop)
    (hk : s.Enabled k) (hw : s.Holds w) (hspare : w.SparedBy k) (hx : w.Has x) :
    ¬Touches pool k x := by
  have hheld : ∀ {p}, p ∈ s.held → IsPage p ∧ p ∉ s.heapPages := fun hp ↦
    ⟨hi.ram.isPage_of_held hm ht (List.mem_append_left _ hp), fun hp' ↦ hi.notMem_held hm hp' hp⟩
  -- a page that is neither free nor the heap's is apart from what is held
  have hapart : ∀ q, IsPage q → q ∉ s.heapPages → w ≠ .page q → ¬(q ≤ x ∧ x < q + pageSize) := by
    intro q hq hqh hne hin
    cases w with
    | page p =>
      have hd := (hheld hw).1.disjoint hq fun h0 ↦ hne (congrArg Owned.page h0)
      have hx' : p ≤ x ∧ x < p + pageSize := hx
      omega
    | object o =>
      have hd := hi.object_apart hm ht hw hq hqh
      have hx' : o.1 ≤ x ∧ x < o.1 + o.2 := hx
      unfold AllocatorRun.Apart at hd
      omega
  rintro (⟨q, hq, hin⟩ | hnamed)
  · obtain ⟨hqp, hqh⟩ := hi.ram.free_apart hm hq
    refine hapart q hqp hqh ?_ hin
    rintro rfl
    obtain ⟨o, ho⟩ := Pool.mem_free.mp hq
    exact hi.ram.notMem_list hm (List.mem_append_left s.heapPages hw) o ho
  · cases k with
    | pfree p =>
      obtain ⟨hp0, hin⟩ := hnamed
      obtain ⟨hpp, hph⟩ := hheld (hk.resolve_left hp0)
      exact hapart p hpp hph hspare hin
    | writePage p f =>
      obtain ⟨hpp, hph⟩ := hheld hk
      exact hapart p hpp hph hspare hnamed
    | writeObject o f =>
      have hin : o.1 ≤ x ∧ x < o.1 + o.2 := hnamed
      cases w with
      | page p =>
        have hd := hi.object_apart hm ht hk (hheld hw).1 (hheld hw).2
        have hx' : p ≤ x ∧ x < p + pageSize := hx
        unfold AllocatorRun.Apart at hd
        omega
      | object o' =>
        have hx' : o'.1 ≤ x ∧ x < o'.1 + o'.2 := hx
        have hne : o ≠ o' := fun h0 ↦ hspare (congrArg Owned.object h0.symm)
        have hsymm : Std.Symm fun o o' : ℕ × ℕ ↦ AllocatorRun.Apart o.1 o.2 o'.1 o'.2 :=
          ⟨fun _ _ h ↦ h.symm⟩
        have hd := hi.kheap.sound.objects.forall hk hw hne
        unfold AllocatorRun.Apart at hd
        omega
    | _ => exact hnamed

end KRun

/-! ## Main results -/

open KRun

/-- **Nothing overlaps**, in any run whose calls fit. -/
theorem kernel_memory_sound {m : MemoryMap} (hm : m.Wellformed) (ht : m.BelowTop) {s : KRun}
    (hs : ((kernelMachine m).restrict KRun.Fits).Reach s) : s.Sound m := by
  obtain ⟨pool, g, hi⟩ := Inv.of_reach hm ht hs
  exact hi.sound hm ht

/-- The machine from a state on, as long as `w` is spared. -/
def sparing (m : MemoryMap) (w : Owned) (s : KRun) : Machine KRun KCall ℕ :=
  ((kernelMachine m).restrict fun s k ↦ s.Fits k ∧ w.SparedBy k).resume s

/-- **What a client holds keeps its contents**, whatever all the clients do with both allocators,
until it is given back or written by its owner. -/
theorem kernel_memory_kept {m : MemoryMap} (hm : m.Wellformed) (ht : m.BelowTop) {s s' : KRun}
    (hs : ((kernelMachine m).restrict KRun.Fits).Reach s) {w : Owned} (hw : s.Holds w)
    (hrun : (sparing m w s).Reach s') :
    s'.Holds w ∧ ∀ x, w.Has x → s'.k.mem x = s.k.mem x := by
  obtain ⟨pool, g, hi⟩ := Inv.of_reach hm ht hs
  have hall : (∃ pool g, s'.Inv m pool g) ∧ s'.Holds w ∧ ∀ x, w.Has x → s'.k.mem x = s.k.mem x := by
    refine hrun.induct (I := fun t ↦ (∃ pool g, t.Inv m pool g) ∧ t.Holds w ∧
      ∀ x, w.Has x → t.k.mem x = s.k.mem x) (fun t h0 ↦ ?_) fun t k r t' ih hk he ↦ ?_
    · have h0' : t = s := h0
      subst h0'
      exact ⟨⟨pool, g, hi⟩, hw, fun _ _ ↦ rfl⟩
    · obtain ⟨⟨pool, g, hi⟩, hw, hmem⟩ := ih
      obtain ⟨hen, hfit, hspare⟩ := hk
      obtain ⟨hi', hframe⟩ := hi.step hm ht hen hfit he
      refine ⟨hi', holds_step hw hspare he, fun x hx ↦ ?_⟩
      rw [hframe x (hi.not_touches hm ht hen hw hspare hx), hmem x hx]
  exact hall.2

/-! ### The first object of two pages -/

/-- With two usable pages: the heap takes the first, and a client gets an object in it. -/
theorem exists_reach_twoPages : ∃ s o, ((kernelMachine twoPages).restrict KRun.Fits).Reach s ∧
    s.objects = [o] := by
  have hapart : twoPages.KernelApart 8 0x9000 := by
    have hpages : twoPages.useablePages = [0x1000, 0x2000] := by decide
    intro p hp
    rw [hpages] at hp
    simp only [List.mem_cons, List.not_mem_nil, or_false] at hp
    constructor <;> omega
  obtain ⟨s, pool, g, h0, hi, hroom⟩ :=
    exists_init twoPages_wellformed twoPages_belowTop hapart (by decide)
  obtain ⟨p, s', hs, hobj⟩ := hi.kmalloc_64 hroom
  have hk : (kernelMachine twoPages).enabled s (.kmalloc 64) := show 64 < 2 ^ 64 by decide
  have hf : s.Fits (.kmalloc 64) := ⟨fun _ ↦ by decide, fun _ ↦ hroom⟩
  rw [h0.2.1] at hobj
  exact ⟨s', (p, 64), .step (.init h0) ⟨hk, hf⟩ hs, hobj⟩

theorem kernel_memory_sound_twoPages : ∃ s : KRun, s.objects ≠ [] ∧ s.Sound twoPages := by
  obtain ⟨s, o, hs, hobj⟩ := exists_reach_twoPages
  exact ⟨s, by rw [hobj]; exact List.cons_ne_nil _ _,
    kernel_memory_sound twoPages_wellformed twoPages_belowTop hs⟩

/-- The object keeps its contents when a page is handed out. -/
theorem kernel_memory_kept_twoPages : ∃ (s s' : KRun) (o : ℕ × ℕ) (p : ℕ), o ∈ s.objects ∧
    s.step .palloc = .ok (p, s') ∧ ∀ x, o.1 ≤ x ∧ x < o.1 + o.2 → s'.k.mem x = s.k.mem x := by
  obtain ⟨s, o, hs, hobj⟩ := exists_reach_twoPages
  have ho : o ∈ s.objects := by rw [hobj]; exact List.mem_singleton_self o
  obtain ⟨pool, g, hi⟩ := Inv.of_reach twoPages_wellformed twoPages_belowTop hs
  obtain ⟨p, fl, -, hal, -⟩ := hi.ram.allocatePage twoPages_wellformed twoPages_belowTop
  have hstep : s.step .palloc = .ok (p, { s with k := s.k.setRam fl, held := hold p 1 s.held }) :=
    Exec.bind_eq_ok.mpr ⟨(p, s.k.setRam fl), Exec.bind_eq_ok.mpr ⟨(p, fl), hal, rfl⟩, rfl⟩
  have hk : (sparing twoPages (.object o) s).enabled s .palloc := ⟨trivial, trivial, trivial⟩
  refine ⟨s, _, o, p, ho, hstep, fun x hx ↦ ?_⟩
  exact (kernel_memory_kept twoPages_wellformed twoPages_belowTop hs (w := .object o) ho
    (.step (.init rfl) hk hstep)).2 x hx

end Chisaka
