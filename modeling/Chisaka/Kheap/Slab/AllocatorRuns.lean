import Chisaka.Lib.Machine
import Chisaka.Kheap.Slab.AllocatorObjects

/-!
# Runs of the slab allocator

`allocatorMachine` is the allocator after `Init`, with clients that allocate and deallocate objects,
make buffers and add slabs in pages of their own, and write into what they hold.

* `AllocatorRun.Sound` is what clients rely on: an object lies in one slab, and it overlaps neither
  another object nor a buffer or a descriptor of the allocator.  It holds as long as no request is
  cut down to a size for which there is space, and none takes the last buffer of the first page
  (`AllocatorRun.Fits`); such calls also return (`AllocatorRun.Inv.keeps`).
* `Allocator.HasSpace` is when `AllocateObject` answers an object at all.
* `DeallocateObject` does nothing (`deallocateObject_eq`), so that no object is ever given back.

The overload of `NewListDescriptor` that asks for a page itself is a call with that page.
-/

set_option autoImplicit false

namespace Chisaka.Slab

open Bytes

/-! ## `Init` -/

namespace Allocator

/-- The page of the heap lies between the ends of the address space, and neither `m_buffer64` nor
the local variable of `InitialiseLists` lies in it. -/
structure PageApart (buffer64 stack base : ℕ) : Prop where
  /-- The page is not at null. -/
  base_ne : base ≠ 0
  /-- It ends below the top of the address space. -/
  lt : base + 0x1000 < 2 ^ 64
  /-- `m_buffer64` lies elsewhere, -/
  buffer64 : buffer64 ≠ 0 ∧ ¬(base ≤ buffer64 ∧ buffer64 < base + 0x1000)
  /-- and so does the local variable. -/
  stack : stack ≠ 0 ∧ ¬(base ≤ stack ∧ stack < base + 0x1000)

namespace Inv

variable {a a' : Allocator} {g : Layout} {buffer64 stack base x : ℕ} {mem m : Memory}

/-- The layout after `InitialiseLists`. -/
def atInitialiseLists (stack base : ℕ) : Layout where
  base := base
  stack := stack
  ring := []
  lists := fun _ _ ↦ []
  slabs := [base]
  live := [base]

/-- **`InitialiseLists` establishes the invariant**, with one buffer of the first page used. -/
theorem initialiseLists (h : PageApart buffer64 stack base) (mem : Memory) :
    ∃ a', Allocator.initialiseLists { Allocator.new mem buffer64 with
        buffers := (Allocator.new mem buffer64).buffers.put buffer64 (Buffer.new buffer64 64) }
        stack base = .ok a' ∧
      a'.Inv (atInitialiseLists stack base) ∧ a'.Room ∧ a'.buffer64 = buffer64 := by
  have hne : stack ≠ base := fun h0 ↦ h.stack.2 (by omega)
  obtain ⟨m, hset, hch⟩ := setupLinkage_firstPage h.base_ne h.lt stack mem
  set a : Allocator := { Allocator.new mem buffer64 with
    buffers := (Allocator.new mem buffer64).buffers.put buffer64 (Buffer.new buffer64 64) } with ha
  have hb : a.buffers buffer64 = some (Buffer.new buffer64 64) := Buffers.put_self _ _ _
  have hspec := initialiseLists_spec (a := a) (Buffers.deref_eq h.buffer64.1 hb) rfl rfl h.stack.1
    h.base_ne hne hset
  set nextFree := readWord m base with hnext
  set heap := withTwo m a.heap.descs stack base none (some (firstList base nextFree stack))
    with hheap
  obtain ⟨e, hchained⟩ := chained_firstList h.base_ne hch
  have hdesc : heap.descs base = some (firstList base nextFree stack) := descs_snd hne
  have hdescs : ∀ d, (heap.descs d).isSome ↔ d = base := fun d ↦ isSome_descs_snd hne
  have hfirst : FirstDesc (atInitialiseLists stack base) heap := ⟨nextFree, 1, by decide, hdesc⟩
  have hcont : ∀ x, heap.contains x base ↔ base ≤ x ∧ x < base + 0x1000 := fun x ↦
    contains_base hfirst h.lt
  set b : Buffer := { (Buffer.new buffer64 64).countOp with partialLists := base } with hbuf
  have hput : (a.buffers.put buffer64 b) buffer64 = some b := Buffers.put_self _ _ _
  refine ⟨_, hspec, ?_, ⟨b, _, hput, hdesc, show 1 + 1 < 64 by decide⟩, rfl⟩
  constructor
  · refine LinkRing.singleton_iff.mpr ⟨?_, ?_⟩
    · exact Buffers.next_eq hput
    · exact Buffers.prev_eq hput
  · intro p hp
    obtain rfl : p = buffer64 := List.mem_singleton.mp hp
    refine ⟨b, hput, (sorted_new p 64 heap).of_heads (fun k ↦ ?_) (bufferSize_own _ _ _)⟩
    show (if p = p then b.setHead .partialLists 0 else b).head k = (Buffer.new p 64).head k
    rw [if_pos rfl]
    cases k <;> rfl
  · intro p hp q hq _ _ _ _ _
    rw [List.mem_singleton.mp hp, List.mem_singleton.mp hq]
  · exact ⟨b, hput, rfl, rfl⟩
  · exact hfirst
  · intro p _
    simp [atInitialiseLists, members]
  · simp [hheap, withTwo, atInitialiseLists]
  · refine ⟨h.buffer64.1, ?_, ?_⟩
    · exact Bool.eq_false_iff.mpr fun h0 ↦ h.buffer64.2 ((hcont _).mp h0)
    · exact Bool.eq_false_iff.mpr fun h0 ↦ h.stack.2 ((hcont _).mp h0)
  · exact (Slabs.nil heap).cons hdesc hchained fun _ hd ↦ absurd hd List.not_mem_nil
  · exact fun d ↦ List.mem_singleton.trans (hdescs d).symm
  · rintro x (hx | ⟨hx64, hx⟩)
    · obtain rfl : x = base := (hdescs x).mp hx
      exact ⟨List.mem_singleton_self x, (hcont x).mpr (by omega)⟩
    · exfalso
      have hnone : a.buffers.put buffer64 b x = none := by
        simp [Buffers.put, ha, Allocator.new, show x ≠ buffer64 from hx64]
      have hx' : (a.buffers.put buffer64 b x).isSome := hx
      rw [hnone] at hx'
      cases hx'

/-- The first page has room as long as little is live. -/
theorem room_of_length (hi : a.Inv g) (hlen : g.live.length + 1 < 64) : a.Room := by
  obtain ⟨b, n, u, hb, -, -, hbase, -, he⟩ := hi.deref_buffer64
  obtain ⟨ld, e, he', hch⟩ := hi.slabs.chained g.base hi.base_mem
  obtain rfl := Option.some.inj (he'.symm.trans he)
  refine ⟨b, g.first n u, hb, hbase ▸ he, ?_⟩
  rw [hch.used]
  exact Nat.lt_of_le_of_lt (Nat.succ_le_succ (List.length_filter_le _ _)) hlen

/-- **`Init` returns, and establishes the invariant.** -/
theorem initAt_spec (h : PageApart buffer64 stack base) (mem : Memory) (uninitialised : Buffer) :
    ∃ a' x, (Allocator.new mem buffer64).initAt stack base uninitialised = .ok a' ∧
      a'.Inv { atInitialiseLists stack base with live := [x, base] } ∧
      a'.buffer64 = buffer64 := by
  obtain ⟨a₁, hlists, hi₁, hroom, h64⟩ := initialiseLists h mem
  obtain ⟨x, a₂, hall, hi₂, hhand, h64', -, hin⟩ := hi₁.allocateFrom_buffer64 hroom
  have hmod : (Allocator.new mem buffer64).buffers.modify (Allocator.new mem buffer64).buffer64
      (fun b ↦ { b with bufferSize := 64 })
        = .ok ((Allocator.new mem buffer64).buffers.put buffer64 (Buffer.new buffer64 64)) := by
    have hnew : (Allocator.new mem buffer64).buffers buffer64 = some (Buffer.new buffer64 0) :=
      if_pos rfl
    show (Allocator.new mem buffer64).buffers.modify buffer64 _ = _
    simp [Buffers.modify, Buffers.deref_eq h.buffer64.1 hnew, Buffer.new]
  refine ⟨_, x, ?_, hi₂.constructBuffer List.mem_cons_self hhand.notOwn hin uninitialised x,
    h64'.trans h64⟩
  simp only [initAt, hmod, Exec.ok_bind, hlists, initialiseLowBuffer, hall,
    Allocator.constructBuffer, if_neg hhand.new.1, Exec.pure_eq]

/-- **What `Init` asserts at its end holds**, so that both overloads do the same. -/
theorem init_eq_initAt (h : PageApart buffer64 stack base) (mem : Memory)
    (uninitialised : Buffer) : (Allocator.new mem buffer64).init stack base uninitialised =
      (Allocator.new mem buffer64).initAt stack base uninitialised := by
  obtain ⟨a, x, hinit, hi, h64⟩ := initAt_spec h mem uninitialised
  obtain ⟨b, n, u, hb, hderef, hsize, hbase, -, he⟩ := hi.deref_buffer64
  have hself := LinkRing.singleton_iff.mp hi.ring
  rw [Buffers.next_eq hb, Buffers.prev_eq hb] at hself
  -- the other rings of `Buffer64` are empty
  obtain ⟨b₀, hb₀, hs⟩ := hi.sorted _ List.mem_cons_self
  obtain rfl : b₀ = b := Option.some.inj (hb₀.symm.trans hb)
  rw [own, if_pos rfl] at hs
  have hfree : b₀.freeLists = 0 := by
    by_contra h0
    exact hs.head_ne_zero (k := .freeLists) |>.mp h0 rfl
  have hfull : b₀.fullLists = 0 := by
    by_contra h0
    exact hs.head_ne_zero (k := .fullLists) |>.mp h0 rfl
  have hderef₁ := Heap.deref_eq hi.base_lt.1 he
  rw [← hbase] at hderef₁
  have hne : b₀.partialLists ≠ 0 := hbase ▸ hi.base_lt.1
  simp only [init, hinit, Exec.ok_bind, hderef, hderef₁, Exec.check, hsize, hne, hfree, hfull,
    hself, if_true, Exec.pure_eq, ne_eq, not_false_eq_true]

/-- Clients, and others, write into memory. -/
theorem write (hi : a.Inv g)
    (hm : ∀ y, ¬Writable a.heap g.slabs g.live y → m y = a.heap.mem y) :
    Inv { a with heap := { a.heap with mem := m } } g := by
  refine ⟨hi.ring, fun p hp ↦ ?_, hi.sizes, hi.buffer64, hi.first, hi.lone, hi.gone, hi.outside,
    hi.slabs.write (fun _ _ ↦ rfl) hm, hi.descs, hi.placed⟩
  obtain ⟨b, hb, hs⟩ := hi.sorted p hp
  exact ⟨b, hb, hs.congr fun _ _ ↦ rfl⟩

end Inv

/-! ## `DeallocateObject` -/

/-- **`DeallocateObject` does nothing**: the loop over the buffers ends where it begins. -/
theorem deallocateObject_eq (a : Allocator) (pobj : ℕ) : a.deallocateObject pobj = .ok a :=
  Loop.exec_inr (if_pos rfl)

end Allocator

/-! ## Runs -/

/-- What happens to the allocator. -/
inductive AllocatorCall
  | allocateObject (bytes : ℕ)
  | deallocateObject (pobj : ℕ)
  | newBuffer (bufferSize : UInt16)
  | newListDescriptor (baseAddr : ℕ) (bufferSize : UInt16) (pages : UInt8)
  /-- Clients, and others, write into memory. -/
  | others (mem : Memory)

/-- The allocator, and the objects that clients hold. -/
structure AllocatorRun where
  /-- The allocator. -/
  a : Allocator
  /-- Addresses of objects, and how many bytes were asked for. -/
  objects : List (ℕ × ℕ)

namespace AllocatorRun

/-- A call, its result, and the state it leaves. -/
def step (s : AllocatorRun) : AllocatorCall → Exec (ℕ × AllocatorRun)
  | .allocateObject bytes => do
    let (p, a) ← s.a.allocateObject bytes
    return (p, ⟨a, if p = 0 then s.objects else (p, bytes) :: s.objects⟩)
  | .deallocateObject pobj => do
    let a ← s.a.deallocateObject pobj
    return (0, ⟨a, s.objects.filter fun o ↦ o.1 ≠ pobj⟩)
  | .newBuffer bufferSize => do
    let (p, a) ← s.a.newBuffer bufferSize
    return (p, { s with a := a })
  | .newListDescriptor baseAddr bufferSize pages => do
    let (list, a) ← s.a.newListDescriptor baseAddr bufferSize pages
    return (list, { s with a := a })
  | .others mem => return (0, { s with a := { s.a with heap := { s.a.heap with mem := mem } } })

/-- The contract of the callers: sizes have 64 bits, a slab gets pages that no other slab has, and
in the pages of the slabs nothing is written but objects. -/
def Enabled (s : AllocatorRun) : AllocatorCall → Prop
  | .allocateObject bytes => bytes < 2 ^ 64
  | .deallocateObject _ => True
  | .newBuffer _ => True
  | .newListDescriptor baseAddr _ pages => ∀ d x, baseAddr ≤ x →
      x < baseAddr + 0x1000 * pages.toNat → s.a.heap.contains x d = false
  | .others mem => ∀ x, (∃ d, s.a.heap.contains x d) →
      (∀ o ∈ s.objects, ¬(o.1 ≤ x ∧ x < o.1 + o.2)) → mem x = s.a.heap.mem x

/-- The calls for which the allocator was made: a request for which there is space is not cut down
to 16 bits, `SetupLinkage` writes into the pages of its slab only, away from the ends of the
address space, and no call takes the last buffer of the first page: the next list of `Buffer64` is
then the local variable of `InitialiseLists`, which is no more. -/
def Fits (s : AllocatorRun) : AllocatorCall → Prop
  | .allocateObject bytes => (s.a.HasSpace (bytes % 2 ^ 16) → bytes < 2 ^ 16) ∧
      (s.a.TakesFirst (bytes % 2 ^ 16) → s.a.Room)
  | .newBuffer bufferSize => s.a.getBuffer bufferSize.toNat = .ok 0 → s.a.Room
  | .newListDescriptor baseAddr bufferSize pages => s.a.Room ∧
      (ListDescriptor.new 0 baseAddr bufferSize pages).InSpace ∧
        (ListDescriptor.new 0 baseAddr bufferSize pages).LinksInside
  | _ => True

/-- `m` bytes at `p` and `n` bytes at `q` do not overlap. -/
def Apart (p m q n : ℕ) : Prop := p + m ≤ q ∨ q + n ≤ p

/-- **What clients rely on**: every object lies in one slab, and overlaps nothing else. -/
structure Sound (s : AllocatorRun) : Prop where
  /-- An object lies in one slab. -/
  inside : ∀ o ∈ s.objects, ∃ d ld, s.a.heap.descs d = some ld ∧ ld.baseAddress ≤ o.1 ∧
    o.1 + o.2 ≤ ld.baseAddress + 0x1000 * ld.pages
  /-- Objects do not overlap. -/
  objects : s.objects.Pairwise fun o o' ↦ Apart o.1 o.2 o'.1 o'.2
  /-- They overlap no descriptor, -/
  descs : ∀ o ∈ s.objects, ∀ d, (s.a.heap.descs d).isSome →
    Apart o.1 o.2 d Allocator.sizeofListDescriptor
  /-- and no buffer in the heap. -/
  buffers : ∀ o ∈ s.objects, ∀ x, x ≠ s.a.buffer64 → (s.a.buffers x).isSome →
    Apart o.1 o.2 x Allocator.sizeofBuffer

end AllocatorRun

/-- The allocator after `Init`, and what may happen to it. -/
def allocatorMachine : Machine AllocatorRun AllocatorCall ℕ where
  init s := s.objects = [] ∧ ∃ mem buffer64 stack base uninitialised,
    Allocator.PageApart buffer64 stack base ∧
      (Allocator.new mem buffer64).initAt stack base uninitialised = .ok s.a
  enabled := AllocatorRun.Enabled
  step := AllocatorRun.step

namespace AllocatorRun

open Allocator

/-- An object that a client holds: a live buffer of the size that was asked for. -/
structure Held (a : Allocator) (g : Layout) (o : ℕ × ℕ) : Prop where
  /-- It is live. -/
  live : o.1 ∈ g.live
  /-- It is not an object of the allocator. -/
  notOwn : ¬a.IsOwn o.1
  /-- It lies in a slab of its size. -/
  slab : ∃ d ld, a.heap.descs d = some ld ∧ a.heap.contains o.1 d ∧ ld.bufferSize = o.2

/-- **The invariant of a run.** -/
structure Inv (s : AllocatorRun) (g : Layout) : Prop where
  /-- The allocator is in order. -/
  inv : s.a.Inv g
  /-- The objects are live buffers of their sizes. -/
  held : ∀ o ∈ s.objects, Held s.a g o
  /-- They are distinct. -/
  nodup : (s.objects.map Prod.fst).Nodup

variable {s s' : AllocatorRun} {g g' : Layout} {a' : Allocator} {o : ℕ × ℕ} {k : AllocatorCall}
  {p r : ℕ}

/-- An object stays what it is. -/
theorem Held.mono (h : Held s.a g o) (hext : Extends s.a g a' g') : Held a' g' o := by
  obtain ⟨d, ld, he, hc, hsize⟩ := h.slab
  obtain ⟨ld', he', -, -, hsize'⟩ := hext.region d ld he
  exact ⟨hext.live _ h.live, fun h0 ↦ h.notOwn (hext.own _ h.live h0),
    d, ld', he', hext.contains hc, hsize'.trans hsize⟩

namespace Inv

theorem extend (hi : s.Inv g) (hi' : a'.Inv g') (hext : Extends s.a g a' g') :
    Inv { s with a := a' } g' :=
  ⟨hi', fun o ho ↦ (hi.held o ho).mono hext, hi.nodup⟩

/-! ### What the invariant says -/

/-- The object as a buffer of its slab. -/
theorem slot (hi : s.Inv g) (ho : o ∈ s.objects) : ∃ d ∈ g.slabs, ∃ ld, s.a.heap.descs d = some ld ∧
    s.a.heap.contains o.1 d ∧ ld.bufferSize = o.2 ∧ ld.Sized ∧ o.1 ∈ ld.slots := by
  obtain ⟨d, ld, he, hc, hsize⟩ := (hi.held o ho).slab
  have hd : d ∈ g.slabs := by rw [hi.inv.descs, he]; rfl
  exact ⟨d, hd, ld, he, hc, hsize,
    hi.inv.slabs.mem_slots_of_live hd he (hi.held o ho).live hc⟩

/-- An object overlaps no other live buffer. -/
theorem apart (hi : s.Inv g) (ho : o ∈ s.objects) {d x : ℕ} {ld : ListDescriptor}
    (hd : d ∈ g.slabs) (he : s.a.heap.descs d = some ld) (hx : x ∈ g.live)
    (hc : s.a.heap.contains x d) (hne : o.1 ≠ x) : Apart o.1 o.2 x ld.bufferSize := by
  obtain ⟨d₀, hd₀, ld₀, he₀, hc₀, hsize, -⟩ := hi.slot ho
  have hdis := hi.inv.slabs.live_disjoint hd₀ he₀ (hi.held o ho).live hc₀ hd he hx hc hne
  rwa [hsize] at hdis

/-- An object overlaps no object of the allocator: these have 64 bytes in the first page. -/
theorem apart_own (hi : s.Inv g) (ho : o ∈ s.objects) {x : ℕ} (hx : s.a.IsOwn x) :
    Apart o.1 o.2 x 64 := by
  obtain ⟨n, u, -, he⟩ := hi.inv.first
  obtain ⟨hl, hc⟩ := hi.inv.placed x hx
  exact hi.apart ho hi.inv.base_mem he hl hc fun h0 ↦ (hi.held o ho).notOwn (h0 ▸ hx)

/-- **The invariant is what clients rely on.** -/
theorem sound (hi : s.Inv g) : s.Sound := by
  refine ⟨fun o ho ↦ ?_, ?_, fun o ho d hd ↦ ?_, fun o ho x hx hb ↦ ?_⟩
  · obtain ⟨d, -, ld, he, -, hsize, hsized, hslot⟩ := hi.slot ho
    have h1 := hsized.bounds hslot
    have h2 := hsized.fits
    rw [hsize] at h1 h2
    exact ⟨d, ld, he, h1.1, h1.2.trans (Nat.add_le_add_left h2 _)⟩
  · refine (List.pairwise_map.mp hi.nodup).imp_of_mem fun {o o'} ho ho' hne ↦ ?_
    obtain ⟨d, hd, ld, he, hc, hsize, -⟩ := hi.slot ho'
    exact hsize ▸ hi.apart ho hd he (hi.held o' ho').live hc hne
  · have hap := hi.apart_own ho (.inl hd)
    unfold Apart at hap ⊢
    rw [sizeofListDescriptor]
    omega
  · have hap := hi.apart_own ho (.inr ⟨hx, hb⟩)
    unfold Apart at hap ⊢
    rw [sizeofBuffer]
    omega

/-! ### Steps -/

/-- An object that was handed out is held. -/
theorem hold (hi : s.Inv g) (hi' : a'.Inv g') {bytes : ℕ} (hhand : Handed s.a g a' g' p bytes) :
    Inv ⟨a', (p, bytes) :: s.objects⟩ g' := by
  refine ⟨hi', fun o ho ↦ ?_, List.nodup_cons.mpr ⟨fun hp ↦ ?_, hi.nodup⟩⟩
  · rcases List.mem_cons.mp ho with rfl | ho
    · exact ⟨hhand.new.2.2, hhand.notOwn, hhand.slab⟩
    · exact (hi.held o ho).mono hhand.toExtends
  · -- what is held is live, and the new object was not
    obtain ⟨o, ho, rfl⟩ := List.mem_map.mp hp
    exact hhand.new.2.1 (hi.held o ho).live

theorem step_allocateObject (hi : s.Inv g) {bytes : ℕ} (hf : s.Fits (.allocateObject bytes)) :
    ∃ r s' g', s.step (.allocateObject bytes) = .ok (r, s') ∧ s'.Inv g' := by
  rcases hi.inv.allocateObject_cases bytes with
    ⟨hspace, x, a', g', hall, hi', hhand⟩ | ⟨-, ⟨a', g', hall, hi', hext⟩ | ⟨hfirst, hlast, -⟩⟩
  · rw [Nat.mod_eq_of_lt (hf.1 hspace)] at hhand
    refine ⟨x, ⟨a', (x, bytes) :: s.objects⟩, g', ?_, hi.hold hi' hhand⟩
    simp only [AllocatorRun.step, hall, Exec.ok_bind, if_neg hhand.new.1, Exec.pure_eq]
  · refine ⟨0, { s with a := a' }, g', ?_, hi.extend hi' hext⟩
    simp only [AllocatorRun.step, hall, Exec.ok_bind, if_true, Exec.pure_eq]
  · exact absurd (hf.2 hfirst) hlast

theorem step_deallocateObject (hi : s.Inv g) (pobj : ℕ) :
    ∃ r s' g', s.step (.deallocateObject pobj) = .ok (r, s') ∧ s'.Inv g' := by
  refine ⟨0, ⟨s.a, s.objects.filter fun o ↦ o.1 ≠ pobj⟩, g, ?_, hi.inv,
    fun o ho ↦ hi.held o (List.mem_of_mem_filter ho),
    hi.nodup.sublist (List.filter_sublist.map _)⟩
  simp only [AllocatorRun.step, deallocateObject_eq, Exec.ok_bind, Exec.pure_eq]

theorem step_newBuffer (hi : s.Inv g) {size : UInt16} (hf : s.Fits (.newBuffer size)) :
    ∃ r s' g', s.step (.newBuffer size) = .ok (r, s') ∧ s'.Inv g' := by
  rcases hi.inv.getBuffer_cases size.toNat with ⟨p, hp, b, hb, -, hget⟩ | ⟨hget, hnone⟩
  · refine ⟨0, s, g, ?_, hi⟩
    simp only [AllocatorRun.step, hi.inv.newBuffer_exists hp hget, Exec.ok_bind, Exec.pure_eq]
  · obtain ⟨x, a', hnew, -, hi', hext, -⟩ := hi.inv.newBuffer_spec (hf hget) hget hnone
    refine ⟨x, { s with a := a' }, _, ?_, hi.extend hi' hext⟩
    simp only [AllocatorRun.step, hnew, Exec.ok_bind, Exec.pure_eq]

theorem step_newListDescriptor (hi : s.Inv g) {base : ℕ} {size : UInt16} {pages : UInt8}
    (hk : s.Enabled (.newListDescriptor base size pages))
    (hf : s.Fits (.newListDescriptor base size pages)) :
    ∃ r s' g', s.step (.newListDescriptor base size pages) = .ok (r, s') ∧ s'.Inv g' := by
  obtain ⟨hroom, hc, hlinks⟩ := hf
  obtain ⟨x, a', g', hnew, hi', hext⟩ :=
    hi.inv.newListDescriptor_spec hroom hc hlinks fun d _ y h1 h2 ↦ hk d y h1 h2
  refine ⟨x, { s with a := a' }, g', ?_, hi.extend hi' hext⟩
  simp only [AllocatorRun.step, hnew, Exec.ok_bind, Exec.pure_eq]

theorem step_others (hi : s.Inv g) {mem : Memory} (hk : s.Enabled (.others mem))
    (hs : s.step (.others mem) = .ok (r, s')) : s'.Inv g := by
  cases hs
  refine ⟨hi.inv.write fun y hy ↦ ?_, fun o ho ↦ ?_, hi.nodup⟩
  · -- a byte that may not be written lies in a slab, and in no object
    obtain ⟨hin, hout⟩ := not_or.mp hy
    refine hk y ?_ fun o ho hyo ↦ ?_
    · by_contra hno
      exact hin fun d _ ↦ Bool.eq_false_iff.mpr fun hc ↦ hno ⟨d, hc⟩
    · obtain ⟨d, hd, ld, he, hc, hsize, -⟩ := hi.slot ho
      exact hout ⟨d, hd, ld, he, o.1, mem_liveIn.mpr ⟨(hi.held o ho).live, hc⟩, hsize ▸ hyo⟩
  · have hh := hi.held o ho
    exact ⟨hh.live, hh.notOwn, hh.slab⟩

/-- **Every call that fits returns, and keeps the invariant.** -/
theorem step (hi : s.Inv g) (hk : s.Enabled k) (hf : s.Fits k) :
    ∃ r s' g', s.step k = .ok (r, s') ∧ s'.Inv g' := by
  cases k with
  | allocateObject bytes => exact hi.step_allocateObject hf
  | deallocateObject pobj => exact hi.step_deallocateObject pobj
  | newBuffer size => exact hi.step_newBuffer hf
  | newListDescriptor base size pages => exact hi.step_newListDescriptor hk hf
  | others mem => exact ⟨0, _, g, rfl, hi.step_others hk rfl⟩

/-- What is known of the outcome of a call, when it is known that there is one. -/
theorem of_step (h : ∃ r s' g', s.step k = .ok (r, s') ∧ s'.Inv g')
    (hs : s.step k = .ok (r, s')) : ∃ g', s'.Inv g' := by
  obtain ⟨r₁, s₁, g', he, hi'⟩ := h
  obtain ⟨-, rfl⟩ : r₁ = r ∧ s₁ = s' := by simpa using he.symm.trans hs
  exact ⟨g', hi'⟩

/-- **The invariant holds in every run, and no call of it faults.** -/
theorem keeps : (allocatorMachine.restrict Fits).Keeps fun s ↦ ∃ g, s.Inv g where
  init s h0 := by
    obtain ⟨hobj, mem, buffer64, stack, base, b, hpage, hinit⟩ := h0
    obtain ⟨a', x, hinit', hi, -⟩ := Inv.initAt_spec hpage mem b
    obtain rfl : a' = s.a := Except.ok.inj (hinit'.symm.trans hinit)
    exact ⟨_, hi, by simp [hobj], by simp [hobj]⟩
  step := by
    rintro s k ⟨g, hi⟩ ⟨hk, hf⟩
    obtain ⟨r, s', g', hs, hi'⟩ := hi.step hk hf
    exact ⟨r, s', hs, g', hi'⟩

theorem of_reach (hs : (allocatorMachine.restrict Fits).Reach s) : ∃ g, s.Inv g := keeps.reach hs

/-- An object is handed out exactly when there is space. -/
theorem served_iff (hi : s.Inv g) {bytes : ℕ} (hb : bytes < 2 ^ 16) :
    (∃ p s', s.step (.allocateObject bytes) = .ok (p, s') ∧ p ≠ 0) ↔ s.a.HasSpace bytes := by
  have hcases := hi.inv.allocateObject_cases bytes
  rw [Nat.mod_eq_of_lt hb] at hcases
  rcases hcases with ⟨hspace, x, a', g', hall, -, hhand⟩ | ⟨hspace, hno⟩
  · exact iff_of_true ⟨x, ⟨a', (x, bytes) :: s.objects⟩, by
      simp only [AllocatorRun.step, hall, Exec.ok_bind, if_neg hhand.new.1, Exec.pure_eq],
      hhand.new.1⟩ hspace
  · refine iff_of_false ?_ hspace
    rintro ⟨p, s', hs, hp⟩
    rcases hno with ⟨a', g', hall, -⟩ | ⟨-, -, e, hall⟩
    · simp only [AllocatorRun.step, hall, Exec.ok_bind] at hs
      cases hs
      exact hp rfl
    · simp only [AllocatorRun.step, hall, Exec.error_bind] at hs
      cases hs

end Inv

/-! ### Requests of 64 bytes -/

/-- **A request of 64 bytes, or of one cut down to 64**, is served from the first page. -/
theorem allocateObject_buffer64 (hi : s.a.Inv g) (hroom : s.a.Room) (bytes : ℕ)
    (hb : bytes % 2 ^ 16 = 64) :
    ∃ p a', s.step (.allocateObject bytes) = .ok (p, ⟨a', (p, bytes) :: s.objects⟩) ∧
      a'.Inv { g with live := p :: g.live } ∧ a'.heap.contains p g.base := by
  obtain ⟨p, a', hall, hi', hhand, -, -, hin⟩ := hi.allocateFrom_buffer64 hroom
  refine ⟨p, a', ?_, hi', hin⟩
  have hsize : (UInt16.ofNat bytes).toNat = 64 := UInt16.toNat_ofNat'.trans hb
  have hget : s.a.getBuffer 64 = .ok s.a.buffer64 := by
    obtain ⟨c, hc, h64, -⟩ := hi.buffer64
    rcases hi.getBuffer_cases 64 with ⟨q, hq, b, hbq, hbs, hget⟩ | ⟨-, hnone⟩
    · rw [hget, hi.sizes q hq _ List.mem_cons_self b c hbq hc (hbs.trans h64.symm)]
    · exact absurd h64 (hnone _ List.mem_cons_self c hc)
  have hobj : s.a.allocateObject bytes = .ok (p, a') := by
    simp only [allocateObject, hsize, hget, Exec.ok_bind, if_pos hi.outside.1, hall]
  simp only [AllocatorRun.step, hobj, Exec.ok_bind, if_neg hhand.new.1, Exec.pure_eq]

/-- A start: the page at `0x1000`, and `m_buffer64` at `8`. -/
theorem exists_init : ∃ s g, allocatorMachine.init s ∧ s.Inv g ∧ s.a.Room ∧ g.base = 0x1000 ∧
    g.ring = [] ∧ g.slabs = [0x1000] := by
  have hpage : PageApart 8 0x9000 0x1000 :=
    ⟨by decide, by decide, ⟨by decide, by decide⟩, ⟨by decide, by decide⟩⟩
  obtain ⟨a, x, hinit, hi, -⟩ := Inv.initAt_spec hpage (fun _ ↦ 0) (Buffer.new 0 0)
  exact ⟨⟨a, []⟩, _, ⟨rfl, _, _, _, _, _, hpage, hinit⟩, ⟨hi, by simp, by simp⟩,
    hi.room_of_length (show 2 + 1 < 64 by decide), rfl, rfl, rfl⟩

end AllocatorRun

/-! ## Objects of clients -/

open Allocator AllocatorRun

/-- **No object overlaps anything, in any run whose calls fit.** -/
theorem objects_sound {s : AllocatorRun}
    (hs : (allocatorMachine.restrict AllocatorRun.Fits).Reach s) : s.Sound := by
  obtain ⟨g, hi⟩ := AllocatorRun.Inv.of_reach hs
  exact hi.sound

/-- After `Init` and a request of 64 bytes. -/
theorem objects_sound_first : ∃ s : AllocatorRun, s.objects ≠ [] ∧ s.Sound := by
  obtain ⟨s, g, h0, hi, hroom, -⟩ := exists_init
  obtain ⟨p, a', hstep, -⟩ := allocateObject_buffer64 hi.inv hroom 64 rfl
  have hk : allocatorMachine.enabled s (.allocateObject 64) := show 64 < 2 ^ 64 by decide
  have hf : s.Fits (.allocateObject 64) := ⟨fun _ ↦ by decide, fun _ ↦ hroom⟩
  exact ⟨_, List.cons_ne_nil _ _, objects_sound (.step (.init h0) ⟨hk, hf⟩ hstep)⟩

/-- A request of 65600 bytes gets 64. -/
theorem objects_not_sound : ¬∀ s, allocatorMachine.Reach s → s.Sound := by
  intro h
  obtain ⟨s, g, h0, hi, hroom, hbase, -, hslabs⟩ := exists_init
  obtain ⟨p, a', hstep, hi', -⟩ := allocateObject_buffer64 hi.inv hroom 65600 rfl
  have hk : allocatorMachine.enabled s (.allocateObject 65600) := show 65600 < 2 ^ 64 by decide
  -- there is one slab, of one page
  obtain ⟨d, ld, he, h1, h2⟩ := (h _ (.step (.init h0) hk hstep)).inside _ List.mem_cons_self
  obtain ⟨n, u, -, hfirst⟩ := hi'.first
  obtain rfl : d = g.base := by
    have hd : d ∈ g.slabs := (hi'.descs d).mpr (by rw [he]; rfl)
    rw [hslabs, List.mem_singleton] at hd
    rw [hd, hbase]
  obtain rfl := Option.some.inj (he.symm.trans hfirst)
  have h3 : g.base ≤ p := h1
  have h4 : p + 65600 ≤ g.base + 0x1000 * 1 := h2
  omega

/-- **`AllocateObject` answers an object exactly when a buffer of the size has space.** -/
theorem allocateObject_served_iff {s : AllocatorRun}
    (hs : (allocatorMachine.restrict AllocatorRun.Fits).Reach s) {bytes : ℕ}
    (hb : 1 ≤ bytes ∧ bytes ≤ 0x1000) :
    (∃ p s', s.step (.allocateObject bytes) = .ok (p, s') ∧ p ≠ 0) ↔ s.a.HasSpace bytes := by
  obtain ⟨g, hi⟩ := AllocatorRun.Inv.of_reach hs
  exact hi.served_iff (Nat.lt_of_le_of_lt hb.2 (by decide))

/-- After `Init` there is space for 64 bytes. -/
theorem allocateObject_served_first : ∃ s : AllocatorRun, allocatorMachine.init s ∧
    ∃ p s', s.step (.allocateObject 64) = .ok (p, s') ∧ p ≠ 0 := by
  obtain ⟨s, g, h0, hi, hroom, -⟩ := exists_init
  obtain ⟨b, hb, hsize, -⟩ := hi.inv.buffer64
  exact ⟨s, h0, (allocateObject_served_iff (.init h0) (by decide)).mpr
    ((hi.inv.hasSpace_iff List.mem_cons_self hb hsize).mpr (by rwa [if_pos rfl]))⟩

/-- After `Init` there are objects of 64 bytes, and no others. -/
theorem init_served_iff {s : AllocatorRun} (h0 : allocatorMachine.init s) {bytes : ℕ}
    (hb : bytes < 2 ^ 16) :
    (∃ p s', s.step (.allocateObject bytes) = .ok (p, s') ∧ p ≠ 0) ↔ bytes = 64 := by
  obtain ⟨hobj, mem, buffer64, stack, base, b, hpage, hinit⟩ := h0
  obtain ⟨a', x, hinit', hi, -⟩ := Allocator.Inv.initAt_spec hpage mem b
  obtain rfl : a' = s.a := Except.ok.inj (hinit'.symm.trans hinit)
  have hrun : s.Inv _ := ⟨hi, by simp [hobj], by simp [hobj]⟩
  rw [hrun.served_iff hb]
  obtain ⟨c, hc, h64, -⟩ := hi.buffer64
  constructor
  · -- the only buffer is `Buffer64`
    rintro ⟨q, c', hq, hc', hsize, -⟩
    obtain rfl : q = s.a.buffer64 := List.mem_singleton.mp (hi.ring.mem_iff_iterate.mpr hq)
    obtain rfl : c' = c := Option.some.inj (hc'.symm.trans hc)
    exact hsize.symm.trans h64
  · rintro rfl
    rw [hi.hasSpace_iff List.mem_cons_self hc h64, if_pos rfl]
    exact hi.room_of_length (show 2 + 1 < 64 by decide)

/-- After `Init` there is no object of `0x400` bytes. -/
theorem allocateObject_not_served : ¬∀ s, allocatorMachine.Reach s → ∀ bytes, 1 ≤ bytes →
    bytes ≤ 0x1000 → ∃ p s', s.step (.allocateObject bytes) = .ok (p, s') ∧ p ≠ 0 := by
  intro h
  obtain ⟨s, -, h0, -⟩ := exists_init
  exact absurd ((init_served_iff h0 (by decide)).mp (h s (.init h0) 0x400 (by decide) (by decide)))
    (by decide)

/-! ## Objects that are given back -/

/-- What giving an object back does at least: the descriptor whose range contains it uses one buffer
less. -/
def Returned (a a' : Allocator) (p : ℕ) : Prop :=
  ∃ d ld ld', a.heap.descs d = some ld ∧ ld.objectInRange p ∧ a'.heap.descs d = some ld' ∧
    ld'.buffersUsed + 1 = ld.buffersUsed

/-- **`DeallocateObject` gives nothing back.** -/
theorem deallocateObject_not_returned (s : AllocatorRun) (p : ℕ) :
    ¬∃ r s', s.step (.deallocateObject p) = .ok (r, s') ∧ Returned s.a s'.a p := by
  rintro ⟨r, s', hs, d, ld, ld', he, -, he', hused⟩
  simp only [AllocatorRun.step, deallocateObject_eq, Exec.ok_bind] at hs
  cases hs
  obtain rfl := Option.some.inj (he.symm.trans he')
  omega

/-- In particular not the object that was asked for just before. -/
theorem deallocateObject_leaks : ¬∀ s, allocatorMachine.Reach s → ∀ o ∈ s.objects,
    ∃ r s', s.step (.deallocateObject o.1) = .ok (r, s') ∧ Returned s.a s'.a o.1 := by
  intro h
  obtain ⟨s, g, h0, hi, hroom, -⟩ := exists_init
  obtain ⟨p, a', hstep, -⟩ := allocateObject_buffer64 hi.inv hroom 64 rfl
  have hk : allocatorMachine.enabled s (.allocateObject 64) := show 64 < 2 ^ 64 by decide
  obtain ⟨r, s', hs, d, ld, ld', he, -, he', hused⟩ :=
    h _ (.step (.init h0) hk hstep) _ List.mem_cons_self
  simp only [AllocatorRun.step, deallocateObject_eq, Exec.ok_bind] at hs
  cases hs
  obtain rfl := Option.some.inj (he.symm.trans he')
  omega

end Chisaka.Slab
