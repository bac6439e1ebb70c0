import Mathlib.Data.List.Perm.Subperm
import Chisaka.Kheap.Slab.SlabPool
import Chisaka.Kheap.Slab.BufferRuns
import Chisaka.Kheap.Slab.MoveAssign

/-!
# The state of the slab allocator

`Allocator.Inv` is what holds of the allocator as long as the first page of the heap is not used up.
The buffers form a ring and have different sizes, the descriptors of each are sorted, and all slabs
share the memory.  The live addresses of the first slab are objects of clients and the buffers and
descriptors that the allocator made.

The first descriptor of the heap is different from all others.  It is the head of the partial ring
of `Buffer64`, and it is linked to the stack variable that `InitialiseLists` moved it from, so that
it is on no ring.  `Buffer64` is sorted without it, and allocating from it is
`allocateFrom_buffer64`; when its last buffer is handed out the link is followed
(`allocateFrom_buffer64_last`).
-/

set_option autoImplicit false

namespace Chisaka.Slab

open Bytes

/-! ## The ring of buffers -/

namespace Buffers

variable {bs : Buffers} {b : Buffer} {p q x y : ℕ} {R : List ℕ}

/-- `NextBuffer` of the buffer at `p`. -/
def next (bs : Buffers) (p : ℕ) : ℕ := ((bs p).map Buffer.nextBuffer).getD 0

/-- `PrevBuffer` of the buffer at `p`. -/
def prev (bs : Buffers) (p : ℕ) : ℕ := ((bs p).map Buffer.prevBuffer).getD 0

theorem next_eq (he : bs p = some b) : bs.next p = b.nextBuffer := by simp [next, he]

theorem prev_eq (he : bs p = some b) : bs.prev p = b.prevBuffer := by simp [prev, he]

theorem deref_eq (hp : p ≠ 0) (he : bs p = some b) : bs.deref p = .ok b := by
  simp [deref, hp, he]

theorem put_self (bs : Buffers) (p : ℕ) (b : Buffer) : bs.put p b p = some b := if_pos rfl

theorem put_of_ne (bs : Buffers) (b : Buffer) (hq : q ≠ p) : bs.put p b q = bs q := if_neg hq

/-- Putting back what was there. -/
theorem put_eq_self (he : bs p = some b) : bs.put p b = bs := by
  funext x
  by_cases hx : x = p
  · rw [hx, put_self, he]
  · rw [put_of_ne bs b hx]

/-- The links after the rings of a buffer have changed. -/
theorem next_put_of_sameClass {b' : Buffer} (he : bs p = some b) (hb : b.SameClass b') :
    (bs.put p b').next = bs.next := by
  funext x
  by_cases hx : x = p
  · rw [hx, next_eq (put_self bs p b'), next_eq he, hb.nextBuffer]
  · rw [next, next, put_of_ne bs b' hx]

theorem prev_put_of_sameClass {b' : Buffer} (he : bs p = some b) (hb : b.SameClass b') :
    (bs.put p b').prev = bs.prev := by
  funext x
  by_cases hx : x = p
  · rw [hx, prev_eq (put_self bs p b'), prev_eq he, hb.prevBuffer]
  · rw [prev, prev, put_of_ne bs b' hx]

/-- A buffer was of its size before. -/
theorem exists_of_put {b' c : Buffer} (he : bs p = some b) (hb : b.SameClass b')
    (hc : bs.put p b' q = some c) : ∃ c₀, bs q = some c₀ ∧ c₀.bufferSize = c.bufferSize := by
  by_cases hq : q = p
  · subst hq
    obtain rfl := Option.some.inj ((put_self bs q b').symm.trans hc)
    exact ⟨b, he, hb.bufferSize.symm⟩
  · exact ⟨c, (put_of_ne bs b' hq).symm.trans hc, rfl⟩

/-- The buffers with both links of one of them replaced. -/
def setLinks (bs : Buffers) (p n r : ℕ) : Buffers := fun x ↦
  if x = p then (bs p).map fun b ↦ { b with nextBuffer := n, prevBuffer := r } else bs x

theorem next_setLinks (he : bs p = some b) (n r : ℕ) :
    (bs.setLinks p n r).next = Function.update bs.next p n := by
  funext x
  by_cases hx : x = p
  · simp [next, setLinks, hx, he]
  · simp [next, setLinks, hx]

theorem prev_setLinks (he : bs p = some b) (n r : ℕ) :
    (bs.setLinks p n r).prev = Function.update bs.prev p r := by
  funext x
  by_cases hx : x = p
  · simp [prev, setLinks, hx, he]
  · simp [prev, setLinks, hx]

/-- Nothing but links of buffers differs. -/
def SameBuffers (bs bs' : Buffers) : Prop :=
  ∀ p, bs' p = (bs p).map fun b ↦ { b with nextBuffer := bs'.next p, prevBuffer := bs'.prev p }

theorem sameBuffers_setLinks (bs : Buffers) (p n r : ℕ) : SameBuffers bs (bs.setLinks p n r) := by
  intro x
  cases hx : bs x with
  | none => by_cases hxp : x = p <;> simp_all [setLinks]
  | some b =>
    by_cases hxp : x = p
    · subst hxp
      simp [setLinks, hx, next, prev]
    · simp [setLinks, hxp, hx, next, prev]

theorem SameBuffers.trans {bs' bs'' : Buffers} (h₁ : SameBuffers bs bs')
    (h₂ : SameBuffers bs' bs'') : SameBuffers bs bs'' := by
  intro x
  rw [h₂ x, h₁ x, Option.map_map]
  rfl

theorem SameBuffers.some {bs' : Buffers} (h : SameBuffers bs bs') (he : bs p = Option.some b) :
    bs' p = Option.some { b with nextBuffer := bs'.next p, prevBuffer := bs'.prev p } := by
  rw [h p, he]
  rfl

theorem SameBuffers.isSome {bs' : Buffers} (h : SameBuffers bs bs') (p : ℕ) :
    (bs' p).isSome = (bs p).isSome := by
  rw [h p, Option.isSome_map]

theorem SameBuffers.of_some {bs' : Buffers} (h : SameBuffers bs bs') (he : bs' p = Option.some b) :
    ∃ b₀, bs p = Option.some b₀ ∧ b₀.bufferSize = b.bufferSize := by
  have hmap := h p
  rw [he] at hmap
  obtain ⟨b₀, hb₀, hb⟩ := Option.map_eq_some_iff.mp hmap.symm
  exact ⟨b₀, hb₀, by rw [← hb]⟩

/-- Assigning to links of a buffer. -/
theorem modify_eq (hp : p ≠ 0) (he : bs p = some b) {f : Buffer → Buffer} {n r : ℕ}
    (hf : f b = { b with nextBuffer := n, prevBuffer := r }) :
    bs.modify p f = .ok (bs.setLinks p n r) := by
  have hput : bs.put p (f b) = bs.setLinks p n r := by
    funext x
    simp only [put, setLinks, he, hf, Option.map_some]
  simp [modify, deref_eq hp he, hput]

/-- A pointer that can be followed. -/
def Live (bs : Buffers) (p : ℕ) : Prop := p ≠ 0 ∧ ∃ b, bs p = some b

theorem SameBuffers.live {bs' : Buffers} (h : SameBuffers bs bs') (hp : bs.Live p) : bs'.Live p :=
  let ⟨hp0, _, hb⟩ := hp
  ⟨hp0, _, h.some hb⟩

/-- What `AddBuffer` does to the links, in a ring or not: `y` is linked between `x` and the
predecessor of `x`. -/
theorem addBuffer_links (hx : bs.Live x) (hp : bs.Live (bs.prev x)) (hy : bs.Live y) (hxy : x ≠ y) :
    ∃ bs', bs.addBuffer x y = .ok bs' ∧ SameBuffers bs bs' ∧
      bs'.next = Function.update (Function.update bs.next y x) (bs.prev x) y ∧
      bs'.prev = Function.update (Function.update bs.prev y (bs.prev x)) x y := by
  obtain ⟨hx0, t, ht⟩ := hx
  obtain ⟨hy0, b, hy⟩ := hy
  have hdt : bs.deref x = .ok t := deref_eq hx0 ht
  have hprev : t.prevBuffer = bs.prev x := (prev_eq ht).symm
  have hnext : t.nextBuffer = bs.next x := (next_eq ht).symm
  by_cases hone : x = t.prevBuffer ∧ x = t.nextBuffer
  · -- a ring of one
    have hs₁ := sameBuffers_setLinks bs x y y
    have hy₁ := hs₁.some hy
    have hm₁ : bs.modify x (fun t ↦ { t with nextBuffer := y, prevBuffer := y })
        = .ok (bs.setLinks x y y) := modify_eq hx0 ht rfl
    have hm₂ : (bs.setLinks x y y).modify y (fun s ↦ { s with prevBuffer := x, nextBuffer := x })
        = .ok ((bs.setLinks x y y).setLinks y x x) := modify_eq hy0 hy₁ rfl
    have hpx : bs.prev x = x := hprev ▸ hone.1.symm
    have hs₂ := hs₁.trans (sameBuffers_setLinks (bs.setLinks x y y) y x x)
    refine ⟨(bs.setLinks x y y).setLinks y x x, ?_, hs₂, ?_, ?_⟩
    · simp only [addBuffer, if_neg hxy, hdt, Exec.ok_bind, if_pos hone, hm₁, hm₂]
    · rw [next_setLinks hy₁, next_setLinks ht, hpx, Function.update_comm hxy]
    · rw [prev_setLinks hy₁, prev_setLinks ht, hpx, Function.update_comm hxy]
  · -- the buffer goes between the last one and `x`
    set z := bs.prev x with hz
    obtain ⟨hz0, c, hc⟩ := hp
    have hs₁ := sameBuffers_setLinks bs y x z
    have hz₁ := hs₁.some hc
    have hm₁ : bs.modify y (fun s ↦ { s with nextBuffer := x, prevBuffer := z })
        = .ok (bs.setLinks y x z) := modify_eq hy0 hy rfl
    have hm₂ : (bs.setLinks y x z).modify z (fun p ↦ { p with nextBuffer := y })
        = .ok ((bs.setLinks y x z).setLinks z y ((bs.setLinks y x z).prev z)) :=
      modify_eq hz0 hz₁ rfl
    set bs₂ := (bs.setLinks y x z).setLinks z y ((bs.setLinks y x z).prev z) with hbs₂
    have hs₂ : SameBuffers bs bs₂ := hs₁.trans (sameBuffers_setLinks _ _ _ _)
    have hx₂ := hs₂.some ht
    have hm₃ : bs₂.modify x (fun t ↦ { t with prevBuffer := y })
        = .ok (bs₂.setLinks x (bs₂.next x) y) := modify_eq hx0 hx₂ rfl
    have hone' : ¬(x = z ∧ x = t.nextBuffer) := hprev ▸ hone
    refine ⟨bs₂.setLinks x (bs₂.next x) y, ?_, hs₂.trans (sameBuffers_setLinks _ _ _ _), ?_, ?_⟩
    · simp only [addBuffer, if_neg hxy, hdt, Exec.ok_bind, hprev, if_neg hone', hm₁, hm₂, hm₃]
    · rw [next_setLinks hx₂, Function.update_eq_self, hbs₂, next_setLinks hz₁, next_setLinks hy]
    · rw [prev_setLinks hx₂, hbs₂, prev_setLinks hz₁, Function.update_eq_self, prev_setLinks hy]

/-- **`AddBuffer` pushes a buffer on the ring.** -/
theorem addBuffer_spec (hr : LinkRing bs.next bs.prev (x :: R)) (hlive : ∀ p ∈ x :: R, bs.Live p)
    (hy : bs.Live y) (hyR : y ∉ x :: R) :
    ∃ bs', bs.addBuffer x y = .ok bs' ∧ SameBuffers bs bs' ∧
      LinkRing bs'.next bs'.prev (x :: R ++ [y]) := by
  have hxy : x ≠ y := fun he ↦ hyR (he ▸ List.mem_cons_self)
  obtain ⟨bs', hadd, hs, hn, hp⟩ :=
    addBuffer_links (hlive x List.mem_cons_self) (hlive _ hr.prev_mem) hy hxy
  refine ⟨bs', hadd, hs, ?_⟩
  rw [hn, hp]
  exact hr.push_update hyR

end Buffers

/-! ## Which descriptors are alive -/

namespace Heap

variable {h h' : Heap} {d x : ℕ} {ld ld' : ListDescriptor} {m : Memory}

theorem SameSlabs.isSome (hs : SameSlabs h h') (x : ℕ) :
    (h'.descs x).isSome = (h.descs x).isSome := by
  have hslab := congrArg Option.isSome (congrFun hs.slab x)
  simpa only [Heap.slab, Option.isSome_map] using hslab

theorem isSome_setSlab (he : h.descs d = some ld) (x : ℕ) :
    ((h.setSlab d m ld').descs x).isSome = (h.descs x).isSome := by
  by_cases hx : x = d
  · rw [hx, descs_setSlab_self, he]
    rfl
  · rw [descs_setSlab_of_ne h m ld' hx]

end Heap

/-! ## The invariant -/

namespace Allocator

/-- What an allocator has made. -/
structure Layout where
  /-- The first page of the heap. -/
  base : ℕ
  /-- Where the local variable of `InitialiseLists` was. -/
  stack : ℕ
  /-- The buffers behind `Buffer64` on its ring. -/
  ring : List ℕ
  /-- The descriptors on the rings of a buffer, those of `Buffer64` without the first one. -/
  lists : ℕ → ListKind → List ℕ
  /-- All descriptors. -/
  slabs : List ℕ
  /-- The addresses that were handed out, to clients or to the allocator itself. -/
  live : List ℕ

/-- A buffer, or `Buffer64` without the partial ring that the first descriptor is the head of. -/
def own (a : Allocator) (p : ℕ) (b : Buffer) : Buffer :=
  if p = a.buffer64 then b.setHead .partialLists 0 else b

/-- An object of the allocator in the heap: a descriptor, or a buffer other than `Buffer64`. -/
def IsOwn (a : Allocator) (x : ℕ) : Prop :=
  (a.heap.descs x).isSome ∨ x ≠ a.buffer64 ∧ (a.buffers x).isSome

/-- The buffer at `p` is of the size. -/
def hasSize (a : Allocator) (size p : ℕ) : Bool :=
  (a.buffers p).any fun b ↦ b.bufferSize = size

/-- The first descriptor of the heap. -/
def Layout.first (g : Layout) (nextFree used : ℕ) : ListDescriptor :=
  ⟨g.base, nextFree, g.stack, g.base, 64, 64, used, 1⟩

/-- The first descriptor is there, and not all of its buffers are used. -/
def FirstDesc (g : Layout) (h : Heap) : Prop :=
  ∃ nextFree used, used < 64 ∧ h.descs g.base = some (g.first nextFree used)

/-- The first page has more than one buffer left. -/
def Room (a : Allocator) : Prop :=
  ∃ b ld, a.buffers a.buffer64 = some b ∧ a.heap.descs b.partialLists = some ld ∧
    ld.buffersUsed + 1 < ld.totalBuffers

/-- **The invariant of the allocator.** -/
structure Inv (a : Allocator) (g : Layout) : Prop where
  /-- The buffers form a ring, -/
  ring : LinkRing a.buffers.next a.buffers.prev (a.buffer64 :: g.ring)
  /-- and have their descriptors sorted. -/
  sorted : ∀ p ∈ a.buffer64 :: g.ring, ∃ b, a.buffers p = some b ∧
    Sorted (a.own p b) a.heap (g.lists p)
  /-- No two of them have the same size. -/
  sizes : ∀ p ∈ a.buffer64 :: g.ring, ∀ q ∈ a.buffer64 :: g.ring, ∀ b c, a.buffers p = some b →
    a.buffers q = some c → b.bufferSize = c.bufferSize → p = q
  /-- The first one is `Buffer64`, with the first descriptor. -/
  buffer64 : ∃ b, a.buffers a.buffer64 = some b ∧ b.bufferSize = 64 ∧ b.partialLists = g.base
  /-- That descriptor is not used up, -/
  first : FirstDesc g a.heap
  /-- and is on no ring. -/
  lone : ∀ p ∈ a.buffer64 :: g.ring, g.base ∉ members (g.lists p)
  /-- What it is linked to is gone. -/
  gone : a.heap.descs g.stack = none
  /-- `Buffer64` and what is gone were not in the first page. -/
  outside : a.buffer64 ≠ 0 ∧ a.heap.contains a.buffer64 g.base = false ∧
    a.heap.contains g.stack g.base = false
  /-- The slabs share the memory. -/
  slabs : Slabs a.heap g.slabs g.live
  /-- All descriptors are known. -/
  descs : ∀ d, d ∈ g.slabs ↔ (a.heap.descs d).isSome
  /-- The objects of the allocator live in the first page. -/
  placed : ∀ x, a.IsOwn x → x ∈ g.live ∧ a.heap.contains x g.base

/-- The sizes after the rings of a buffer have changed. -/
theorem hasSize_put {a : Allocator} {b b' : Buffer} {p q size : ℕ} {h' : Heap}
    (hb : a.buffers p = some b) (hcls : b.SameClass b') :
    hasSize { a with heap := h', buffers := a.buffers.put p b' } size q = a.hasSize size q := by
  show ((a.buffers.put p b') q).any _ = (a.buffers q).any _
  by_cases hq : q = p
  · rw [hq, Buffers.put_self, hb, Option.any_some, Option.any_some, hcls.bufferSize]
  · rw [Buffers.put_of_ne _ _ hq]

/-- Only slabs, and the rings of one buffer, have changed. -/
theorem IsOwn.of_put {a : Allocator} {b b' : Buffer} {p x : ℕ} {h' : Heap}
    (hb : a.buffers p = some b) (hsome : (h'.descs x).isSome = (a.heap.descs x).isSome)
    (hx : IsOwn { a with heap := h', buffers := a.buffers.put p b' } x) : a.IsOwn x := by
  refine hx.imp (fun h0 ↦ hsome ▸ h0) fun ⟨hne, h0⟩ ↦ ⟨hne, ?_⟩
  by_cases hxp : x = p
  · rw [hxp, hb]
    rfl
  · exact Buffers.put_of_ne a.buffers b' hxp ▸ h0

namespace Inv

variable {a a' : Allocator} {g g' : Layout} {b b' : Buffer} {p q x d size : ℕ}

theorem base_mem (hi : a.Inv g) : g.base ∈ g.slabs := by
  obtain ⟨n, u, -, he⟩ := hi.first
  rw [hi.descs, he]
  rfl

/-- The region of the first descriptor. -/
theorem contains_base {h : Heap} (hf : FirstDesc g h) (hlt : g.base + 0x1000 < 2 ^ 64) :
    h.contains x g.base ↔ g.base ≤ x ∧ x < g.base + 0x1000 := by
  obtain ⟨n, u, -, he⟩ := hf
  have hlimit : (g.first n u).limit = g.base + 0x1000 := add64_of_lt hlt
  rw [contains_eq he, ListDescriptor.objectInRange, hlimit, decide_eq_true_iff]
  rfl

/-- The first page is away from the ends of the address space. -/
theorem base_lt (hi : a.Inv g) : g.base ≠ 0 ∧ g.base + 0x1000 < 2 ^ 64 := by
  obtain ⟨n, u, -, he⟩ := hi.first
  obtain ⟨ld, e, he', hch⟩ := hi.slabs.chained g.base hi.base_mem
  obtain rfl := Option.some.inj (he'.symm.trans he)
  exact ⟨hch.sized.base_ne, hch.sized.lt⟩

/-- A buffer on the ring other than `Buffer64` lives in the first page. -/
theorem of_mem_ring (hi : a.Inv g) (hp : p ∈ g.ring) :
    p ≠ a.buffer64 ∧ p ∈ g.live ∧ g.base ≤ p ∧ p < g.base + 0x1000 := by
  have hne : p ≠ a.buffer64 := fun h0 ↦ (List.nodup_cons.mp hi.ring.nodup).1 (h0 ▸ hp)
  obtain ⟨b, hb, -⟩ := hi.sorted p (List.mem_cons_of_mem _ hp)
  obtain ⟨hl, hc⟩ := hi.placed p (.inr ⟨hne, by rw [hb]; rfl⟩)
  exact ⟨hne, hl, (contains_base hi.first hi.base_lt.2).mp hc⟩

/-- A buffer on the ring can be followed. -/
theorem ne_zero (hi : a.Inv g) (hp : p ∈ a.buffer64 :: g.ring) : p ≠ 0 := by
  rcases List.mem_cons.mp hp with rfl | hp
  · exact hi.outside.1
  · have h1 := (hi.of_mem_ring hp).2.2.1
    have h2 := hi.base_lt.1
    omega

/-- What is on a ring is a descriptor. -/
theorem mem_slabs (hi : a.Inv g) (hp : p ∈ a.buffer64 :: g.ring) (hd : d ∈ members (g.lists p)) :
    d ∈ g.slabs := by
  obtain ⟨b, hb, hs⟩ := hi.sorted p hp
  obtain ⟨k, hk⟩ := mem_members.mp hd
  obtain ⟨-, ld, he, -⟩ := hs.desc k d hk
  rw [hi.descs, he]
  rfl

/-- No descriptor is on the rings of two buffers. -/
theorem eq_of_mem_members (hi : a.Inv g) (hp : p ∈ a.buffer64 :: g.ring)
    (hq : q ∈ a.buffer64 :: g.ring) (hd : d ∈ members (g.lists p))
    (hd' : d ∈ members (g.lists q)) : p = q := by
  obtain ⟨b, hb, hs⟩ := hi.sorted p hp
  obtain ⟨c, hc, hs'⟩ := hi.sorted q hq
  obtain ⟨k, hk⟩ := mem_members.mp hd
  obtain ⟨k', hk'⟩ := mem_members.mp hd'
  obtain ⟨-, ld, he, hsize⟩ := hs.desc k d hk
  obtain ⟨-, ld', he', hsize'⟩ := hs'.desc k' d hk'
  obtain rfl : ld = ld' := Option.some.inj (he.symm.trans he')
  have hown : ∀ r (t : Buffer), (a.own r t).bufferSize = t.bufferSize := fun r t ↦ by
    rw [own]
    split
    · rfl
    · rfl
  rw [hown] at hsize hsize'
  exact hi.sizes p hp q hq b c hb hc (hsize.symm.trans hsize')

/-! ### `GetBuffer` -/

theorem length_ring_lt (hi : a.Inv g) : g.ring.length < Loop.rounds := by
  have hsub : g.ring ⊆ List.range' g.base 0x1000 := fun p hp ↦ by
    have h1 := (hi.of_mem_ring hp).2.2
    exact List.mem_range'_1.mpr h1
  have hle := (List.subperm_of_subset (List.nodup_cons.mp hi.ring.nodup).2 hsub).length_le
  rw [List.length_range'] at hle
  exact Nat.lt_of_le_of_lt hle (by decide)

/-- **`GetBuffer` finds the first buffer of the size on the ring.** -/
theorem getBuffer_eq (hi : a.Inv g) (size : ℕ) : a.getBuffer size =
    .ok (((a.buffer64 :: g.ring).find? (hasSize a size)).getD 0) := by
  have hbody : ∀ p ∈ a.buffer64 :: g.ring, ∃ b, a.buffers p = some b ∧
      a.buffers.deref p = .ok b ∧ a.buffers.next p = b.nextBuffer := fun p hp ↦ by
    obtain ⟨b, hb, -⟩ := hi.sorted p hp
    exact ⟨b, hb, Buffers.deref_eq (hi.ne_zero hp) hb, Buffers.next_eq hb⟩
  have hwalk : Loop.run (a.getBufferBody size) Loop.rounds a.buffer64 =
      ((a.buffer64 :: g.ring).find? (hasSize a size)).elim (.ok 0) fun p ↦ .ok p := by
    refine hi.ring.run_walk (fun p hp hsize ↦ ?_) (fun p hp hsize ↦ ?_) hi.length_ring_lt
    · obtain ⟨b, hb, hderef, -⟩ := hbody p hp
      have hb' : b.bufferSize = size := by simpa [hasSize, hb] using hsize
      simp [getBufferBody, hderef, hb']
    · obtain ⟨b, hb, hderef, hnext⟩ := hbody p hp
      have hb' : b.bufferSize ≠ size := by simpa [hasSize, hb] using hsize
      by_cases hend : b.nextBuffer = a.buffer64 <;>
        simp [getBufferBody, hderef, hb', hnext, hend]
  rw [getBuffer, Loop.exec, hwalk]
  cases (a.buffer64 :: g.ring).find? (hasSize a size) <;> rfl

/-- Either a buffer of the size is on the ring, or there is none. -/
theorem getBuffer_cases (hi : a.Inv g) (size : ℕ) :
    (∃ p ∈ a.buffer64 :: g.ring, ∃ b, a.buffers p = some b ∧ b.bufferSize = size ∧
      a.getBuffer size = .ok p) ∨
    (a.getBuffer size = .ok 0 ∧
      ∀ p ∈ a.buffer64 :: g.ring, ∀ b, a.buffers p = some b → b.bufferSize ≠ size) := by
  rw [hi.getBuffer_eq]
  cases hfind : (a.buffer64 :: g.ring).find? (hasSize a size) with
  | some p =>
    have hp := List.mem_of_find?_eq_some hfind
    obtain ⟨b, hb, -⟩ := hi.sorted p hp
    have hsize : b.bufferSize = size := by simpa [hasSize, hb] using List.find?_some hfind
    exact .inl ⟨p, hp, b, hb, hsize, rfl⟩
  | none =>
    refine .inr ⟨rfl, fun p hp b hb hsize ↦ List.find?_eq_none.mp hfind p hp ?_⟩
    simp [hasSize, hb, hsize]

/-! ### The rings of one buffer -/

theorem contains_base_eq {h h' : Heap} (hf : FirstDesc g h) (hf' : FirstDesc g h')
    (hlt : g.base + 0x1000 < 2 ^ 64) (x : ℕ) : h'.contains x g.base = h.contains x g.base := by
  rw [Bool.eq_iff_iff, contains_base hf' hlt, contains_base hf hlt]

/-- **The rings of one buffer have changed**, and at most the descriptors on them and the first
one. -/
theorem revise {h' : Heap} {L' : ListKind → List ℕ} {live' : List ℕ} (hi : a.Inv g)
    (hp : p ∈ a.buffer64 :: g.ring) (hb : a.buffers p = some b) (hcls : b.SameClass b')
    (hpart : p = a.buffer64 → b'.partialLists = b.partialLists)
    (hsorted : Sorted (a.own p b') h' L') (hlone : g.base ∉ members L')
    (hframe : ∀ q ∈ a.buffer64 :: g.ring, q ≠ p → ∀ d ∈ members (g.lists q),
      h'.descs d = a.heap.descs d)
    (hsome : ∀ d, (h'.descs d).isSome = (a.heap.descs d).isSome) (hfirst : FirstDesc g h')
    (hslabs : Slabs h' g.slabs live') (hlive : ∀ x ∈ g.live, x ∈ live') :
    Inv { a with heap := h', buffers := a.buffers.put p b' }
      { g with lists := Function.update g.lists p L', live := live' } := by
  have hcont := contains_base_eq hi.first hfirst hi.base_lt.2
  constructor
  · rw [Buffers.next_put_of_sameClass hb hcls, Buffers.prev_put_of_sameClass hb hcls]
    exact hi.ring
  · intro q hq
    by_cases hqp : q = p
    · subst hqp
      refine ⟨b', Buffers.put_self _ _ _, ?_⟩
      show Sorted (a.own q b') h' (Function.update g.lists q L' q)
      rwa [Function.update_self]
    · obtain ⟨c, hc, hs⟩ := hi.sorted q hq
      refine ⟨c, (Buffers.put_of_ne _ _ hqp).trans hc, ?_⟩
      show Sorted (a.own q c) h' (Function.update g.lists p L' q)
      rw [Function.update_of_ne hqp]
      exact hs.congr (hframe q hq hqp)
  · intro q hq r hr c e hc he hsize
    obtain ⟨c₀, hc₀, hsc⟩ := Buffers.exists_of_put hb hcls hc
    obtain ⟨e₀, he₀, hse⟩ := Buffers.exists_of_put hb hcls he
    exact hi.sizes q hq r hr c₀ e₀ hc₀ he₀ (by rw [hsc, hse, hsize])
  · obtain ⟨c, hc, hsize, hbase⟩ := hi.buffer64
    by_cases h64 : a.buffer64 = p
    · subst h64
      obtain rfl : c = b := Option.some.inj (hc.symm.trans hb)
      exact ⟨b', Buffers.put_self _ _ _, hcls.bufferSize.trans hsize, (hpart rfl).trans hbase⟩
    · exact ⟨c, (Buffers.put_of_ne _ _ h64).trans hc, hsize, hbase⟩
  · exact hfirst
  · intro q hq
    show g.base ∉ members (Function.update g.lists p L' q)
    by_cases hqp : q = p
    · subst hqp
      rwa [Function.update_self]
    · rw [Function.update_of_ne hqp]
      exact hi.lone q hq
  · have hgone := hsome g.stack
    rw [hi.gone] at hgone
    exact Option.isSome_eq_false_iff.mp hgone |> Option.isNone_iff_eq_none.mp
  · exact ⟨hi.outside.1, (hcont _).trans hi.outside.2.1, (hcont _).trans hi.outside.2.2⟩
  · exact hslabs
  · exact fun d ↦ by rw [hi.descs, hsome]
  · intro x hx
    have hown : a.IsOwn x := hx.of_put hb (hsome x)
    exact ⟨hlive x (hi.placed x hown).1, (hcont x).trans (hi.placed x hown).2⟩

end Inv

/-! ### What clients notice -/

/-- **What is live stays live**: the slabs keep their regions, and no object of the allocator is
made where something is live. -/
structure Extends (a : Allocator) (g : Layout) (a' : Allocator) (g' : Layout) : Prop where
  /-- What was handed out still is. -/
  live : ∀ x ∈ g.live, x ∈ g'.live
  /-- Nothing live becomes an object of the allocator. -/
  own : ∀ x ∈ g.live, a'.IsOwn x → a.IsOwn x
  /-- Regions and sizes do not change. -/
  region : ∀ d ld, a.heap.descs d = some ld → ∃ ld', a'.heap.descs d = some ld' ∧
    ld'.baseAddress = ld.baseAddress ∧ ld'.pages = ld.pages ∧ ld'.bufferSize = ld.bufferSize

/-- **A buffer of `size` bytes was handed out at `x`.** -/
structure Handed (a : Allocator) (g : Layout) (a' : Allocator) (g' : Layout) (x size : ℕ) : Prop
    extends Extends a g a' g' where
  /-- It is new, -/
  new : x ≠ 0 ∧ x ∉ g.live ∧ x ∈ g'.live
  /-- lies in a slab of that size, -/
  slab : ∃ d ld, a'.heap.descs d = some ld ∧ a'.heap.contains x d ∧ ld.bufferSize = size
  /-- and is not an object of the allocator. -/
  notOwn : ¬a'.IsOwn x

section Extends

variable {a a' a'' : Allocator} {g g' g'' : Layout} {b b' : Buffer} {p x d : ℕ}

theorem Extends.refl (a : Allocator) (g : Layout) : Extends a g a g :=
  ⟨fun _ h ↦ h, fun _ _ h ↦ h, fun _ ld h ↦ ⟨ld, h, rfl, rfl, rfl⟩⟩

theorem Extends.trans (h₁ : Extends a g a' g') (h₂ : Extends a' g' a'' g'') :
    Extends a g a'' g'' := by
  refine ⟨fun x hx ↦ h₂.live x (h₁.live x hx),
    fun x hx hown ↦ h₁.own x hx (h₂.own x (h₁.live x hx) hown), fun d ld he ↦ ?_⟩
  obtain ⟨ld', he', hb', hp', hs'⟩ := h₁.region d ld he
  obtain ⟨ld'', he'', hb'', hp'', hs''⟩ := h₂.region d ld' he'
  exact ⟨ld'', he'', hb''.trans hb', hp''.trans hp', hs''.trans hs'⟩

/-- A region stays where it is. -/
theorem Extends.contains_eq {ld : ListDescriptor} (h : Extends a g a' g')
    (he : a.heap.descs d = some ld) (x : ℕ) : a'.heap.contains x d = a.heap.contains x d := by
  obtain ⟨ld', he', hb, hp, -⟩ := h.region d ld he
  rw [Slab.contains_eq he, Slab.contains_eq he', Bool.eq_iff_iff]
  simp only [ListDescriptor.objectInRange, decide_eq_true_eq]
  rw [ListDescriptor.limit, ListDescriptor.limit, hb, hp]

theorem Extends.contains (h : Extends a g a' g') (hc : a.heap.contains x d) :
    a'.heap.contains x d := by
  cases he : a.heap.descs d with
  | none => simp [Heap.contains, he] at hc
  | some ld => rwa [h.contains_eq he]

end Extends

namespace Inv

variable {a a' : Allocator} {g g' : Layout} {b b' : Buffer} {p q x d size : ℕ}
  {ld ld' : ListDescriptor} {h' : Heap}

/-- One slab has handed out a buffer, and the descriptors of one size were put in order. -/
theorem handed (hi : a.Inv g) (hb : a.buffers p = some b) (hd : d ∈ g.slabs)
    (he : a.heap.descs d = some ld) (hrev : ld.Revises ld')
    (hs : Heap.SameSlabs (a.heap.setSlab d a.heap.mem ld') h') (hx : x ∈ ld.slots)
    (hnew : x ∉ g.live) (lists : ℕ → ListKind → List ℕ) :
    Handed a g { a with heap := h', buffers := a.buffers.put p b' }
      { g with lists := lists, live := x :: g.live } x ld.bufferSize := by
  have hsome : ∀ y, (h'.descs y).isSome = (a.heap.descs y).isSome := fun y ↦
    (hs.isSome y).trans (Heap.isSome_setSlab he y)
  have hown : ∀ y, IsOwn { a with heap := h', buffers := a.buffers.put p b' } y → a.IsOwn y :=
    fun y hy ↦ hy.of_put hb (hsome y)
  have hext : Extends a g { a with heap := h', buffers := a.buffers.put p b' }
      { g with lists := lists, live := x :: g.live } := by
    refine ⟨fun y hy ↦ List.mem_cons_of_mem x hy, fun y _ hy ↦ hown y hy, fun y ldy hey ↦ ?_⟩
    by_cases hyd : y = d
    · subst hyd
      obtain rfl : ldy = ld := Option.some.inj (hey.symm.trans he)
      refine ⟨_, hs.desc (Heap.descs_setSlab_self a.heap y a.heap.mem ld'), ?_⟩
      rw [hrev.1]
      exact ⟨rfl, rfl, rfl⟩
    · exact ⟨_, hs.desc ((Heap.descs_setSlab_of_ne a.heap _ ld' hyd).trans hey), rfl, rfl, rfl⟩
  obtain ⟨ld₀, e, he₀, hch⟩ := hi.slabs.chained d hd
  obtain rfl : ld₀ = ld := Option.some.inj (he₀.symm.trans he)
  obtain ⟨ld₁, he₁, -, -, hsize⟩ := hext.region d ld₀ he
  have hin : a.heap.contains x d := (contains_eq he).trans (hch.sized.objectInRange hx)
  exact ⟨hext, ⟨hch.sized.pos hx, hnew, List.mem_cons_self⟩,
    ⟨d, ld₁, he₁, hext.contains hin, hsize⟩, fun h0 ↦ hnew (hi.placed x (hown x h0)).1⟩

/-! ### `Allocate` of a buffer -/

theorem bufferSize_own (a : Allocator) (p : ℕ) (b : Buffer) :
    (a.own p b).bufferSize = b.bufferSize := by
  rw [own]
  split
  · rfl
  · rfl

/-- The slabs of a buffer that has none with space. -/
theorem allocateFrom_full (hi : a.Inv g) (hp : p ∈ g.ring) (hb : a.buffers p = some b)
    (hpart : b.partialLists = 0) (hfree : b.freeLists = 0) : a.allocateFrom p = .ok (0, a) := by
  have hderef := Buffers.deref_eq (hi.ne_zero (List.mem_cons_of_mem _ hp)) hb
  simp [allocateFrom, hderef, Buffer.allocate, hpart, hfree, Buffers.put_eq_self hb]

/-- **`Allocate` of a buffer other than `Buffer64`.** -/
theorem allocateFrom_ring (hi : a.Inv g) (hp : p ∈ g.ring) (hb : a.buffers p = some b)
    (hspace : b.partialLists ≠ 0 ∨ b.freeLists ≠ 0) :
    ∃ x a' g', a.allocateFrom p = .ok (x, a') ∧ a'.Inv g' ∧ Handed a g a' g' x b.bufferSize := by
  have hp' : p ∈ a.buffer64 :: g.ring := List.mem_cons_of_mem _ hp
  have hne := (hi.of_mem_ring hp).1
  have hown : ∀ c, a.own p c = c := fun c ↦ if_neg hne
  obtain ⟨b₀, hb₀, hs⟩ := hi.sorted p hp'
  obtain rfl : b₀ = b := Option.some.inj (hb₀.symm.trans hb)
  rw [hown] at hs
  -- the first slab with space
  obtain ⟨d, l, hL⟩ : ∃ d l, g.lists p .partialLists ++ g.lists p .freeLists = d :: l := by
    refine List.exists_cons_of_ne_nil fun hnil ↦ ?_
    obtain ⟨hnp, hnf⟩ := List.append_eq_nil_iff.mp hnil
    rcases hspace with h0 | h0
    · exact hs.head_ne_zero (k := .partialLists) |>.mp h0 hnp
    · exact hs.head_ne_zero (k := .freeLists) |>.mp h0 hnf
  have hd : d ∈ members (g.lists p) := by
    have hmem : d ∈ g.lists p .partialLists ++ g.lists p .freeLists := hL ▸ List.mem_cons_self
    exact mem_members.mpr ((List.mem_append.mp hmem).elim (fun h0 ↦ ⟨_, h0⟩) fun h0 ↦ ⟨_, h0⟩)
  obtain ⟨ld, he, hlt, -, hok⟩ := hs.allocate_spec hL
  have hds : d ∈ g.slabs := by rw [hi.descs, he]; rfl
  obtain ⟨x, ld', hal, hslot, hnew, -, ⟨hrev, -⟩, hslabs⟩ :=
    hi.slabs.allocate hds he (Nat.ne_of_lt hlt)
  obtain ⟨b', h', hall, hres⟩ := hok x ld' hal
  obtain ⟨L', hs', hmem'⟩ := hres.sorted
  have hsome : ∀ y, (h'.descs y).isSome = (a.heap.descs y).isSome := fun y ↦
    (hres.slabs.isSome y).trans (Heap.isSome_setSlab he y)
  -- the descriptors of other buffers, and the first one, are left alone
  have hframe : ∀ y, y ∉ members (g.lists p) → h'.descs y = a.heap.descs y := fun y hy ↦
    (hres.slabs.descs_eq hres.links hy).trans
      (Heap.descs_setSlab_of_ne a.heap _ ld' fun h0 ↦ hy (h0 ▸ hd))
  have hfirst : FirstDesc g h' := by
    obtain ⟨n, u, hu, hef⟩ := hi.first
    exact ⟨n, u, hu, (hframe _ (hi.lone p hp')).trans hef⟩
  have hsize : ld.bufferSize = b₀.bufferSize := by
    obtain ⟨k, hk⟩ := mem_members.mp hd
    obtain ⟨-, ld₀, he₀, hsz⟩ := hs.desc k d hk
    obtain rfl : ld₀ = ld := Option.some.inj (he₀.symm.trans he)
    exact hsz
  refine ⟨x, { a with heap := h', buffers := a.buffers.put p b' },
    { g with lists := Function.update g.lists p L', live := x :: g.live }, ?_, ?_, ?_⟩
  · simp [allocateFrom, Buffers.deref_eq (hi.ne_zero hp') hb, hall]
  · refine hi.revise hp' hb hres.cls (fun h0 ↦ absurd h0 hne) ?_
      (fun h0 ↦ hi.lone p hp' ((hmem' _).mp h0))
      (fun q hq hqp y hy ↦ hframe y fun h0 ↦ hqp (hi.eq_of_mem_members hq hp' hy h0)) hsome hfirst
      (hslabs.of_sameSlabs hres.slabs) fun y hy ↦ List.mem_cons_of_mem x hy
    rw [hown]
    exact hs'
  · rw [← hsize]
    exact hi.handed hb hds he hrev hres.slabs hslot hnew _

/-! ### `Allocate` of `Buffer64` -/

/-- The partial ring of `Buffer64` begins with the first descriptor. -/
theorem deref_buffer64 (hi : a.Inv g) : ∃ b n u, a.buffers a.buffer64 = some b ∧
    a.buffers.deref a.buffer64 = .ok b ∧ b.bufferSize = 64 ∧ b.partialLists = g.base ∧ u < 64 ∧
    a.heap.descs g.base = some (g.first n u) := by
  obtain ⟨b, hb, hsize, hbase⟩ := hi.buffer64
  obtain ⟨n, u, hu, he⟩ := hi.first
  exact ⟨b, n, u, hb, Buffers.deref_eq hi.outside.1 hb, hsize, hbase, hu, he⟩

/-- **`Allocate` of `Buffer64`** takes from the first page. -/
theorem allocateFrom_buffer64 (hi : a.Inv g) (hroom : a.Room) : ∃ x a',
    a.allocateFrom a.buffer64 = .ok (x, a') ∧ a'.Inv { g with live := x :: g.live } ∧
      Handed a g a' { g with live := x :: g.live } x 64 ∧ a'.buffer64 = a.buffer64 ∧
      (∀ p size, hasSize a' size p = hasSize a size p) ∧ a'.heap.contains x g.base := by
  obtain ⟨b, n, u, hb, hderef, hsize, hbase, hu, he⟩ := hi.deref_buffer64
  have hroom' : u + 1 < 64 := by
    obtain ⟨b₀, ld, hb₀, he₀, hlt⟩ := hroom
    obtain rfl : b₀ = b := Option.some.inj (hb₀.symm.trans hb)
    rw [hbase] at he₀
    obtain rfl := Option.some.inj (he₀.symm.trans he)
    exact hlt
  have hmem : a.buffer64 ∈ a.buffer64 :: g.ring := List.mem_cons_self
  have hb0 := hi.base_lt.1
  obtain ⟨x, ld', hal, hslot, hnew, hx0, ⟨hrev, hused⟩, hslabs⟩ :=
    hi.slabs.allocate hi.base_mem he (Nat.ne_of_lt hu)
  have hfull : ld'.full = false := by
    have htotal : ld'.totalBuffers = 64 := by rw [hrev.1]; rfl
    simp only [ListDescriptor.full, htotal, hused, decide_eq_false_iff_not]
    show 64 ≠ u + 1
    omega
  -- the partial ring is tried first, and its head has space
  have hspace : (g.first n u).hasSpace := decide_eq_true hu
  have hall : b.allocate a.heap
      = .ok (x, b.countOp, a.heap.setSlab g.base a.heap.mem ld') := by
    rw [← hbase] at hb0 he ⊢
    exact Buffer.allocate_of_hasSpace hb0 he hspace hal hfull hx0
  set a' : Allocator := { a with
    heap := a.heap.setSlab g.base a.heap.mem ld'
    buffers := a.buffers.put a.buffer64 b.countOp } with ha'
  have hhand : Handed a g a' { g with live := x :: g.live } x 64 :=
    hi.handed hb hi.base_mem he hrev (Heap.SameSlabs.refl _) hslot hnew g.lists
  obtain ⟨ld₀, e, he₀, hch⟩ := hi.slabs.chained g.base hi.base_mem
  obtain rfl := Option.some.inj (he₀.symm.trans he)
  refine ⟨x, a', by simp [allocateFrom, hderef, hall, ha'], ?_, hhand, rfl, fun p size ↦ ?_,
    hhand.contains ((contains_eq he).trans (hch.sized.objectInRange hslot))⟩
  · obtain ⟨b₀, hb₀, hs⟩ := hi.sorted _ hmem
    obtain rfl : b₀ = b := Option.some.inj (hb₀.symm.trans hb)
    have hframe : ∀ q ∈ a.buffer64 :: g.ring, ∀ d ∈ members (g.lists q),
        (a.heap.setSlab g.base a.heap.mem ld').descs d = a.heap.descs d := fun q hq d hd ↦
      Heap.descs_setSlab_of_ne _ _ _ fun h0 ↦ hi.lone q hq (h0 ▸ hd)
    have hfirst : FirstDesc g (a.heap.setSlab g.base a.heap.mem ld') := by
      refine ⟨ld'.nextFree, u + 1, hroom', (Heap.descs_setSlab_self _ _ _ _).trans ?_⟩
      rw [hrev.1, hused]
      rfl
    have hs' : Sorted (a.own a.buffer64 b₀.countOp) (a.heap.setSlab g.base a.heap.mem ld')
        (g.lists a.buffer64) := by
      refine (hs.congr (hframe _ hmem)).of_heads (fun k ↦ ?_) ?_
      · rw [own, own, if_pos rfl, if_pos rfl, ← Buffer.countOp_setHead, Buffer.head_countOp]
      · rw [bufferSize_own, bufferSize_own, Buffer.bufferSize_countOp]
    have hinv := hi.revise hmem hb b₀.sameClass_countOp (fun _ ↦ rfl) hs' (hi.lone _ hmem)
      (fun q hq _ ↦ hframe q hq) (Heap.isSome_setSlab he) hfirst hslabs
      fun y hy ↦ List.mem_cons_of_mem x hy
    rwa [Function.update_eq_self] at hinv
  · exact hasSize_put hb b.sameClass_countOp

/-- **The last buffer of the first page**: the first descriptor is full and is to be moved, and its
link is followed to where nothing is. -/
theorem allocateFrom_buffer64_last (hi : a.Inv g) (hroom : ¬a.Room) :
    ∃ e, a.allocateFrom a.buffer64 = .error e := by
  obtain ⟨b, n, u, hb, hderef, hsize, hbase, hu, he⟩ := hi.deref_buffer64
  have hroom' : u = 63 := by
    by_contra hne
    exact hroom ⟨b, _, hb, hbase ▸ he, show u + 1 < 64 by omega⟩
  subst hroom'
  have hb0 := hi.base_lt.1
  have hne : g.stack ≠ g.base := fun h0 ↦ by
    have hgone := hi.gone
    rw [h0, he] at hgone
    cases hgone
  obtain ⟨x, ld', hal, -, -, -, ⟨hrev, hused⟩, -⟩ :=
    hi.slabs.allocate hi.base_mem he (Nat.ne_of_lt hu)
  have hfull : ld'.full = true := by
    rw [hrev.1, hused]
    rfl
  have hlinks : ld'.nextList = g.stack ∧ ld'.prevList = g.base := by
    rw [hrev.1]
    exact ⟨rfl, rfl⟩
  set h' := a.heap.setSlab g.base a.heap.mem ld' with hh'
  have hderef' : h'.deref g.base = .ok ld' := Heap.deref_setSlab hb0 _ _
  -- `ExtractSelf` follows the link
  obtain ⟨e, hext⟩ : ∃ e, h'.extractSelf g.base = .error e := by
    have hput : ∀ ld, (h'.put g.base ld).descs g.stack = none := fun ld ↦ by
      show (if g.stack = g.base then some ld else h'.descs g.stack) = none
      rw [if_neg hne, hh', Heap.descs_setSlab_of_ne _ _ _ hne, hi.gone]
    obtain ⟨e, he⟩ : ∃ e, ∀ ld, (h'.put g.base ld).deref g.stack = .error e := by
      by_cases hs0 : g.stack = 0
      · exact ⟨.nullDeref, fun ld ↦ if_pos hs0⟩
      · exact ⟨.dangling, fun ld ↦ by simp [Heap.deref, hs0, hput]⟩
    exact ⟨e, by simp [Heap.extractSelf, hderef', hlinks, hne, Heap.modify, he]⟩
  have hspace : (g.first n 63).hasSpace := decide_eq_true hu
  have hbody : Buffer.addToPartialBody b a.heap g.base = .error e := by
    rw [Buffer.addToPartialBody_eq hb0 he hspace hal, if_pos hfull, ← hh']
    simp [Buffer.moveEntry, Buffer.moveHead, Buffer.head, hderef', hbase, hb0, hlinks, hne, hext]
  refine ⟨e, ?_⟩
  simp [allocateFrom, hderef, Buffer.allocate, Buffer.addToPartial, hbase, hb0,
    Loop.exec_error hbody]

end Inv

end Allocator

end Chisaka.Slab
