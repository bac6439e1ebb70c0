import Chisaka.Kheap.Slab.BufferPool
import Chisaka.Kheap.Slab.AllocatorSpec

/-!
# Objects, buffers and descriptors of the allocator

`NewBuffer`, `NewListDescriptor` and `AllocateObject` take their place from the buffers that are
there.  Each of them keeps the invariant and disturbs nothing that is live.

`HasSpace` is when there is an object to be had: a buffer of the size is on the ring, and one of its
slabs has space.  `AllocateObject` makes a buffer where none is, but it makes no slab
(`allocateObject_cases`).
-/

set_option autoImplicit false

namespace Chisaka.Slab

open Bytes

/-- The links that `SetupLinkage` writes lie in the pages of the slab. -/
def ListDescriptor.LinksInside (ld : ListDescriptor) : Prop :=
  (ld.linked - 1) * ld.bufferSize + 8 ≤ 0x1000 * ld.pages

/-- **`SetupLinkage` of a new descriptor**: its slab shares the memory with those that are there, if
its pages are its own. -/
theorem Slabs.setupLinkage {h : Heap} {added live : List ℕ} {x base : ℕ} {size : UInt16}
    {pages : UInt8} (hs : Slabs h added live) (hx : x ∉ added)
    (hc : (ListDescriptor.new x base size pages).InSpace)
    (hlinks : (ListDescriptor.new x base size pages).LinksInside)
    (hfree : ∀ d ∈ added, ∀ y, base ≤ y → y < base + 0x1000 * pages.toNat →
      h.contains y d = false) :
    ∃ m ld, (ListDescriptor.new x base size pages).setupLinkage h.mem = .ok (m, ld) ∧
      ld = { ListDescriptor.new x base size pages with nextFree := base } ∧
      Slabs (h.setSlab x m ld) (x :: added) live := by
  set new := ListDescriptor.new x base size pages with hnew
  have hsized : new.Sized := ListDescriptor.new_sized hc.1 hc.lt
  obtain ⟨m, ld, hset, hch, -, hwords, hld⟩ := hsized.setupLinkage rfl hc.2 h.mem
  refine ⟨m, ld, hset, hld, ?_⟩
  have hself : (h.setSlab x m ld).descs x = some ld := Heap.descs_setSlab_self h x m ld
  have hold : ∀ d ∈ added, (h.setSlab x m ld).descs d = h.descs d := fun d hd ↦
    Heap.descs_setSlab_of_ne h m ld fun h0 ↦ hx (h0 ▸ hd)
  have hslabs : Slabs (h.setSlab x m ld) added live := by
    refine hs.write hold fun y hy ↦ hwords y fun c hc' ↦ ?_
    -- what was written lies in the region
    obtain ⟨i, hilt, rfl⟩ := List.mem_range'.mp hc'
    have hle : new.bufferSize * i ≤ (new.linked - 1) * new.bufferSize := by
      rw [Nat.mul_comm]
      exact Nat.mul_le_mul_right _ (by omega)
    have hb : new.baseAddress = base := rfl
    have hp : new.pages = pages.toNat := rfl
    rw [ListDescriptor.LinksInside, hp] at hlinks
    by_contra hover
    exact hy (.inl fun d hd ↦ hfree d hd y (by omega) (by omega))
  refine hslabs.cons hself hch fun d hd y hyx hyd ↦ ?_
  rw [contains_eq hself, hld] at hyx
  obtain ⟨h1, h2⟩ := of_decide_eq_true hyx
  have hnot := hfree d hd y h1 (Nat.lt_of_lt_of_le h2 (Nat.mod_le _ _))
  rw [Heap.contains, hold d hd] at hyd
  rw [Heap.contains, hyd] at hnot
  cases hnot

/-- `SetupLinkage` of a descriptor that was just made. -/
theorem Heap.setupLinkage_put {h : Heap} {x : ℕ} (hx : x ≠ 0) (new : ListDescriptor) :
    (h.put x new).setupLinkage x =
      (new.setupLinkage h.mem >>= fun r ↦ .ok (h.setSlab x r.1 r.2)) := by
  have hderef : (h.put x new).deref x = .ok new := Heap.deref_eq hx (if_pos rfl)
  rw [Heap.setupLinkage, hderef, Exec.ok_bind]
  show (new.setupLinkage h.mem >>= _) = _
  refine congrArg _ (funext fun r ↦ congrArg Except.ok ?_)
  simp only [Heap.put, Heap.setSlab, Heap.mk.injEq, true_and]
  funext y
  by_cases hy : y = x <;> simp [hy]

namespace Allocator

/-- There is an object of `size` bytes to be had: a buffer of that size is on the ring and has a
slab with space.  The last buffer of the first page does not count. -/
def HasSpace (a : Allocator) (size : ℕ) : Prop :=
  ∃ p b, (∃ n, a.buffers.next^[n] a.buffer64 = p) ∧ a.buffers p = some b ∧ b.bufferSize = size ∧
    if p = a.buffer64 then a.Room else b.partialLists ≠ 0 ∨ b.freeLists ≠ 0

/-- A request of `size` bytes takes a buffer of the first page: the object itself if it has 64
bytes, and a new `Buffer` if there is none for the size. -/
def TakesFirst (a : Allocator) (size : ℕ) : Prop :=
  a.getBuffer size = .ok a.buffer64 ∨ a.getBuffer size = .ok 0

/-- The layout with a new buffer at `x`, which has no slabs yet. -/
def Layout.withBuffer (g : Layout) (x : ℕ) : Layout :=
  { g with
    ring := g.ring ++ [x]
    lists := Function.update g.lists x fun _ ↦ []
    live := x :: g.live }

theorem Layout.mem_withBuffer (g : Layout) (x : ℕ) : x ∈ (g.withBuffer x).ring :=
  List.mem_append_right _ (List.mem_singleton_self x)

variable {a a' : Allocator} {g g' : Layout} {b b' : Buffer} {p q x y d base : ℕ} {size : UInt16}
  {pages : UInt8} {ld : ListDescriptor} {h' : Heap}

namespace Inv

/-! ## Buffers -/

/-- A place in the first page where no object of the allocator lives yet. -/
theorem of_free_place (hi : a.Inv g) (hown : ¬a.IsOwn x) (hin : a.heap.contains x g.base) :
    x ≠ 0 ∧ x < 2 ^ 64 ∧ x ≠ a.buffer64 ∧ x ∉ g.slabs ∧ x ∉ a.buffer64 :: g.ring := by
  have hrange := (contains_base hi.first hi.base_lt.2).mp hin
  have hlt := hi.base_lt
  have h64 : x ≠ a.buffer64 := fun h0 ↦ by
    have hout := hi.outside.2.1
    rw [← h0, hin] at hout
    cases hout
  refine ⟨by omega, by omega, h64, fun h0 ↦ hown (.inl ((hi.descs x).mp h0)), fun h0 ↦ ?_⟩
  obtain ⟨c, hc, -⟩ := hi.sorted x h0
  exact hown (.inr ⟨h64, by rw [hc]; rfl⟩)

/-- An object may be made in a free place without being put on the ring. -/
theorem constructBuffer (hi : a.Inv g) (hx : x ∈ g.live) (hown : ¬a.IsOwn x)
    (hin : a.heap.contains x g.base) (b : Buffer) (low : ℕ) :
    Inv { a with buffers := a.buffers.put x b, lowAddrBuffer := low } g := by
  obtain ⟨-, -, hx64, -, hring⟩ := hi.of_free_place hown hin
  have hold : ∀ p ∈ a.buffer64 :: g.ring, a.buffers.put x b p = a.buffers p := fun p hp ↦
    Buffers.put_of_ne _ _ fun h0 ↦ hring (h0 ▸ hp)
  constructor
  · refine hi.ring.congr (fun p hp ↦ ?_) fun p hp ↦ ?_
    · show ((a.buffers.put x b p).map Buffer.nextBuffer).getD 0 = _
      rw [hold p hp]
      rfl
    · show ((a.buffers.put x b p).map Buffer.prevBuffer).getD 0 = _
      rw [hold p hp]
      rfl
  · intro p hp
    obtain ⟨c, hc, hs⟩ := hi.sorted p hp
    exact ⟨c, (hold p hp).trans hc, hs⟩
  · intro p hp q hq c e hc he hsize
    exact hi.sizes p hp q hq c e ((hold p hp).symm.trans hc) ((hold q hq).symm.trans he) hsize
  · obtain ⟨c, hc, hsize, hbase⟩ := hi.buffer64
    exact ⟨c, (hold _ List.mem_cons_self).trans hc, hsize, hbase⟩
  · exact hi.first
  · exact hi.lone
  · exact hi.gone
  · exact hi.outside
  · exact hi.slabs
  · exact hi.descs
  · rintro y (h0 | ⟨hy, h0⟩)
    · exact hi.placed y (.inl h0)
    · by_cases hyx : y = x
      · rw [hyx]
        exact ⟨hx, hin⟩
      · exact hi.placed y (.inr ⟨hy, Buffers.put_of_ne a.buffers b hyx ▸ h0⟩)

/-- **A buffer is put on the ring.** -/
theorem pushBuffer (hi : a.Inv g) (hx0 : x ≠ 0) (hx64 : x ≠ a.buffer64) (hxR : x ∉ g.ring)
    (hnew : a.buffers x = some (Buffer.new x size))
    (hnone : ∀ p ∈ a.buffer64 :: g.ring, ∀ b, a.buffers p = some b → b.bufferSize ≠ size.toNat) :
    ∃ bs, a.buffers.addBuffer a.buffer64 x = .ok bs ∧
      Inv { a with buffers := bs }
        { g with ring := g.ring ++ [x], lists := Function.update g.lists x fun _ ↦ [] } ∧
      (∀ y, IsOwn { a with buffers := bs } y → a.IsOwn y) ∧
      ∃ b, bs x = some b ∧ b.bufferSize = size.toNat ∧ b.partialLists = 0 ∧ b.freeLists = 0 := by
  have hring : x ∉ a.buffer64 :: g.ring := fun h0 ↦
    (List.mem_cons.mp h0).elim hx64 hxR
  have hne : ∀ p ∈ a.buffer64 :: g.ring, p ≠ x := fun p hp h0 ↦ hring (h0 ▸ hp)
  obtain ⟨bs, hadd, hsame, hring'⟩ := Buffers.addBuffer_spec hi.ring (fun p hp ↦ by
    obtain ⟨c, hc, -⟩ := hi.sorted p hp
    exact ⟨hi.ne_zero hp, c, hc⟩) ⟨hx0, _, hnew⟩ hring
  -- only links have changed
  have hown : ∀ y, IsOwn { a with buffers := bs } y → a.IsOwn y := fun y hy ↦
    hy.imp_right (And.imp_right fun h0 ↦ hsame.isSome y ▸ h0)
  have hmem : ∀ p, p ∈ a.buffer64 :: (g.ring ++ [x]) ↔ p ∈ a.buffer64 :: g.ring ∨ p = x :=
    fun p ↦ by simp [or_assoc]
  refine ⟨bs, hadd, ?_, hown, _, hsame.some hnew, rfl, rfl, rfl⟩
  constructor
  · exact hring'
  · intro p hp
    rcases (hmem p).mp hp with hp | rfl
    · obtain ⟨c, hc, hs⟩ := hi.sorted p hp
      refine ⟨_, hsame.some hc, ?_⟩
      show Sorted (a.own p _) a.heap (Function.update g.lists x (fun _ ↦ []) p)
      rw [Function.update_of_ne (hne p hp)]
      refine hs.of_heads (fun k ↦ ?_) ?_
      · rw [own, own]
        split <;> cases k <;> rfl
      · rw [bufferSize_own, bufferSize_own]
    · refine ⟨_, hsame.some hnew, ?_⟩
      show Sorted (a.own p _) a.heap (Function.update g.lists p (fun _ ↦ []) p)
      rw [Function.update_self, own, if_neg hx64]
      exact (sorted_new p size a.heap).of_heads (fun k ↦ by cases k <;> rfl) rfl
  · intro p hp q hq b c hb hc hsize
    obtain ⟨b₀, hb₀, hbs⟩ := hsame.of_some hb
    obtain ⟨c₀, hc₀, hcs⟩ := hsame.of_some hc
    have hsize₀ : b₀.bufferSize = c₀.bufferSize := by rw [hbs, hsize, hcs]
    rcases (hmem p).mp hp with hpR | rfl
    · rcases (hmem q).mp hq with hqR | rfl
      · exact hi.sizes p hpR q hqR b₀ c₀ hb₀ hc₀ hsize₀
      · obtain rfl := Option.some.inj (hnew.symm.trans hc₀)
        exact absurd hsize₀ (hnone p hpR b₀ hb₀)
    · obtain rfl := Option.some.inj (hnew.symm.trans hb₀)
      rcases (hmem q).mp hq with hqR | rfl
      · exact absurd hsize₀.symm (hnone q hqR c₀ hc₀)
      · rfl
  · obtain ⟨c, hc, hsize, hbase⟩ := hi.buffer64
    exact ⟨_, hsame.some hc, hsize, hbase⟩
  · exact hi.first
  · intro p hp
    show g.base ∉ members (Function.update g.lists x (fun _ ↦ []) p)
    rcases (hmem p).mp hp with hp | rfl
    · rw [Function.update_of_ne (hne p hp)]
      exact hi.lone p hp
    · rw [Function.update_self]
      simp [members]
  · exact hi.gone
  · exact hi.outside
  · exact hi.slabs
  · exact hi.descs
  · exact fun y hy ↦ hi.placed y (hown y hy)

/-- **A new buffer is made in a free place and put on the ring.** -/
theorem addBuffer_new (hi : a.Inv g) (hx : x ∈ g.live) (hown : ¬a.IsOwn x)
    (hin : a.heap.contains x g.base)
    (hnone : ∀ p ∈ a.buffer64 :: g.ring, ∀ b, a.buffers p = some b → b.bufferSize ≠ size.toNat) :
    ∃ bs, (a.buffers.put x (Buffer.new x size)).addBuffer a.buffer64 x = .ok bs ∧
      Inv { a with buffers := bs }
        { g with ring := g.ring ++ [x], lists := Function.update g.lists x fun _ ↦ [] } ∧
      (∀ y, IsOwn { a with buffers := bs } y → a.IsOwn y ∨ y = x) ∧
      ∃ b, bs x = some b ∧ b.bufferSize = size.toNat ∧ b.partialLists = 0 ∧ b.freeLists = 0 := by
  obtain ⟨hx0, -, hx64, -, hring⟩ := hi.of_free_place hown hin
  have hi₁ := hi.constructBuffer hx hown hin (Buffer.new x size) a.lowAddrBuffer
  have hnone₁ : ∀ p ∈ a.buffer64 :: g.ring, ∀ b, a.buffers.put x (Buffer.new x size) p = some b →
      b.bufferSize ≠ size.toNat := fun p hp b hb ↦ by
    have hpx : p ≠ x := fun h0 ↦ hring (h0 ▸ hp)
    exact hnone p hp b ((Buffers.put_of_ne _ _ hpx).symm.trans hb)
  obtain ⟨bs, hadd, hi', hown', hb⟩ := hi₁.pushBuffer hx0 hx64
    (fun h0 ↦ hring (List.mem_cons_of_mem _ h0)) (Buffers.put_self _ _ _) hnone₁
  refine ⟨bs, hadd, hi', fun y hy ↦ ?_, hb⟩
  rcases hown' y hy with h0 | ⟨hy64, h0⟩
  · exact .inl (.inl h0)
  · by_cases hyx : y = x
    · exact .inr hyx
    · exact .inl (.inr ⟨hy64, Buffers.put_of_ne a.buffers _ hyx ▸ h0⟩)

/-- `NewBuffer` when there is a buffer of the size. -/
theorem newBuffer_exists (hi : a.Inv g) (hp : p ∈ a.buffer64 :: g.ring)
    (hget : a.getBuffer size.toNat = .ok p) : a.newBuffer size = .ok (0, a) := by
  simp [newBuffer, bufferExists, hget, hi.ne_zero hp]

/-- **`NewBuffer` makes a buffer**, as long as the first page has room. -/
theorem newBuffer_spec (hi : a.Inv g) (hroom : a.Room) (hget : a.getBuffer size.toNat = .ok 0)
    (hnone : ∀ p ∈ a.buffer64 :: g.ring, ∀ b, a.buffers p = some b → b.bufferSize ≠ size.toNat) :
    ∃ x a', a.newBuffer size = .ok (x, a') ∧ (x ≠ 0 ∧ a'.buffer64 = a.buffer64) ∧
      a'.Inv (g.withBuffer x) ∧ Extends a g a' (g.withBuffer x) ∧
        ∃ b, a'.buffers x = some b ∧ b.bufferSize = size.toNat ∧
          b.partialLists = 0 ∧ b.freeLists = 0 := by
  obtain ⟨x, a₁, hall, hi₁, hhand, h64, hsize, hin⟩ := hi.allocateFrom_buffer64 hroom
  have hnone₁ : ∀ p ∈ a₁.buffer64 :: g.ring, ∀ b, a₁.buffers p = some b →
      b.bufferSize ≠ size.toNat := fun p hp b hb hbs ↦ by
    rw [h64] at hp
    obtain ⟨c, hc, -⟩ := hi.sorted p hp
    have heq := hsize p size.toNat
    rw [hasSize, hasSize, hb, hc, Option.any_some, Option.any_some, decide_eq_decide] at heq
    exact hnone p hp c hc (heq.mp hbs)
  obtain ⟨bs, hadd, hi', hown, hnew⟩ :=
    hi₁.addBuffer_new List.mem_cons_self hhand.notOwn hin hnone₁
  refine ⟨x, { a₁ with buffers := bs }, ?_, ⟨hhand.new.1, h64⟩, hi', ?_, hnew⟩
  · simp only [newBuffer, bufferExists, hget, Exec.ok_bind, Exec.pure_eq, ne_eq, not_true_eq_false,
      decide_false, Bool.false_eq_true, if_false, hall, Allocator.constructBuffer,
      if_neg hhand.new.1, addBuffer, hadd]
  · refine ⟨hhand.live, fun y hy h0 ↦ ?_, hhand.region⟩
    rcases hown y h0 with h0 | rfl
    · exact hhand.own y hy h0
    · exact absurd hy hhand.new.2.1

/-- `NewBuffer` when the first page is used up. -/
theorem newBuffer_last (hi : a.Inv g) (hroom : ¬a.Room) (hget : a.getBuffer size.toNat = .ok 0) :
    ∃ e, a.newBuffer size = .error e := by
  obtain ⟨e, hall⟩ := hi.allocateFrom_buffer64_last hroom
  exact ⟨e, by simp [newBuffer, bufferExists, hget, hall]⟩

/-! ## Descriptors -/

/-- **A new descriptor, and its slab.** -/
theorem setupLinkage_new (hi : a.Inv g) (hx : x ∈ g.live) (hown : ¬a.IsOwn x)
    (hin : a.heap.contains x g.base) (hc : (ListDescriptor.new x base size pages).InSpace)
    (hlinks : (ListDescriptor.new x base size pages).LinksInside)
    (hfree : ∀ d ∈ g.slabs, ∀ y, base ≤ y → y < base + 0x1000 * pages.toNat →
      a.heap.contains y d = false) :
    ∃ h' ld, (a.heap.put x (ListDescriptor.new x base size pages)).setupLinkage x = .ok h' ∧
      h'.descs x = some ld ∧ (ld.buffersUsed = 0 ∧ ld.totalBuffers < 2 ^ 16) ∧
      Inv { a with heap := h' } { g with slabs := x :: g.slabs } ∧
      ∀ y, y ≠ x → h'.descs y = a.heap.descs y := by
  obtain ⟨hx0, -, hx64, hslab, hring⟩ := hi.of_free_place hown hin
  obtain ⟨m, ld, hset, hld, hslabs⟩ := hi.slabs.setupLinkage hslab hc hlinks hfree
  set h' := a.heap.setSlab x m ld with hh'
  have hold : ∀ y, y ≠ x → h'.descs y = a.heap.descs y := fun y hy ↦
    Heap.descs_setSlab_of_ne a.heap m ld hy
  have hself : h'.descs x = some ld := Heap.descs_setSlab_self a.heap x m ld
  have hbx : g.base ≠ x := fun h0 ↦ hslab (h0 ▸ hi.base_mem)
  have hsome : ∀ y, (h'.descs y).isSome ↔ y = x ∨ (a.heap.descs y).isSome := fun y ↦ by
    by_cases hy : y = x
    · rw [hy, hself]
      simp
    · rw [hold y hy]
      simp [hy]
  have hmem : ∀ p ∈ a.buffer64 :: g.ring, ∀ d ∈ members (g.lists p), d ≠ x :=
    fun p hp d hd h0 ↦ hslab (h0 ▸ hi.mem_slabs hp hd)
  have hfirst : FirstDesc g h' := by
    obtain ⟨n, u, hu, he⟩ := hi.first
    exact ⟨n, u, hu, (hold _ hbx).trans he⟩
  have hbase := contains_base_eq hi.first hfirst hi.base_lt.2
  refine ⟨h', ld, by rw [Heap.setupLinkage_put hx0, hset, Exec.ok_bind], hself,
    by rw [hld]; exact ⟨rfl, Nat.mod_lt _ (by decide)⟩, ?_, hold⟩
  constructor
  · exact hi.ring
  · intro p hp
    obtain ⟨c, hc, hs⟩ := hi.sorted p hp
    exact ⟨c, hc, hs.congr fun d hd ↦ hold d (hmem p hp d hd)⟩
  · exact hi.sizes
  · exact hi.buffer64
  · exact hfirst
  · exact hi.lone
  · have hne : g.stack ≠ x := fun h0 ↦ by
      have hout := hi.outside.2.2
      rw [h0, hin] at hout
      cases hout
    exact (hold _ hne).trans hi.gone
  · exact ⟨hi.outside.1, (hbase _).trans hi.outside.2.1, (hbase _).trans hi.outside.2.2⟩
  · exact hslabs
  · intro d
    rw [List.mem_cons, hi.descs, hsome]
  · rintro y (h0 | h0)
    · rcases (hsome y).mp h0 with rfl | h0
      · exact ⟨hx, (hbase y).trans hin⟩
      · exact ⟨(hi.placed y (.inl h0)).1, (hbase y).trans (hi.placed y (.inl h0)).2⟩
    · exact ⟨(hi.placed y (.inr h0)).1, (hbase y).trans (hi.placed y (.inr h0)).2⟩

/-- `AddList` of a buffer with a new descriptor, which does not go on the partial ring. -/
theorem addList_own {L : ListKind → List ℕ} (hs : Sorted (a.own p b) a.heap L)
    (hx : x ∉ members L) (haddr : x ≠ 0 ∧ x < 2 ^ 64) (he : a.heap.descs x = some ld)
    (hsize : ld.bufferSize = b.bufferSize) (hused : ld.buffersUsed = 0)
    (htotal : ld.totalBuffers < 2 ^ 16) :
    ∃ b' h' L', b.addList a.heap x = .ok (b', h') ∧ Heap.SameSlabs a.heap h' ∧
      Sorted (a.own p b') h' L' ∧ (∀ y, y ∈ members L' ↔ y = x ∨ y ∈ members L) ∧
      Heap.LinksOnly (x :: members L) a.heap h' ∧ b.SameClass b' ∧
      (p = a.buffer64 → b'.partialLists = b.partialLists) := by
  have hderef : a.heap.deref x = .ok ld := Heap.deref_eq haddr.1 he
  obtain ⟨b₀, h', L', hadd, hslabs, hs', hmem, hlinks, hcls⟩ :=
    hs.addList hx haddr he (hsize.trans (bufferSize_own a p b).symm) (hused ▸ Nat.zero_le _) htotal
  by_cases h64 : p = a.buffer64
  · -- the partial ring is put aside and put back
    have hkind : ld.kind ≠ .partialLists := fun h0 ↦
      (ListDescriptor.kind_eq_partialLists.mp h0).2 hused
    have hown : ∀ c : Buffer, a.own p c = c.setHead .partialLists 0 := fun c ↦ if_pos h64
    rw [hown] at hadd hcls
    have hswap := Buffer.addList_setHead (b := b.setHead .partialLists 0) hderef
      (hsize.trans (Buffer.bufferSize_setHead b _ _).symm) hkind
    have hzero : b₀.setHead .partialLists 0 = b₀ := by
      have h0 := hswap 0
      rw [show (b.setHead .partialLists 0).setHead .partialLists 0
        = b.setHead .partialLists 0 from rfl, hadd] at h0
      exact (Prod.mk.inj (Except.ok.inj h0)).1.symm
    have hback := hswap b.partialLists
    rw [show (b.setHead .partialLists 0).setHead .partialLists b.partialLists = b from rfl,
      hadd] at hback
    refine ⟨b₀.setHead .partialLists b.partialLists, h', L', hback, hslabs, ?_, hmem, hlinks, ?_,
      fun _ ↦ rfl⟩
    · rw [hown]
      show Sorted (b₀.setHead .partialLists 0) h' L'
      rwa [hzero]
    · exact (b.sameClass_setHead _ _).trans (hcls.trans (b₀.sameClass_setHead _ _))
  · have hown : ∀ c : Buffer, a.own p c = c := fun c ↦ if_neg h64
    rw [hown] at hadd hcls
    exact ⟨b₀, h', L', hadd, hslabs, by rwa [hown], hmem, hlinks, hcls, fun h0 ↦ absurd h0 h64⟩

/-- **`AddListDescriptor` of a new descriptor** puts it on a ring, if there is a buffer for it. -/
theorem addListDescriptor_new (hi : a.Inv g) (he : a.heap.descs x = some ld)
    (haddr : x ≠ 0 ∧ x < 2 ^ 64) (hx : x ≠ g.base)
    (hlone : ∀ p ∈ a.buffer64 :: g.ring, x ∉ members (g.lists p)) (hused : ld.buffersUsed = 0)
    (htotal : ld.totalBuffers < 2 ^ 16) :
    ∃ a' lists, a.addListDescriptor x = .ok a' ∧ a'.Inv { g with lists := lists } ∧
      a'.buffer64 = a.buffer64 ∧ Extends a g a' { g with lists := lists } ∧
      ∀ y, a'.IsOwn y → a.IsOwn y := by
  have hderef : a.heap.deref x = .ok ld := Heap.deref_eq haddr.1 he
  rcases hi.getBuffer_cases ld.bufferSize with ⟨p, hp, b, hb, hsize, hget⟩ | ⟨hget, -⟩
  · obtain ⟨b₀, hb₀, hs⟩ := hi.sorted p hp
    obtain rfl : b₀ = b := Option.some.inj (hb₀.symm.trans hb)
    obtain ⟨b', h', L', hadd, hslabs, hs', hmem, hlinks, hcls, hpart⟩ :=
      addList_own hs (hlone p hp) haddr he hsize.symm hused htotal
    have hsome : ∀ y, (h'.descs y).isSome = (a.heap.descs y).isSome := hslabs.isSome
    have hframe : ∀ y, y ≠ x → y ∉ members (g.lists p) → h'.descs y = a.heap.descs y :=
      fun y hyx hy ↦ hslabs.descs_eq hlinks fun h0 ↦
        (List.mem_cons.mp h0).elim hyx hy
    have hfirst : FirstDesc g h' := by
      obtain ⟨n, u, hu, hef⟩ := hi.first
      exact ⟨n, u, hu, (hframe _ hx.symm (hi.lone p hp)).trans hef⟩
    have hown : ∀ y, IsOwn { a with heap := h', buffers := a.buffers.put p b' } y → a.IsOwn y :=
      fun y hy ↦ hy.of_put hb (hsome y)
    refine ⟨{ a with heap := h', buffers := a.buffers.put p b' }, Function.update g.lists p L',
      ?_, ?_, rfl, ?_, hown⟩
    · simp [addListDescriptor, hderef, hget, hi.ne_zero hp, addListTo,
        Buffers.deref_eq (hi.ne_zero hp) hb, hadd]
    · exact hi.revise hp hb hcls hpart hs'
        (fun h0 ↦ ((hmem _).mp h0).elim (fun h1 ↦ hx h1.symm) (hi.lone p hp))
        (fun q hq hqp y hy ↦ hframe y (fun h0 ↦ hlone q hq (h0 ▸ hy))
          fun h0 ↦ hqp (hi.eq_of_mem_members hq hp hy h0)) hsome hfirst
        (hi.slabs.of_sameSlabs hslabs) fun _ hy ↦ hy
    · exact ⟨fun _ hy ↦ hy, fun y _ hy ↦ hown y hy,
        fun y ldy hey ↦ ⟨_, hslabs.desc hey, rfl, rfl, rfl⟩⟩
  · refine ⟨a, g.lists, ?_, hi, rfl, Extends.refl a g, fun _ hy ↦ hy⟩
    simp [addListDescriptor, hderef, hget]

/-- **`NewListDescriptor` adds a slab**, as long as the first page has room. -/
theorem newListDescriptor_spec (hi : a.Inv g) (hroom : a.Room)
    (hc : (ListDescriptor.new 0 base size pages).InSpace)
    (hlinks : (ListDescriptor.new 0 base size pages).LinksInside)
    (hfree : ∀ d ∈ g.slabs, ∀ y, base ≤ y → y < base + 0x1000 * pages.toNat →
      a.heap.contains y d = false) :
    ∃ x a' g', a.newListDescriptor base size pages = .ok (x, a') ∧ a'.Inv g' ∧
      Extends a g a' g' := by
  obtain ⟨x, a₁, hall, hi₁, hhand, -, -, hin⟩ := hi.allocateFrom_buffer64 hroom
  obtain ⟨hx0, hlt, -, hslab, -⟩ := hi₁.of_free_place hhand.notOwn hin
  have hfree₁ : ∀ d ∈ g.slabs, ∀ y, base ≤ y → y < base + 0x1000 * pages.toNat →
      a₁.heap.contains y d = false := fun d hd y h1 h2 ↦ by
    obtain ⟨ld, he⟩ := Option.isSome_iff_exists.mp ((hi.descs d).mp hd)
    rw [hhand.contains_eq he, hfree d hd y h1 h2]
  obtain ⟨h', ld, hset, hself, ⟨hused, htotal⟩, hi₂, hold⟩ :=
    hi₁.setupLinkage_new List.mem_cons_self hhand.notOwn hin hc hlinks hfree₁
  obtain ⟨a', lists, hadd, hi', -, hext, hown⟩ := hi₂.addListDescriptor_new hself ⟨hx0, hlt⟩
    (fun h0 ↦ hslab (h0 ▸ hi₁.base_mem)) (fun p hp h0 ↦ hslab (hi₁.mem_slabs hp h0)) hused htotal
  refine ⟨x, a', _, ?_, hi', fun y hy ↦ hext.live y (hhand.live y hy), fun y hy h0 ↦ ?_,
    fun d ld hd ↦ ?_⟩
  · simp only [newListDescriptor, hall, Exec.ok_bind, constructList, if_neg hx0, hset, hadd,
      Exec.pure_eq]
  · -- the only new object is the descriptor
    have hyx : y ≠ x := fun hyx ↦ hhand.new.2.1 (hyx ▸ hy)
    refine hhand.own y hy ((hown y h0).imp (fun h1 ↦ ?_) id)
    rwa [← hold y hyx]
  · obtain ⟨ld₁, hd₁, hb, hp, hs⟩ := hhand.region d ld hd
    have hdx : d ≠ x := fun hdx ↦ hslab ((hi₁.descs x).mpr (by rw [← hdx, hd₁]; rfl))
    obtain ⟨ld₂, hd₂, hb', hp', hs'⟩ := hext.region d ld₁ ((hold d hdx).trans hd₁)
    exact ⟨ld₂, hd₂, hb'.trans hb, hp'.trans hp, hs'.trans hs⟩

/-- `NewListDescriptor` when the first page is used up. -/
theorem newListDescriptor_last (hi : a.Inv g) (hroom : ¬a.Room) (base : ℕ) (size : UInt16)
    (pages : UInt8) : ∃ e, a.newListDescriptor base size pages = .error e := by
  obtain ⟨e, hall⟩ := hi.allocateFrom_buffer64_last hroom
  exact ⟨e, by simp [newListDescriptor, hall]⟩

/-! ## Objects -/

/-- There is at most one buffer that may have space. -/
theorem hasSpace_iff {n : ℕ} (hi : a.Inv g) (hp : p ∈ a.buffer64 :: g.ring)
    (hb : a.buffers p = some b) (hsize : b.bufferSize = n) : a.HasSpace n ↔
      if p = a.buffer64 then a.Room else b.partialLists ≠ 0 ∨ b.freeLists ≠ 0 := by
  constructor
  · rintro ⟨q, c, hq, hc, hcs, hspace⟩
    obtain rfl : q = p := hi.sizes q (hi.ring.mem_iff_iterate.mpr hq) p hp c b hc hb
      (hcs.trans hsize.symm)
    obtain rfl : c = b := Option.some.inj (hc.symm.trans hb)
    exact hspace
  · exact fun hspace ↦ ⟨p, b, hi.ring.mem_iff_iterate.mp hp, hb, hsize, hspace⟩

/-- **`AllocateObject` hands out an object exactly when there is space.**  Otherwise it answers null
or follows the link of the first descriptor; in particular it makes no slab. -/
theorem allocateObject_cases (hi : a.Inv g) (bytes : ℕ) :
    (a.HasSpace (bytes % 2 ^ 16) ∧ ∃ x a' g', a.allocateObject bytes = .ok (x, a') ∧ a'.Inv g' ∧
      Handed a g a' g' x (bytes % 2 ^ 16)) ∨
    (¬a.HasSpace (bytes % 2 ^ 16) ∧
      ((∃ a' g', a.allocateObject bytes = .ok (0, a') ∧ a'.Inv g' ∧ Extends a g a' g') ∨
        (a.TakesFirst (bytes % 2 ^ 16) ∧ ¬a.Room ∧ ∃ e, a.allocateObject bytes = .error e))) := by
  have hnat : (UInt16.ofNat bytes).toNat = bytes % 2 ^ 16 := UInt16.toNat_ofNat'
  rcases hi.getBuffer_cases (UInt16.ofNat bytes).toNat with
    ⟨p, hp, b, hb, hsize, hget⟩ | ⟨hget, hnone⟩
  · have hobj : a.allocateObject bytes = a.allocateFrom p := by
      simp only [allocateObject, hget, Exec.ok_bind, if_pos (hi.ne_zero hp)]
    rw [hobj, ← hnat, hi.hasSpace_iff hp hb hsize]
    rcases List.mem_cons.mp hp with rfl | hpr
    · -- 64 bytes
      rw [if_pos rfl]
      by_cases hroom : a.Room
      · obtain ⟨x, a', hall, hi', hhand, -⟩ := hi.allocateFrom_buffer64 hroom
        obtain ⟨c, hc, h64, -⟩ := hi.buffer64
        obtain rfl : c = b := Option.some.inj (hc.symm.trans hb)
        exact .inl ⟨hroom, x, a', _, hall, hi', by rwa [← hsize, h64]⟩
      · exact .inr ⟨hroom, .inr ⟨.inl (hnat ▸ hget), hroom, hi.allocateFrom_buffer64_last hroom⟩⟩
    · rw [if_neg (hi.of_mem_ring hpr).1]
      by_cases hspace : b.partialLists ≠ 0 ∨ b.freeLists ≠ 0
      · obtain ⟨x, a', g', hall, hi', hhand⟩ := hi.allocateFrom_ring hpr hb hspace
        exact .inl ⟨hspace, x, a', g', hall, hi', hsize ▸ hhand⟩
      · obtain ⟨hpart, hfree⟩ := not_or.mp hspace
        exact .inr ⟨hspace, .inl ⟨a, g,
          hi.allocateFrom_full hpr hb (not_not.mp hpart) (not_not.mp hfree), hi,
          Extends.refl a g⟩⟩
  · -- no buffer of the size: one is made, and it has no slab
    refine .inr ⟨?_, ?_⟩
    · rintro ⟨q, c, hq, hc, hcs, -⟩
      exact hnone q (hi.ring.mem_iff_iterate.mpr hq) c hc (hcs.trans hnat.symm)
    · by_cases hroom : a.Room
      · obtain ⟨x, a', hnew, -, hi', hext, b, hb, -, hpart, hfree⟩ :=
          hi.newBuffer_spec hroom hget hnone
        refine .inl ⟨a', _, ?_, hi', hext⟩
        simp only [allocateObject, hget, Exec.ok_bind, ne_eq, not_true_eq_false, if_false, hnew,
          hi'.allocateFrom_full (g.mem_withBuffer x) hb hpart hfree]
      · obtain ⟨e, hnew⟩ := hi.newBuffer_last hroom hget
        refine .inr ⟨.inr (hnat ▸ hget), hroom, e, ?_⟩
        simp only [allocateObject, hget, Exec.ok_bind, ne_eq, not_true_eq_false, if_false, hnew,
          Exec.error_bind]

end Inv

end Allocator

end Chisaka.Slab
