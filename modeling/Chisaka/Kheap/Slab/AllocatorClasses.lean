import Chisaka.Kheap.Slab.ListDescriptorLinks
import Chisaka.Kheap.Slab.AllocatorRuns

/-!
# A buffer, a slab for it, and an object from the slab

`NewBuffer(size)` makes a buffer, `NewListDescriptor(base, size, pages)` gives it a slab, and
`AllocateObject(size)` then finds the one through the other.  Each of the three has its own idea of
the size:

* a descriptor is made for eight bytes at least, a buffer for as many as were asked for, so that the
  descriptor of a smaller size is not put on the buffer of that size;
* a descriptor counts its buffers with 16 bits, and a slab of 65536 buffers has none;
* `SetupLinkage` computes the places of the buffers with 64 bits, and behind the top of the address
  space goes on at its bottom.

`Allocator.Serves` is what one expects of the three calls, and `newListDescriptor_serves_iff` says
when it is so.
-/

set_option autoImplicit false

namespace Chisaka.Slab

open Bytes

namespace ListDescriptor

variable {ld : ListDescriptor} {this base : ℕ} {size : UInt16} {pages : UInt8}

/-- Below the top of the address space the walk of `SetupLinkage` ends. -/
theorem Made.ends (h : ld.Made) (hb : ld.baseAddress ≠ 0)
    (htop : ld.baseAddress + ld.linked * ld.bufferSize < 2 ^ 64) : ld.Ends := by
  obtain ⟨hlt, hsucc, hge⟩ := h.mul_linked
  have hlimit : ld.limit = ld.baseAddress + 0x1000 * ld.pages := add64_of_lt (by omega)
  have hlinked : 1 ≤ ld.linked := Nat.succ_le_succ (Nat.zero_le _)
  have hsize := h.size_le
  have hle : ld.linked ≤ ld.linked * ld.bufferSize := Nat.le_mul_of_pos_right _ (by omega)
  refine ⟨ld.linked - 1, by omega, fun i hi ↦ h.goesOn hb hlimit (by omega), ?_, ?_⟩
  · rw [place_of_lt (by omega)]
    omega
  · rw [Nat.sub_add_cancel hlinked, place_of_lt htop, hlimit]
    omega

/-- From null the walk does not end. -/
theorem Ends.base_ne (h : ld.Ends) (hb : ld.baseAddress < 2 ^ 64) : ld.baseAddress ≠ 0 := by
  obtain ⟨n, -, hgo, h0, -⟩ := h
  rw [← place_zero hb]
  cases n with
  | zero => exact h0
  | succ n => exact (hgo 0 (Nat.succ_pos n)).1

/-- **The walk ends, and never comes below the base**, exactly if the last buffer ends below the top
of the address space. -/
theorem Made.ends_above_iff (h : ld.Made)
    (hlimit : ld.baseAddress + 0x1000 * ld.pages < 2 ^ 64) :
    (ld.Ends ∧ ∀ mem c, ld.Writes mem c → ld.baseAddress ≤ c) ↔
      ld.baseAddress ≠ 0 ∧ ld.baseAddress + ld.linked * ld.bufferSize < 2 ^ 64 := by
  constructor
  · rintro ⟨hends, habove⟩
    have hb := hends.base_ne h.base_lt
    refine ⟨hb, ?_⟩
    by_contra hwrap
    obtain ⟨c, hc, hw⟩ := h.writes_wrapped hb (add64_of_lt hlimit) (not_lt.mp hwrap) fun _ ↦ 0
    exact absurd (habove _ c hw) (not_le.mpr hc)
  · rintro ⟨hb, htop⟩
    refine ⟨h.ends hb htop, fun mem c hw ↦ ?_⟩
    obtain ⟨i, -, rfl⟩ := (h.writes_iff hb htop).mp hw
    exact Nat.le_add_right _ _

/-- A slab that is not full hands out its first free buffer. -/
theorem allocate_first (hne : ld.buffersUsed ≠ ld.totalBuffers) (hfree : ld.nextFree ≠ 0)
    (mem : Memory) : ∃ ld', ld.allocate mem = .ok (ld.nextFree, ld') := by
  simp only [allocate, if_neg hne, load_of_ne hfree, Exec.ok_bind, Exec.pure_eq]
  exact ⟨_, rfl⟩

/-- A new descriptor after `SetupLinkage`. -/
def setUp (this base : ℕ) (size : UInt16) (pages : UInt8) : ListDescriptor :=
  { new this base size pages with nextFree := base }

/-- **The number of buffers wraps around to zero** exactly if it is 65536. -/
theorem totalBuffers_eq_zero_iff (h8 : 8 ≤ size.toNat)
    (hpages : size.toNat ≤ 0x1000 * pages.toNat) :
    pages.toNat * 0x1000 / size.toNat % 2 ^ 16 = 0 ↔ pages.toNat = 16 * size.toNat := by
  have hp := pages.toNat_lt
  have hs := size.toNat_lt
  have hdiv := Nat.div_add_mod (pages.toNat * 0x1000) size.toNat
  have hmod := Nat.mod_lt (pages.toNat * 0x1000) (show 0 < size.toNat by omega)
  set n := pages.toNat * 0x1000 / size.toNat with hn
  constructor
  · intro h0
    -- there is one buffer at least, and there are not twice 65536
    have hpos : 0 < n := Nat.div_pos (by omega) (by omega)
    have hlt : n < 2 * 2 ^ 16 := by
      rw [hn, Nat.div_lt_iff_lt_mul (by omega)]
      omega
    obtain hn' : n = 2 ^ 16 := by omega
    rw [hn'] at hdiv
    omega
  · intro hk
    obtain hn' : n = 2 ^ 16 := by
      rw [hn, hk]
      exact Nat.div_eq_of_eq_mul_left (by omega) (by ring)
    rw [hn', Nat.mod_self]

end ListDescriptor

namespace Allocator

variable {a a₁ a' : Allocator} {g : Layout} {b b' : Buffer} {p x base : ℕ} {size : UInt16}
  {pages : UInt8} {h : Heap}

/-! ## What the three calls are for -/

/-- The descriptor at `x` is on one of the rings of the buffer at `p`. -/
def Attached (a : Allocator) (p x : ℕ) : Prop :=
  ∃ b k n, a.buffers p = some b ∧ b.head k ≠ 0 ∧ a.heap.next^[n] (b.head k) = x

/-- The eight bytes at `c` belong to no descriptor and to no buffer. -/
def Spares (a : Allocator) (c : ℕ) : Prop :=
  (∀ d, (a.heap.descs d).isSome → AllocatorRun.Apart c 8 d sizeofListDescriptor) ∧
    ∀ x, (a.buffers x).isSome → AllocatorRun.Apart c 8 x sizeofBuffer

/-- **The new slab serves its size**: its links are written from the base on upwards, and not into
descriptors and buffers; the descriptor is put on the buffer at `p`, which is the one for the size;
and the next object of the size lies between the base and the limit, as the code computes it. -/
def Serves (a : Allocator) (p base : ℕ) (size : UInt16) (pages : UInt8) : Prop :=
  (∀ mem c, (ListDescriptor.new 0 base size pages).Writes mem c → base ≤ c ∧ a.Spares c) ∧
    ∃ x a', a.newListDescriptor base size pages = .ok (x, a') ∧
      a'.getBuffer size.toNat = .ok p ∧ a'.Attached p x ∧
      ∃ y a'', a'.allocateObject size.toNat = .ok (y, a'') ∧
        base ≤ y ∧ y < add64 base (0x1000 * pages.toNat)

/-! ## `GetBuffer` looks at the buffers only -/

/-- Assigning to the rings of a buffer does not change which buffer is found. -/
theorem getBuffer_put (hb : a.buffers p = some b) (hcls : b.SameClass b') (h : Heap) (n : ℕ) :
    getBuffer { a with heap := h, buffers := a.buffers.put p b' } n = a.getBuffer n := by
  have hbody : getBufferBody { a with heap := h, buffers := a.buffers.put p b' } n
      = a.getBufferBody n := by
    funext it
    by_cases hit : it = p
    · subst hit
      by_cases h0 : it = 0
      · simp [getBufferBody, Buffers.deref, h0]
      · simp [getBufferBody, Buffers.deref, h0, hb, Buffers.put_self, hcls.bufferSize,
          hcls.nextBuffer]
    · simp [getBufferBody, Buffers.deref, Buffers.put_of_ne _ _ hit]
  rw [getBuffer, hbody]
  rfl

/-- `NewListDescriptor` after its object was allocated. -/
theorem newListDescriptor_eq (hall : a.allocateFrom a.buffer64 = .ok (x, a₁)) (hx : x ≠ 0)
    (base : ℕ) (size : UInt16) (pages : UInt8) : a.newListDescriptor base size pages =
      ((ListDescriptor.new x base size pages).setupLinkage a₁.heap.mem >>= fun r ↦
        addListDescriptor { a₁ with heap := a₁.heap.setSlab x r.1 r.2 } x >>= fun a' ↦
          .ok (x, a')) := by
  simp only [newListDescriptor, hall, Exec.ok_bind, constructList, if_neg hx,
    Heap.setupLinkage_put hx, Exec.pure_eq]
  cases (ListDescriptor.new x base size pages).setupLinkage a₁.heap.mem <;> rfl

/-! ## The first slab of a buffer -/

/-- What is on the rings of a buffer is attached to it. -/
theorem attached_of_mem {L : ListKind → List ℕ} (hb : a.buffers p = some b)
    (hs : Sorted b a.heap L) (hx : x ∈ members L) : a.Attached p x := by
  obtain ⟨k, hk⟩ := mem_members.mp hx
  obtain ⟨d, l, hL⟩ := List.exists_cons_of_ne_nil (List.ne_nil_of_mem hk)
  have hhead : b.head k = d := by rw [hs.head k, hL, List.headD_cons]
  have hne : b.head k ≠ 0 := hs.head_ne_zero.mpr (List.ne_nil_of_mem hk)
  obtain ⟨n, hn⟩ := (hL ▸ hs.ring k).mem_iff_iterate.mp (hL ▸ hk)
  exact ⟨b, k, n, hb, hne, hhead ▸ hn⟩

/-- Nothing is attached to a buffer without rings. -/
theorem not_attached (hb : a.buffers p = some b) (hs : Sorted b h fun _ ↦ []) :
    ¬a.Attached p x := by
  rintro ⟨c, k, n, hc, hne, -⟩
  obtain rfl := Option.some.inj (hb.symm.trans hc)
  exact hs.head_ne_zero.mp hne rfl

/-- The one slab of a buffer, right after it was added. -/
structure FirstSlab (a : Allocator) (p x : ℕ) (size : UInt16) (ld : ListDescriptor) : Prop where
  /-- The buffer is the one for the size, -/
  get : a.getBuffer size.toNat = .ok p
  /-- and has nothing but the slab on its rings. -/
  sorted : p ≠ 0 ∧ ∃ b L, a.buffers p = some b ∧ Sorted b a.heap L ∧ ∀ y, y ∈ members L ↔ y = x
  /-- The descriptor is what `SetupLinkage` made it, but for its links. -/
  desc : ∃ n r, a.heap.descs x = some { ld with nextList := n, prevList := r }

/-- **`AddListDescriptor` of a descriptor for an empty buffer.** -/
theorem addListDescriptor_first {ld : ListDescriptor} (hget : a.getBuffer size.toNat = .ok p)
    (hp0 : p ≠ 0) (hb : a.buffers p = some b) (hbs : b.bufferSize = size.toNat)
    (hs : Sorted b a.heap fun _ ↦ []) (he : a.heap.descs x = some ld) (haddr : x ≠ 0 ∧ x < 2 ^ 64)
    (hsize : ld.bufferSize = size.toNat) (hused : ld.buffersUsed = 0)
    (htotal : ld.totalBuffers < 2 ^ 16) :
    ∃ a', a.addListDescriptor x = .ok a' ∧ a'.FirstSlab p x size ld := by
  obtain ⟨b', h', L, hadd, hslabs, hs', hmem, -, hcls⟩ := hs.addList (by simp [members]) haddr he
    (hsize.trans hbs.symm) (hused ▸ Nat.zero_le _) htotal
  refine ⟨{ a with heap := h', buffers := a.buffers.put p b' }, ?_, ?_, ?_, ?_⟩
  · have hderef : a.heap.deref x = .ok ld := Heap.deref_eq haddr.1 he
    simp [addListDescriptor, hderef, hsize, hget, hp0, addListTo, Buffers.deref_eq hp0 hb, hadd]
  · rw [getBuffer_put hb hcls, hget]
  · refine ⟨hp0, b', L, Buffers.put_self _ _ _, hs', fun y ↦ ?_⟩
    rw [hmem]
    simp [members]
  · exact ⟨_, _, hslabs.desc he⟩

namespace FirstSlab

variable {ld : ListDescriptor}

theorem attached (hf : a.FirstSlab p x size ld) : a.Attached p x := by
  obtain ⟨-, b, L, hb, hs, hmem⟩ := hf.sorted
  exact attached_of_mem hb hs ((hmem x).mpr rfl)

theorem allocateObject_eq (hf : a.FirstSlab p x size ld) :
    a.allocateObject size.toNat = a.allocateFrom p := by
  simp only [allocateObject, UInt16.ofNat_toNat, hf.get, Exec.ok_bind, if_pos hf.sorted.1]

/-- A slab without buffers is full, and there is no object. -/
theorem allocateObject_zero (hf : a.FirstSlab p x size ld) (hused : ld.buffersUsed = 0)
    (h0 : ld.totalBuffers = 0) : ∃ a', a.allocateObject size.toNat = .ok (0, a') := by
  obtain ⟨hp0, b, L, hb, hs, hmem⟩ := hf.sorted
  obtain ⟨n, r, he⟩ := hf.desc
  have hkind : ∀ k, x ∈ L k → k = .fullLists := fun k hk ↦ by
    obtain ⟨ld', he', rfl, -⟩ := hs.kind k x hk
    obtain rfl := Option.some.inj (he.symm.trans he')
    exact ListDescriptor.kind_eq_fullLists.mpr (h0.trans hused.symm)
  have hnil : ∀ k, k ≠ .fullLists → L k = [] := fun k hk ↦ by
    refine List.eq_nil_iff_forall_not_mem.mpr fun d hd ↦ ?_
    obtain rfl : d = x := (hmem d).mp (mem_members.mpr ⟨k, hd⟩)
    exact hk (hkind k hd)
  have hall : b.allocate a.heap = .ok (0, b, a.heap) :=
    hs.allocate_full (by rw [hnil _ (by decide), hnil _ (by decide), List.append_nil])
  exact ⟨_, by rw [hf.allocateObject_eq, allocateFrom, Buffers.deref_eq hp0 hb, Exec.ok_bind, hall,
    Exec.ok_bind]; rfl⟩

/-- **The first object is the first buffer of the slab.** -/
theorem allocateObject_first (hf : a.FirstSlab p x size ld) (hused : ld.buffersUsed = 0)
    (h0 : ld.totalBuffers ≠ 0) (hfree : ld.nextFree ≠ 0) :
    ∃ a', a.allocateObject size.toNat = .ok (ld.nextFree, a') := by
  obtain ⟨hp0, b, L, hb, hs, hmem⟩ := hf.sorted
  obtain ⟨n, r, he⟩ := hf.desc
  obtain ⟨k, hk⟩ := mem_members.mp ((hmem x).mpr rfl)
  obtain rfl : k = .freeLists := by
    obtain ⟨ld', he', rfl, -⟩ := hs.kind k x hk
    obtain rfl := Option.some.inj (he.symm.trans he')
    exact ListDescriptor.kind_eq_freeLists.mpr ⟨fun h1 ↦ h0 (h1.trans hused), hused⟩
  obtain ⟨d, l, hL⟩ := List.exists_cons_of_ne_nil
    (List.ne_nil_of_mem (List.mem_append_right (L .partialLists) hk))
  obtain rfl : d = x := by
    have hd : d ∈ L .partialLists ++ L .freeLists := hL ▸ List.mem_cons_self
    exact (hmem d).mp (mem_members.mpr ((List.mem_append.mp hd).elim (fun h1 ↦ ⟨_, h1⟩)
      fun h1 ↦ ⟨_, h1⟩))
  obtain ⟨ld₁, he₁, hlt, -, hok⟩ := hs.allocate_spec hL
  obtain rfl := Option.some.inj (he.symm.trans he₁)
  obtain ⟨ld', hal⟩ := ListDescriptor.allocate_first (Nat.ne_of_lt hlt) hfree a.heap.mem
  obtain ⟨b', h', hall, -⟩ := hok _ _ hal
  exact ⟨_, by rw [hf.allocateObject_eq, allocateFrom, Buffers.deref_eq hp0 hb, Exec.ok_bind, hall,
    Exec.ok_bind]; rfl⟩

end FirstSlab

/-! ## After `NewBuffer` -/

namespace Inv

/-- **The object of a new descriptor**, and a buffer without slabs. -/
theorem allocateFrom_empty (hi : a.Inv g) (hroom : a.Room) (hp : p ∈ g.ring)
    (hb : a.buffers p = some b) (hbs : b.bufferSize = size.toNat)
    (hlists : g.lists p = fun _ ↦ []) :
    ∃ x a₁ b₁, a.allocateFrom a.buffer64 = .ok (x, a₁) ∧ (x ≠ 0 ∧ x < 2 ^ 64) ∧
      a₁.buffers p = some b₁ ∧ b₁.bufferSize = size.toNat ∧ (∀ h, Sorted b₁ h fun _ ↦ []) ∧
      ∀ n, ∃ q, a₁.getBuffer n = .ok q ∧ (q = p ↔ n = size.toNat) := by
  obtain ⟨x, a₁, hall, hi₁, hhand, h64, hsame, hin⟩ := hi.allocateFrom_buffer64 hroom
  obtain ⟨hx0, hxlt, -⟩ := hi₁.of_free_place hhand.notOwn hin
  have hp₁ : p ∈ a₁.buffer64 :: g.ring := List.mem_cons_of_mem _ hp
  have hne : p ≠ a₁.buffer64 := h64 ▸ (hi.of_mem_ring hp).1
  obtain ⟨b₁, hb₁, hs⟩ := hi₁.sorted p hp₁
  rw [own, if_neg hne, show Layout.lists { g with live := x :: g.live } p = fun _ ↦ [] from hlists]
    at hs
  have hbs₁ : b₁.bufferSize = size.toNat := by
    have hsz := hsame p size.toNat
    simpa [hasSize, hb, hb₁, hbs] using hsz
  refine ⟨x, a₁, b₁, hall, ⟨hx0, hxlt⟩, hb₁, hbs₁,
    fun h ↦ hs.congr fun d hd ↦ by simp [members] at hd, fun n ↦ ?_⟩
  rcases hi₁.getBuffer_cases n with ⟨q, hq, c, hc, hcs, hget⟩ | ⟨hget, hnone⟩
  · refine ⟨q, hget, ?_, fun hn ↦ hi₁.sizes q hq p hp₁ c b₁ hc hb₁ (hcs.trans (hn.trans hbs₁.symm))⟩
    rintro rfl
    obtain rfl := Option.some.inj (hc.symm.trans hb₁)
    exact hcs.symm.trans hbs₁
  · refine ⟨0, hget, fun h0 ↦ absurd h0.symm (hi₁.ne_zero hp₁), fun hn ↦ ?_⟩
    exact absurd (hbs₁.trans hn.symm) (hnone p hp₁ b₁ hb₁)

/-- A descriptor of another size is not attached to the buffer. -/
theorem not_attached_of_ne {ld : ListDescriptor} {q : ℕ} (hb : a.buffers p = some b)
    (hs : ∀ h, Sorted b h fun _ ↦ []) (he : a.heap.deref x = .ok ld)
    (hget : a.getBuffer ld.bufferSize = .ok q) (hqp : q ≠ p)
    (hadd : a.addListDescriptor x = .ok a') : ¬a'.Attached p x := by
  rw [addListDescriptor, he, Exec.ok_bind, hget, Exec.ok_bind] at hadd
  split at hadd
  · cases hadd
    exact not_attached hb (hs a.heap)
  · obtain ⟨c, -, hadd⟩ := Exec.bind_eq_ok.mp hadd
    obtain ⟨⟨c', h'⟩, -, hadd⟩ := Exec.bind_eq_ok.mp hadd
    cases hadd
    exact not_attached ((Buffers.put_of_ne _ _ hqp.symm).trans hb) (hs a.heap)

/-- **The first slab of a buffer**, of eight bytes at least, is put on its rings. -/
theorem newListDescriptor_first (hi : a.Inv g) (hp : p ∈ g.ring) (hb : a.buffers p = some b)
    (hbs : b.bufferSize = size.toNat) (hlists : g.lists p = fun _ ↦ []) (hbase : base < 2 ^ 64)
    (h8 : 8 ≤ size.toNat) (hroom : a.Room) (hends : (ListDescriptor.new 0 base size pages).Ends) :
    ∃ x a', a.newListDescriptor base size pages = .ok (x, a') ∧
      a'.FirstSlab p x size (ListDescriptor.setUp x base size pages) := by
  obtain ⟨x, a₁, b₁, hall, haddr, hb₁, hbs₁, hs₁, hget⟩ :=
    hi.allocateFrom_empty hroom hp hb hbs hlists
  have hp0 : p ≠ 0 := hi.ne_zero (List.mem_cons_of_mem _ hp)
  obtain ⟨⟨m, ld⟩, hset⟩ := (ListDescriptor.setupLinkage_returns_iff hbase a₁.heap.mem).mpr
    (show (ListDescriptor.new x base size pages).Ends from hends)
  obtain rfl : ld = .setUp x base size pages := ListDescriptor.nextFree_setupLinkage hset
  have hsize := @ListDescriptor.new_bufferSize x base size pages h8
  obtain ⟨q, hq, hqp⟩ := hget size.toNat
  obtain rfl : q = p := hqp.mpr rfl
  obtain ⟨a', hadd, hf⟩ := addListDescriptor_first
    (a := { a₁ with heap := a₁.heap.setSlab x m (.setUp x base size pages) }) hq hp0 hb₁ hbs₁
    (hs₁ _) (Heap.descs_setSlab_self a₁.heap x m _) haddr hsize rfl (Nat.mod_lt _ (by decide))
  exact ⟨x, a', by rw [newListDescriptor_eq hall haddr.1, hset, Exec.ok_bind, hadd, Exec.ok_bind],
    hf⟩

/-- What is known when `NewListDescriptor` has returned. -/
theorem newListDescriptor_returned (hi : a.Inv g) (hp : p ∈ g.ring) (hb : a.buffers p = some b)
    (hbs : b.bufferSize = size.toNat) (hlists : g.lists p = fun _ ↦ []) (hbase : base < 2 ^ 64)
    (hok : a.newListDescriptor base size pages = .ok (x, a')) :
    a.Room ∧ (ListDescriptor.new 0 base size pages).Ends ∧
      (a'.Attached p x → 8 ≤ size.toNat) := by
  by_cases hroom : a.Room
  · obtain ⟨y, a₁, b₁, hall, haddr, hb₁, hbs₁, hs₁, hget⟩ :=
      hi.allocateFrom_empty hroom hp hb hbs hlists
    rw [newListDescriptor_eq hall haddr.1] at hok
    obtain ⟨⟨m, ld⟩, hset, hok⟩ := Exec.bind_eq_ok.mp hok
    obtain ⟨a₃, hadd, hok⟩ := Exec.bind_eq_ok.mp hok
    cases hok
    have hends : (ListDescriptor.new x base size pages).Ends :=
      (ListDescriptor.setupLinkage_returns_iff hbase a₁.heap.mem).mp ⟨_, hset⟩
    refine ⟨hroom, hends, fun hatt ↦ ?_⟩
    -- a descriptor has eight bytes at least
    by_contra h8
    obtain rfl : ld = .setUp x base size pages := ListDescriptor.nextFree_setupLinkage hset
    have hle := @ListDescriptor.le_new_bufferSize x base size pages
    obtain ⟨q, hq, hqp⟩ := hget (ListDescriptor.setUp x base size pages).bufferSize
    have hderef : Heap.deref (a₁.heap.setSlab x m (.setUp x base size pages)) x
        = .ok (.setUp x base size pages) :=
      Heap.deref_eq haddr.1 (Heap.descs_setSlab_self a₁.heap x m _)
    exact not_attached_of_ne (a := { a₁ with
      heap := a₁.heap.setSlab x m (.setUp x base size pages) }) hb₁ hs₁ hderef hq
        (fun h0 ↦ h8 (hqp.mp h0 ▸ hle)) hadd hatt
  · obtain ⟨e, hnew⟩ := hi.newListDescriptor_last hroom base size pages
    rw [hnew] at hok
    cases hok

/-- An object of the allocator ends in the first page. -/
theorem own_le (hi : a.Inv g) (hx : a.IsOwn x) : x + 64 ≤ g.base + 0x1000 := by
  obtain ⟨n, u, -, he⟩ := hi.first
  obtain ⟨hl, hc⟩ := hi.placed x hx
  obtain ⟨hsized, hslot⟩ := hi.slabs.mem_slots_of_live hi.base_mem he hl hc
  have hle : x + 64 ≤ g.base + 64 * 64 := (hsized.bounds hslot).2
  omega

/-- Behind the first page there is nothing of the allocator but `m_buffer64`. -/
theorem spares (hi : a.Inv g) {c : ℕ} (hc : g.base + 0x1000 ≤ c)
    (h64 : a.buffer64 + sizeofBuffer ≤ c) : a.Spares c := by
  refine ⟨fun d hd ↦ .inr ?_, fun y hy ↦ .inr ?_⟩
  · have hle := hi.own_le (.inl hd)
    rw [sizeofListDescriptor]
    omega
  · by_cases hy64 : y = a.buffer64
    · exact hy64 ▸ h64
    · have hle := hi.own_le (.inr ⟨hy64, hy⟩)
      rw [sizeofBuffer]
      omega

/-- **When a new slab serves its size**, in a state in which the buffer has no slab yet. -/
theorem serves_iff {base : UInt64} (hi : a.Inv g) (hp : p ∈ g.ring) (hb : a.buffers p = some b)
    (hbs : b.bufferSize = size.toNat) (hlists : g.lists p = fun _ ↦ [])
    (hpages : size.toNat ≤ 0x1000 * pages.toNat) : a.Serves p base.toNat size pages ↔
      8 ≤ size.toNat ∧ pages.toNat ≠ 16 * size.toNat ∧ a.Room ∧ base.toNat ≠ 0 ∧
        base.toNat + ((0x1000 * pages.toNat - 1) / size.toNat + 1) * size.toNat < 2 ^ 64 ∧
        ∀ i < (0x1000 * pages.toNat - 1) / size.toNat + 1,
          a.Spares (base.toNat + i * size.toNat) := by
  have hbase := base.toNat_lt
  have htotal : ∀ x, 8 ≤ size.toNat →
      ((ListDescriptor.new x base.toNat size pages).totalBuffers = 0 ↔
        pages.toNat = 16 * size.toNat) := fun x h8 ↦ by
    rw [← ListDescriptor.totalBuffers_eq_zero_iff h8 hpages,
      ← @ListDescriptor.new_bufferSize x base.toNat size pages h8]
    rfl
  have hmade : 8 ≤ size.toNat → (ListDescriptor.new 0 base.toNat size pages).Made := fun h8 ↦
    ListDescriptor.made_new 0 base size (UInt8.le_iff_toNat_le.mpr (by simp; omega))
  have hlinked : 8 ≤ size.toNat → (ListDescriptor.new 0 base.toNat size pages).linked =
      (0x1000 * pages.toNat - 1) / size.toNat + 1 := fun h8 ↦ by
    rw [ListDescriptor.linked, ListDescriptor.new_bufferSize h8]
    rfl
  constructor
  · rintro ⟨hwrites, x, a', hok, -, hatt, y, a'', hobj, hy, hlimit⟩
    obtain ⟨hroom, hends, himp⟩ := hi.newListDescriptor_returned hp hb hbs hlists hbase hok
    have h8 := himp hatt
    -- the limit is above the base, and so the pages end below the top
    have htop : base.toNat + 0x1000 * pages.toNat < 2 ^ 64 := by
      have hlt := pages.toNat_lt
      rw [add64] at hlimit
      omega
    obtain ⟨hne, hlast⟩ :=
      ((hmade h8).ends_above_iff htop).mp ⟨hends, fun mem c hc ↦ (hwrites mem c hc).1⟩
    have hplaces := fun (mem : Memory) (c : ℕ) ↦
      @ListDescriptor.Made.writes_iff _ mem c (hmade h8) hne hlast
    rw [hlinked h8, ListDescriptor.new_bufferSize h8] at hplaces hlast
    refine ⟨h8, fun hk ↦ ?_, hroom, hne, hlast, fun i hlt ↦
      (hwrites (fun _ ↦ 0) _ ((hplaces _ _).mpr ⟨i, hlt, rfl⟩)).2⟩
    -- a slab without buffers answers null
    obtain ⟨x₁, a₁, hok₁, hf⟩ := hi.newListDescriptor_first hp hb hbs hlists hbase h8 hroom hends
    obtain ⟨rfl, rfl⟩ := Prod.mk.inj (Except.ok.inj (hok₁.symm.trans hok))
    obtain ⟨a₂, hzero⟩ := hf.allocateObject_zero rfl ((htotal x₁ h8).mpr hk)
    obtain ⟨rfl, -⟩ := Prod.mk.inj (Except.ok.inj (hzero.symm.trans hobj))
    exact hne (Nat.le_zero.mp hy)
  · rintro ⟨h8, hk, hroom, hne, hlast, hspares⟩
    rw [← hlinked h8, ← @ListDescriptor.new_bufferSize 0 base.toNat size pages h8] at hlast hspares
    have hends := (hmade h8).ends hne hlast
    obtain ⟨-, -, hge⟩ := (hmade h8).mul_linked
    have htop : add64 base.toNat (0x1000 * pages.toNat) = base.toNat + 0x1000 * pages.toNat :=
      add64_of_lt (Nat.lt_of_le_of_lt (Nat.add_le_add_left hge _) hlast)
    obtain ⟨x, a', hok, hf⟩ := hi.newListDescriptor_first hp hb hbs hlists hbase h8 hroom hends
    obtain ⟨a'', hobj⟩ :=
      hf.allocateObject_first rfl (mt (htotal x h8).mp hk) (hends.base_ne hbase)
    refine ⟨fun mem c hc ↦ ?_, x, a', hok, hf.get, hf.attached, base.toNat, a'', hobj,
      le_refl _, by omega⟩
    obtain ⟨i, hlt, rfl⟩ := ((hmade h8).writes_iff hne hlast).mp hc
    exact ⟨Nat.le_add_right _ _, hspares i hlt⟩

end Inv

end Allocator

open Allocator

/-! ## In a run -/

/-- **A buffer right after `NewBuffer` made it**: it has the size, and no slab. -/
theorem AllocatorRun.newBuffer_made {s s₁ : AllocatorRun}
    (hs : (allocatorMachine.restrict AllocatorRun.Fits).Reach s) {size : UInt16} {p : ℕ}
    (hnew : s.step (.newBuffer size) = .ok (p, s₁)) (hp : p ≠ 0) :
    ∃ g b, s₁.a.Inv g ∧ p ∈ g.ring ∧ s₁.a.buffers p = some b ∧ b.bufferSize = size.toNat ∧
      g.lists p = fun _ ↦ [] := by
  obtain ⟨g, hi⟩ := AllocatorRun.Inv.of_reach hs
  rcases hi.inv.getBuffer_cases size.toNat with ⟨q, hq, b, hb, -, hget⟩ | ⟨hget, hnone⟩
  · -- there has been a buffer of the size
    simp only [AllocatorRun.step, hi.inv.newBuffer_exists hq hget, Exec.ok_bind] at hnew
    cases hnew
    exact absurd rfl hp
  · by_cases hroom : s.a.Room
    · obtain ⟨x, a', hnew', -, hi', -, b, hb, hbs, -⟩ := hi.inv.newBuffer_spec hroom hget hnone
      simp only [AllocatorRun.step, hnew', Exec.ok_bind] at hnew
      cases hnew
      exact ⟨_, b, hi', g.mem_withBuffer _, hb, hbs, Function.update_self _ _ _⟩
    · obtain ⟨e, hnew'⟩ := hi.inv.newBuffer_last hroom hget
      simp only [AllocatorRun.step, hnew', Exec.error_bind] at hnew
      cases hnew

/-- **When a new slab serves the buffer that was made for it**: the size has eight bytes at least,
the slab has not 65536 buffers, the first page of the heap has room for the descriptor, the last
buffer ends below the top of the address space, and no link lies in a descriptor or in a buffer. -/
theorem newListDescriptor_serves_iff {s s₁ : AllocatorRun}
    (hs : (allocatorMachine.restrict AllocatorRun.Fits).Reach s) {size : UInt16} {p : ℕ}
    (hnew : s.step (.newBuffer size) = .ok (p, s₁)) (hp : p ≠ 0) {base : UInt64} {pages : UInt8}
    (_hk : s₁.Enabled (.newListDescriptor base.toNat size pages))
    (hpages : size.toNat ≤ 0x1000 * pages.toNat) :
    s₁.a.Serves p base.toNat size pages ↔ 8 ≤ size.toNat ∧ pages.toNat ≠ 16 * size.toNat ∧
      s₁.a.Room ∧ base.toNat ≠ 0 ∧
      base.toNat + ((0x1000 * pages.toNat - 1) / size.toNat + 1) * size.toNat < 2 ^ 64 ∧
      ∀ i < (0x1000 * pages.toNat - 1) / size.toNat + 1,
        s₁.a.Spares (base.toNat + i * size.toNat) := by
  obtain ⟨g, b, hi, hpr, hb, hbs, hlists⟩ := AllocatorRun.newBuffer_made hs hnew hp
  exact hi.serves_iff hpr hb hbs hlists hpages

/-- A start, and a buffer that is made then. -/
theorem exists_newBuffer (size : UInt16) (h64 : size.toNat ≠ 64) : ∃ s s₁ p,
    allocatorMachine.init s ∧ s.step (.newBuffer size) = .ok (p, s₁) ∧ p ≠ 0 ∧ s₁.a.Room ∧
      ∀ base, 0x2000 ≤ base → s₁.a.Spares base ∧
        ∀ pages, s₁.Enabled (.newListDescriptor base size pages) := by
  have hpage : PageApart 8 0x9000 0x1000 :=
    ⟨by decide, by decide, ⟨by decide, by decide⟩, ⟨by decide, by decide⟩⟩
  obtain ⟨a, x, hinit, hi, h64'⟩ := Inv.initAt_spec hpage (fun _ ↦ 0) (Buffer.new 0 0)
  have hroom : a.Room := hi.room_of_length (show 2 + 1 < 64 by decide)
  -- the one buffer is `Buffer64`
  have hnone : ∀ q ∈ a.buffer64 :: [], ∀ b, a.buffers q = some b → b.bufferSize ≠ size.toNat := by
    intro q hq b hb
    obtain ⟨c, hc, hsize, -⟩ := hi.buffer64
    obtain rfl : q = a.buffer64 := List.mem_singleton.mp hq
    obtain rfl := Option.some.inj (hb.symm.trans hc)
    rw [hsize]
    exact h64.symm
  have hget : a.getBuffer size.toNat = .ok 0 := by
    rcases hi.getBuffer_cases size.toNat with ⟨q, hq, b, hb, hsize, -⟩ | ⟨hget, -⟩
    · exact absurd hsize (hnone q hq b hb)
    · exact hget
  obtain ⟨p, a', hnew, ⟨hp, hsame⟩, hi', -⟩ := hi.newBuffer_spec hroom hget hnone
  refine ⟨⟨a, []⟩, ⟨a', []⟩, p, ⟨rfl, _, _, _, _, _, hpage, hinit⟩, ?_, hp,
    hi'.room_of_length (show 3 + 1 < 64 by decide), fun base hbase ↦ ⟨hi'.spares hbase ?_,
      fun pages d y hy _ ↦ ?_⟩⟩
  · simp only [AllocatorRun.step, hnew, Exec.ok_bind, Exec.pure_eq]
  · rw [hsame, h64', sizeofBuffer]
    omega
  · -- the one slab is the first page
    cases hd : a'.heap.descs d with
    | none => simp [Heap.contains, hd]
    | some ld =>
      have hmem := (hi'.descs d).mpr (by rw [hd]; rfl)
      obtain rfl : d = 0x1000 := List.mem_singleton.mp hmem
      refine Bool.eq_false_iff.mpr fun hc ↦ ?_
      have hin : 0x1000 ≤ y ∧ y < 0x1000 + 0x1000 :=
        (Inv.contains_base hi'.first hi'.base_lt.2).mp hc
      omega

/-- A page for buffers of 128 bytes. -/
theorem newListDescriptor_serves_page : ∃ (s₁ : AllocatorRun) (p : ℕ),
    s₁.a.Serves p (0x5000 : UInt64).toNat 128 1 := by
  obtain ⟨s, s₁, p, h0, hnew, hp, hroom, hfree⟩ := exists_newBuffer 128 (by decide)
  have hbase : ∀ i, 0x2000 ≤ (0x5000 : UInt64).toNat + i * (128 : UInt16).toNat := fun i ↦
    Nat.le_add_right_of_le (by decide)
  exact ⟨s₁, p, (newListDescriptor_serves_iff (.init h0) hnew hp ((hfree _ (by decide)).2 _)
    (by decide)).mpr ⟨by decide, by decide, hroom, by decide, by decide,
      fun i _ ↦ (hfree _ (hbase i)).1⟩⟩

/-- **A page for objects of four bytes is lost**: its descriptor is one of eight bytes. -/
theorem not_serves_four : ¬∀ s, (allocatorMachine.restrict AllocatorRun.Fits).Reach s →
    ∀ size p s₁, s.step (.newBuffer size) = .ok (p, s₁) → p ≠ 0 →
    ∀ (base : UInt64) pages, s₁.Enabled (.newListDescriptor base.toNat size pages) →
    size.toNat ≤ 0x1000 * pages.toNat → s₁.a.Serves p base.toNat size pages := by
  intro hall
  obtain ⟨s, s₁, p, h0, hnew, hp, -, hfree⟩ := exists_newBuffer 4 (by decide)
  have hserves := hall s (.init h0) 4 p s₁ hnew hp 0x5000 1 ((hfree _ (by decide)).2 _) (by decide)
  obtain ⟨g, b, hi, hpr, hb, hbs, hlists⟩ := AllocatorRun.newBuffer_made (.init h0) hnew hp
  have h8 := ((hi.serves_iff hpr hb hbs hlists (by decide)).mp hserves).1
  exact absurd h8 (by decide)

end Chisaka.Slab
