import Chisaka.Lib.Machine
import Chisaka.Kheap.Slab.BufferSpec

/-!
# Runs of a buffer

A buffer to which descriptors are added, and which then allocates and deallocates.  Between the
calls others may do anything that leaves the added descriptors alone.

`rings_classified` is what can be said without knowing what is in the slabs: whatever they contain,
and whether or not they overlap, every descriptor that was added is on exactly one ring, and that is
the ring it belongs on.
-/

set_option autoImplicit false

namespace Chisaka.Slab

/-- What happens to a buffer. -/
inductive BufferCall
  /-- `AddList(list)`, of a slab some of whose buffers are `held` already. -/
  | addList (list : ℕ) (held : List ℕ)
  | allocate
  | deallocate (objaddr : ℕ)
  /-- Others write memory, and make and drop descriptors. -/
  | others (heap : Heap)

/-- A buffer, and what has happened to it. -/
structure BufferRun where
  /-- The buffer. -/
  buf : Buffer
  /-- Memory and descriptors. -/
  heap : Heap
  /-- The descriptors that were added. -/
  added : List ℕ
  /-- The addresses that were handed out and not returned. -/
  live : List ℕ

namespace BufferRun

/-- A call, its result, and the state it leaves. -/
def step (s : BufferRun) : BufferCall → Exec (ℕ × BufferRun)
  | .addList list held => do
    let (buf, heap) ← s.buf.addList s.heap list
    return (0, ⟨buf, heap, list :: s.added, held ++ s.live⟩)
  | .allocate => do
    let (p, buf, heap) ← s.buf.allocate s.heap
    return (p, ⟨buf, heap, s.added, if p = 0 then s.live else p :: s.live⟩)
  | .deallocate objaddr => do
    let (buf, heap) ← s.buf.deallocate s.heap objaddr
    return (0, ⟨buf, heap, s.added, s.live.erase objaddr⟩)
  | .others heap => return (0, { s with heap := heap })

/-- A descriptor is added once, and it is one of the buffer's size.  Any address may be returned. -/
def Enabled (s : BufferRun) : BufferCall → Prop
  | .addList list _ => (list ≠ 0 ∧ list < 2 ^ 64) ∧ list ∉ s.added ∧
      ∃ ld, s.heap.descs list = some ld ∧ ld.bufferSize = s.buf.bufferSize ∧
        ld.buffersUsed ≤ ld.totalBuffers ∧ ld.totalBuffers < 2 ^ 16
  | .allocate => True
  | .deallocate _ => True
  | .others heap => ∀ d ∈ s.added, heap.descs d = s.heap.descs d

/-- **Every descriptor is where it belongs.** -/
def Classified (s : BufferRun) : Prop :=
  ∃ L : ListKind → List ℕ,
    -- three heads, of rings or null
    (∀ k, s.buf.head k = (L k).headD 0 ∧ LinkRing s.heap.next s.heap.prev (L k) ∧
      ∀ d ∈ L k, s.heap.Live d) ∧
    -- every descriptor that was added is on exactly one of them
    (∀ d, d ∈ s.added ↔ ∃ k, d ∈ L k) ∧ (∀ k k' d, d ∈ L k → d ∈ L k' → k = k') ∧
    -- and that depends on how many of its buffers are used
    (∀ d ∈ L .freeLists, ∃ ld, s.heap.descs d = some ld ∧ ld.buffersUsed = 0) ∧
    (∀ d ∈ L .fullLists, ∃ ld, s.heap.descs d = some ld ∧ ld.buffersUsed = ld.totalBuffers) ∧
    ∀ d ∈ L .partialLists, ∃ ld, s.heap.descs d = some ld ∧
      0 < ld.buffersUsed ∧ ld.buffersUsed < ld.totalBuffers

end BufferRun

/-- `Buffer{size}`, and what may happen to it. -/
def bufferMachine (size : UInt16) : Machine BufferRun BufferCall ℕ where
  init s := (∃ this, s.buf = Buffer.new this size) ∧ s.added = [] ∧ s.live = []
  enabled := BufferRun.Enabled
  step := BufferRun.step

variable {b b' : Buffer} {h h' : Heap} {L : ListKind → List ℕ}

/-- The rings depend on the descriptors on them only. -/
theorem Sorted.congr (hs : Sorted b h L) (hd : ∀ d ∈ members L, h'.descs d = h.descs d) :
    Sorted b h' L := by
  have hk : ∀ k, ∀ d ∈ L k, h'.descs d = h.descs d := fun k d hdk ↦
    hd d (mem_members.mpr ⟨k, hdk⟩)
  refine ⟨⟨hs.head, fun k ↦ ?_, hs.disjoint, fun k d hdk ↦ ?_⟩, fun k d hdk ↦ ?_⟩
  · refine (hs.ring k).congr (fun d hdk ↦ ?_) fun d hdk ↦ ?_
    · rw [Heap.next, Heap.next, hk k d hdk]
    · rw [Heap.prev, Heap.prev, hk k d hdk]
  · rw [hk k d hdk]
    exact hs.desc k d hdk
  · rw [hk k d hdk]
    exact hs.kind k d hdk

/-- The rings of a buffer without descriptors. -/
theorem sorted_new (this : ℕ) (size : UInt16) (h : Heap) :
    Sorted (Buffer.new this size) h fun _ ↦ [] := by
  refine ⟨⟨fun k ↦ ?_, fun _ ↦ LinkRing.nil, by simp, by simp⟩, by simp⟩
  cases k <;> rfl

/-- **`AddList` keeps the rings sorted.** -/
theorem Sorted.addList {d : ℕ} {ld : ListDescriptor} (hs : Sorted b h L) (hd : d ∉ members L)
    (haddr : d ≠ 0 ∧ d < 2 ^ 64) (he : h.descs d = some ld) (hsize : ld.bufferSize = b.bufferSize)
    (hused : ld.buffersUsed ≤ ld.totalBuffers) (htotal : ld.totalBuffers < 2 ^ 16) :
    ∃ b' h' L', b.addList h d = .ok (b', h') ∧ Heap.SameSlabs h h' ∧ Sorted b' h' L' ∧
      (∀ x, x ∈ members L' ↔ x = d ∨ x ∈ members L) ∧ Heap.LinksOnly (d :: members L) h h' ∧
      b.SameClass b' := by
  obtain ⟨b', h', hadd, hslabs, hrings, hlinks, hcls⟩ := hs.toRings.addList hd haddr he hsize
  refine ⟨b', h', _, hadd, hslabs, ⟨hrings, fun k x hx ↦ ?_⟩, fun x ↦ ?_, hlinks, hcls⟩
  · rcases mem_addTo.mp hx with hx | ⟨rfl, rfl⟩
    · obtain ⟨ldx, hex, hkind, hbound⟩ := hs.kind k x hx
      exact ⟨_, hslabs.desc hex, hkind, hbound⟩
    · exact ⟨_, hslabs.desc he, rfl, hused, htotal⟩
  · simp only [mem_members, mem_addTo]
    constructor
    · rintro ⟨j, hx | ⟨-, rfl⟩⟩
      · exact .inr ⟨j, hx⟩
      · exact .inl rfl
    · rintro (rfl | ⟨j, hx⟩)
      · exact ⟨_, .inr ⟨rfl, rfl⟩⟩
      · exact ⟨j, .inl hx⟩

namespace BufferRun

/-- The invariant of a run. -/
def Inv (s : BufferRun) : Prop :=
  ∃ L, Sorted s.buf s.heap L ∧ ∀ d, d ∈ members L ↔ d ∈ s.added

/-- What `Classified` says follows from the invariant. -/
theorem Inv.classified {s : BufferRun} (hi : s.Inv) : s.Classified := by
  obtain ⟨L, hs, hmem⟩ := hi
  refine ⟨L, fun k ↦ ⟨hs.head k, hs.ring k, fun d hd ↦ hs.live hd⟩,
    fun d ↦ by rw [← hmem, mem_members], hs.disjoint, fun d hd ↦ ?_, fun d hd ↦ ?_, fun d hd ↦ ?_⟩
  · obtain ⟨ld, he, hkind, -⟩ := hs.kind _ d hd
    exact ⟨ld, he, (ListDescriptor.kind_eq_freeLists.mp hkind).2⟩
  · obtain ⟨ld, he, hkind, -⟩ := hs.kind _ d hd
    exact ⟨ld, he, (ListDescriptor.kind_eq_fullLists.mp hkind).symm⟩
  · obtain ⟨ld, he, hkind, hle, -⟩ := hs.kind _ d hd
    have hne := ListDescriptor.kind_eq_partialLists.mp hkind
    exact ⟨ld, he, Nat.pos_of_ne_zero hne.2, by omega⟩

/-- A buffer that has been put right satisfies the invariant. -/
theorem inv_of_resorted {added : List ℕ} {h₁ : Heap} (hmem : ∀ d, d ∈ members L ↔ d ∈ added)
    (hres : Resorted b L h₁ b' h') (live : List ℕ) : (⟨b', h', added, live⟩ : BufferRun).Inv := by
  obtain ⟨L', hs', hmem'⟩ := hres.sorted
  exact ⟨L', hs', fun d ↦ (hmem' d).trans (hmem d)⟩

/-- **The step lemma**: no call that returns breaks the invariant. -/
theorem Inv.step {s s' : BufferRun} {k : BufferCall} {r : ℕ} (hi : s.Inv) (hk : s.Enabled k)
    (hstep : s.step k = .ok (r, s')) : s'.Inv := by
  obtain ⟨L, hs, hmem⟩ := hi
  cases k with
  | addList list held =>
    obtain ⟨haddr, hnot, ld, he, hsize, hused, htotal⟩ := hk
    obtain ⟨b', h', L', hadd, -, hs', hmem', -⟩ :=
      hs.addList (fun h0 ↦ hnot ((hmem list).mp h0)) haddr he hsize hused htotal
    simp only [BufferRun.step, hadd, Exec.ok_bind, Exec.pure_eq, Except.ok.injEq,
      Prod.mk.injEq] at hstep
    obtain ⟨-, rfl⟩ := hstep
    exact ⟨L', hs', fun d ↦ by rw [hmem', hmem, List.mem_cons]⟩
  | allocate =>
    cases hL : L .partialLists ++ L .freeLists with
    | nil =>
      simp only [BufferRun.step, hs.allocate_full hL, Exec.ok_bind, Exec.pure_eq, Except.ok.injEq,
        Prod.mk.injEq] at hstep
      obtain ⟨-, rfl⟩ := hstep
      exact ⟨L, hs, hmem⟩
    | cons d l =>
      obtain ⟨ld, -, -, herr, hok⟩ := hs.allocate_spec hL
      cases hall : ld.allocate s.heap.mem with
      | error e => simp [BufferRun.step, herr e hall] at hstep
      | ok q =>
        obtain ⟨b', h', hb, hres⟩ := hok q.1 q.2 hall
        simp only [BufferRun.step, hb, Exec.ok_bind, Exec.pure_eq, Except.ok.injEq,
          Prod.mk.injEq] at hstep
        obtain ⟨-, rfl⟩ := hstep
        exact inv_of_resorted hmem hres _
  | deallocate a =>
    cases hfind : (L .partialLists ++ L .fullLists).find? (s.heap.contains a) with
    | none =>
      simp only [BufferRun.step, hs.deallocate_none hfind, Exec.ok_bind, Exec.pure_eq,
        Except.ok.injEq, Prod.mk.injEq] at hstep
      obtain ⟨-, rfl⟩ := hstep
      exact ⟨L, hs, hmem⟩
    | some d =>
      obtain ⟨ld, -, -, -, herr, hok⟩ := hs.deallocate_spec hfind
      cases hall : ld.deallocate s.heap.mem a with
      | error e => simp [BufferRun.step, herr e hall] at hstep
      | ok q =>
        obtain ⟨b', h', hb, hres⟩ := hok q.1 q.2 hall
        simp only [BufferRun.step, hb, Exec.ok_bind, Exec.pure_eq, Except.ok.injEq,
          Prod.mk.injEq] at hstep
        obtain ⟨-, rfl⟩ := hstep
        exact inv_of_resorted hmem hres _
  | others heap =>
    simp only [BufferRun.step, Exec.pure_eq, Except.ok.injEq, Prod.mk.injEq] at hstep
    obtain ⟨-, rfl⟩ := hstep
    exact ⟨L, hs.congr fun d hd ↦ hk d ((hmem d).mp hd), hmem⟩

end BufferRun

/-- **In every state of a run of a buffer, every descriptor is on the ring it belongs on.** -/
theorem rings_classified (size : UInt16) {s : BufferRun} (hs : (bufferMachine size).Reach s) :
    s.Classified := by
  refine (hs.induct (I := BufferRun.Inv) ?_ fun s k r s' hi hk hstep ↦ hi.step hk hstep).classified
  rintro s ⟨⟨this, hbuf⟩, hadded, -⟩
  refine ⟨fun _ ↦ [], hbuf ▸ sorted_new this size s.heap, fun d ↦ ?_⟩
  simp [hadded, members]

/-- Two slabs of two buffers each, one of them full, and an allocation from the other. -/
theorem rings_classified_two : ∃ s, (bufferMachine 2048).Reach s ∧ s.added = [128, 64] ∧
    s.buf.partialLists = 64 ∧ s.buf.fullLists = 128 ∧ s.Classified := by
  let desc (base used : ℕ) : ListDescriptor := ⟨base, base, 64, 64, 2048, 2, used, 1⟩
  let heap : Heap := ⟨fun _ ↦ 0, fun d ↦ if d = 64 then some (desc 0x1000 0)
    else if d = 128 then some (desc 0x2000 2) else none⟩
  have h0 : (bufferMachine 2048).Reach ⟨Buffer.new 0 2048, heap, [], []⟩ :=
    .init ⟨⟨0, rfl⟩, rfl, rfl⟩
  have h1 := h0.step (k := BufferCall.addList 64 []) (r := 0)
    ⟨by decide, by decide, _, rfl, by decide, by decide, by decide⟩ rfl
  have h2 := h1.step (k := BufferCall.addList 128 [0x2000, 0x2800]) (r := 0)
    ⟨by decide, by decide, _, rfl, by decide, by decide, by decide⟩ rfl
  have h3 := h2.step (k := BufferCall.allocate) (r := 0x1000) trivial rfl
  exact ⟨_, h3, rfl, rfl, rfl, rings_classified 2048 h3⟩

end Chisaka.Slab
