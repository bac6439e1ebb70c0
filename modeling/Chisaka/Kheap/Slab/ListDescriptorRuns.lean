import Chisaka.Lib.Machine
import Chisaka.Kheap.Slab.ListDescriptorSpec

/-!
# Runs of a list descriptor

A list descriptor, set up by `SetupLinkage` in arbitrary memory and then used by clients that
return only buffers they hold and write only into buffers they hold.

`slab_sound` says what such clients can rely on.  The invariant is `Chained`, together with what is
linked behind the last buffer: nothing ever writes there, so the chain stays null-terminated.
-/

set_option autoImplicit false

namespace Chisaka.Slab

open Bytes Chain

/-- The calls that clients make. -/
inductive SlabCall
  | allocate
  | deallocate (address : ℕ)
  | clientWrite (address : ℕ) (contents : ℕ → UInt8)

/-- A slab, and the buffers its clients hold. -/
structure SlabRun where
  /-- Memory. -/
  mem : Memory
  /-- The descriptor. -/
  ld : ListDescriptor
  /-- The buffers that were handed out and not returned. -/
  live : List ℕ

namespace SlabRun

/-- A call, its result, and what it does to the live buffers. -/
def step (s : SlabRun) : SlabCall → Exec (ℕ × SlabRun)
  | .allocate => do
    let (p, ld) ← s.ld.allocate s.mem
    return (p, ⟨s.mem, ld, if p = 0 then s.live else p :: s.live⟩)
  | .deallocate address => do
    let (mem, ld) ← s.ld.deallocate s.mem address
    return (0, ⟨mem, ld, s.live.erase address⟩)
  | .clientWrite address contents =>
    return (0, { s with mem := overlay s.mem address s.ld.bufferSize contents })

/-- The contract of the clients. -/
def Enabled (s : SlabRun) : SlabCall → Prop
  | .allocate => True
  | .deallocate address => address ∈ s.live
  | .clientWrite address _ => address ∈ s.live

end SlabRun

/-- A slab of `pages` pages at `base`, in buffers of `size` bytes. -/
def slabMachine (base : ℕ) (size : UInt16) (pages : UInt8) : Machine SlabRun SlabCall ℕ where
  init s := s.live = [] ∧ ∃ this mem,
    (ListDescriptor.new this base size pages).setupLinkage mem = .ok (s.mem, s.ld)
  enabled := SlabRun.Enabled
  step := SlabRun.step

/-- What the clients of a slab rely on. -/
structure SlabRun.Sound (base : ℕ) (size : UInt16) (pages : UInt8) (s : SlabRun) : Prop where
  /-- The number of buffers. -/
  total : s.ld.totalBuffers = pages.toNat * 0x1000 / size.toNat
  /-- `Allocate` answers null exactly when all buffers are used. -/
  null_iff : ∀ r s', s.step .allocate = .ok (r, s') →
    (r = 0 ↔ s.ld.buffersUsed = s.ld.totalBuffers)
  /-- Otherwise it answers the lowest buffer that is not live. -/
  lowest : ∀ r s', s.step .allocate = .ok (r, s') → r ≠ 0 → r ∉ s.live ∧
    (∃ i < s.ld.totalBuffers, r = base + i * size.toNat) ∧
    ∀ i < s.ld.totalBuffers, base + i * size.toNat ∉ s.live → r ≤ base + i * size.toNat
  /-- The live buffers are counted. -/
  used : s.ld.buffersUsed = s.live.length ∧ s.live.Nodup
  /-- The chain from `NextFreeBuffer` is null-terminated, ascends, and touches no live buffer. -/
  chain : ∃ L, Seg (readWord s.mem) s.ld.nextFree L 0 ∧ 0 ∉ L ∧ L.Pairwise (· < ·) ∧
    ∀ c ∈ L, ∀ a ∈ s.live, c + 8 ≤ a ∨ a + size.toNat ≤ c

/-- `SetupLinkage` returns, and in every state of a run the slab is `Sound` and the next call
returns. -/
def SlabSound (base : ℕ) (size : UInt16) (pages : UInt8) : Prop :=
  (∀ this mem, ∃ r, (ListDescriptor.new this base size pages).setupLinkage mem = .ok r) ∧
    ∀ s, (slabMachine base size pages).Reach s → s.Sound base size pages ∧
      ∀ k, s.Enabled k → ∃ r s', s.step k = .ok (r, s')

namespace ListDescriptor

variable {base this : ℕ} {size : UInt16} {pages : UInt8} {ld : ListDescriptor} {mem : Memory}
  {live : List ℕ} {a e : ℕ}

/-- A new descriptor whose region is no part of the ends of the address space. -/
theorem new_sized (hbase : base ≠ 0) (hlt : base + 0x1000 * pages.toNat < 2 ^ 64) :
    (new this base size pages).Sized := by
  refine ⟨hbase, le_new_bufferSize, ?_, hlt, Nat.mod_lt _ (by decide)⟩
  refine (Nat.mul_le_mul_right _ (Nat.mod_le _ _)).trans ?_
  rw [Nat.mul_comm 0x1000]
  exact Nat.div_mul_le_self _ _

/-- A word of a free buffer survives whatever clients write into theirs. -/
theorem Chained.overlay (h : Chained mem ld live e) (ha : a ∈ live) (f : ℕ → UInt8) :
    Chained (overlay mem a ld.bufferSize f) ld live e := by
  refine h.congr fun b hb ↦ readWord_overlay_of_disjoint ?_
  obtain ⟨hbs, hbl⟩ := mem_free.mp hb
  have h1 := h.sized.disjoint (h.sub a ha) hbs fun he ↦ hbl (he ▸ ha)
  have h2 := h.sized.size_le
  omega

/-- The lowest free buffer is below every other buffer that is not live. -/
theorem Chained.head_le {b : ℕ} {rest : List ℕ} (h : Chained mem ld live e)
    (hfree : ld.free live = a :: rest) (hb : b ∈ ld.slots) (hbl : b ∉ live) : a ≤ b := by
  have hmem : b ∈ a :: rest := hfree ▸ mem_free.mpr ⟨hb, hbl⟩
  have hsorted : (ld.free live).Pairwise (· < ·) := h.sized.pairwise_free
  rw [hfree] at hsorted
  rcases List.mem_cons.mp hmem with rfl | hmem
  · exact le_refl b
  · exact ((List.pairwise_cons.mp hsorted).1 b hmem).le

end ListDescriptor

open ListDescriptor

/-- The invariant of a run: the slab is chained, and what is linked behind the last buffer lies
there, in ascending order up to a null. -/
structure SlabRun.Inv (base : ℕ) (size : UInt16) (pages : UInt8) (s : SlabRun) (e : ℕ)
    (T : List ℕ) : Prop where
  /-- The slab is chained. -/
  chained : Chained s.mem s.ld s.live e
  /-- The rest of the list. -/
  seg : Seg (readWord s.mem) e T 0
  /-- It ascends. -/
  sorted : T.Pairwise (· < ·)
  /-- It lies behind the buffers. -/
  behind : ∀ t ∈ T, s.ld.baseAddress + s.ld.totalBuffers * s.ld.bufferSize ≤ t
  /-- The base does not change. -/
  base_eq : s.ld.baseAddress = base
  /-- The buffer size does not change. -/
  size_eq : s.ld.bufferSize = size.toNat
  /-- The number of buffers does not change. -/
  total_eq : s.ld.totalBuffers = pages.toNat * 0x1000 / size.toNat

namespace SlabRun.Inv

variable {base : ℕ} {size : UInt16} {pages : UInt8} {s : SlabRun} {e a : ℕ} {T : List ℕ}

/-- The step lemma of `Allocate`. -/
theorem allocate (h : s.Inv base size pages e T) : ∃ r s' e' T',
    s.step .allocate = .ok (r, s') ∧ s'.Inv base size pages e' T' := by
  by_cases hfull : s.ld.buffersUsed = s.ld.totalBuffers
  · exact ⟨0, s, e, T, by simp [SlabRun.step, allocate_full hfull], h⟩
  · obtain ⟨b, rest, ld', e', hfree, hal, hch, he', hld⟩ := h.chained.allocate hfull
    have hb : b ≠ 0 := h.chained.sized.pos (mem_free.mp (hfree ▸ List.mem_cons_self)).1
    refine ⟨b, ⟨s.mem, ld', b :: s.live⟩, e', if e' = 0 then [] else T, ?_, ?_⟩
    · simp [SlabRun.step, hal, hb]
    · refine ⟨hch, ?_, ?_, ?_, ?_, ?_, ?_⟩
      · split
        · assumption
        · rename_i hne
          exact (he'.resolve_right hne) ▸ h.seg
      · split
        · exact List.Pairwise.nil
        · exact h.sorted
      · intro t ht
        rw [hld]
        split at ht
        · exact absurd ht List.not_mem_nil
        · exact h.behind t ht
      · rw [hld]; exact h.base_eq
      · rw [hld]; exact h.size_eq
      · rw [hld]; exact h.total_eq

/-- The step lemma of `Deallocate`. -/
theorem deallocate (h : s.Inv base size pages e T) (ha : a ∈ s.live) : ∃ s',
    s.step (.deallocate a) = .ok (0, s') ∧ s'.Inv base size pages e T := by
  obtain ⟨mem', ld', hde, hch, hl, hld⟩ := h.chained.deallocate ha
  refine ⟨⟨mem', ld', s.live.erase a⟩, by simp [SlabRun.step, hde], hch, ?_, h.sorted, ?_, ?_, ?_,
    ?_⟩
  · refine h.seg.congr fun t ht ↦ hl.readWord fun b hb ↦ ?_
    have hslot : b ∈ s.ld.slots := by
      rcases List.mem_cons.mp hb with rfl | hb
      · exact h.chained.sub b ha
      · exact (mem_free.mp hb).1
    have h1 := (h.chained.sized.bounds hslot).2
    have h2 := h.behind t ht
    have h3 := h.chained.sized.size_le
    omega
  · rw [hld]; exact h.behind
  · rw [hld]; exact h.base_eq
  · rw [hld]; exact h.size_eq
  · rw [hld]; exact h.total_eq

/-- The step lemma of a write by a client. -/
theorem clientWrite (h : s.Inv base size pages e T) (ha : a ∈ s.live) (f : ℕ → UInt8) :
    ({ s with mem := overlay s.mem a s.ld.bufferSize f } : SlabRun).Inv base size pages e T := by
  refine ⟨h.chained.overlay ha f, ?_, h.sorted, h.behind, h.base_eq, h.size_eq, h.total_eq⟩
  refine h.seg.congr fun t ht ↦ readWord_overlay_of_disjoint (.inl ?_)
  exact (h.chained.sized.bounds (h.chained.sub a ha)).2.trans (h.behind t ht)

/-- The buffers, in terms of the base and the buffer size. -/
theorem mem_slots_iff (h : s.Inv base size pages e T) :
    a ∈ s.ld.slots ↔ ∃ i < s.ld.totalBuffers, a = base + i * size.toNat := by
  rw [mem_slots, h.base_eq, h.size_eq]
  simp only [Nat.mul_comm]

/-- What the clients rely on follows from the invariant. -/
theorem sound (h : s.Inv base size pages e T) : s.Sound base size pages := by
  have hch := h.chained
  refine ⟨h.total_eq, fun r s' hs ↦ ?_, fun r s' hs hr ↦ ?_, ⟨hch.used, hch.nodup⟩, ?_⟩
  · by_cases hfull : s.ld.buffersUsed = s.ld.totalBuffers
    · simp only [SlabRun.step, allocate_full hfull, Exec.ok_bind, Exec.pure_eq] at hs
      cases hs
      simp [hfull]
    · obtain ⟨b, rest, ld', e', hfree, hal, -⟩ := hch.allocate hfull
      have hb : b ≠ 0 := hch.sized.pos (mem_free.mp (hfree ▸ List.mem_cons_self)).1
      simp only [SlabRun.step, hal, Exec.ok_bind, Exec.pure_eq] at hs
      cases hs
      simp [hfull, hb]
  · by_cases hfull : s.ld.buffersUsed = s.ld.totalBuffers
    · simp only [SlabRun.step, allocate_full hfull, Exec.ok_bind, Exec.pure_eq] at hs
      cases hs
      exact absurd rfl hr
    · obtain ⟨b, rest, ld', e', hfree, hal, -⟩ := hch.allocate hfull
      have hb := mem_free.mp (hfree ▸ List.mem_cons_self)
      simp only [SlabRun.step, hal, Exec.ok_bind, Exec.pure_eq] at hs
      cases hs
      exact ⟨hb.2, h.mem_slots_iff.mp hb.1,
        fun i hi hl ↦ hch.head_le hfree (h.mem_slots_iff.mpr ⟨i, hi, rfl⟩) hl⟩
  · have hsize := hch.sized.size_le
    refine ⟨s.ld.free s.live ++ T, seg_append.mpr ⟨e, hch.seg, h.seg⟩, ?_, ?_, ?_⟩
    · rw [List.mem_append, not_or]
      refine ⟨fun h0 ↦ hch.sized.pos (mem_free.mp h0).1 rfl, fun h0 ↦ ?_⟩
      have h1 := h.behind 0 h0
      have h2 := hch.sized.base_ne
      omega
    · refine List.pairwise_append.mpr ⟨hch.sized.pairwise_free, h.sorted, fun c hc t ht ↦ ?_⟩
      have h1 := (hch.sized.bounds (mem_free.mp hc).1).2
      have h2 := h.behind t ht
      omega
    · intro c hc a ha
      have hslot := hch.sub a ha
      rw [← h.size_eq]
      rcases List.mem_append.mp hc with hc | hc
      · obtain ⟨hcs, hcl⟩ := mem_free.mp hc
        have h1 := hch.sized.disjoint hcs hslot fun he ↦ hcl (he ▸ ha)
        omega
      · have h1 := (hch.sized.bounds hslot).2
        have h2 := h.behind c hc
        omega

end SlabRun.Inv

section Runs

variable {base : ℕ} {size : UInt16} {pages : UInt8}

/-- A buffer size and a number of pages for which the number of buffers is not zero and fits into
16 bits. -/
structure Regular (size : UInt16) (pages : UInt8) : Prop where
  /-- A buffer can hold a link. -/
  size_le : 8 ≤ size.toNat
  /-- There is a buffer. -/
  pos : 1 ≤ pages.toNat * 0x1000 / size.toNat
  /-- The number of buffers has 16 bits. -/
  le : pages.toNat * 0x1000 / size.toNat ≤ 65535

/-- The region does not start at null, and the last buffer that starts in it ends below the top of
the address space. -/
structure Placed (base : ℕ) (size : UInt16) (pages : UInt8) : Prop where
  /-- The region does not start at null. -/
  base_ne : base ≠ 0
  /-- The last buffer ends below the top of the address space. -/
  lt : base + ((0x1000 * pages.toNat - 1) / size.toNat + 1) * size.toNat < 2 ^ 64

/-- **`SetupLinkage` establishes the invariant**, in any memory. -/
theorem setupLinkage_inv (hr : Regular size pages) (hp : Placed base size pages) (this : ℕ)
    (mem : Memory) : ∃ mem' ld' T, (new this base size pages).setupLinkage mem = .ok (mem', ld') ∧
      (⟨mem', ld', []⟩ : SlabRun).Inv base size pages (T.headD 0) T := by
  have hsize : (new this base size pages).bufferSize = size.toNat := new_bufferSize hr.size_le
  have hend : base + (new this base size pages).linked * (new this base size pages).bufferSize
      < 2 ^ 64 := by
    rw [linked, hsize]
    exact hp.lt
  have hlt : base + 0x1000 * pages.toNat < 2 ^ 64 := by
    have hsize0 : 0 < size.toNat := Nat.lt_of_lt_of_le (by decide) hr.size_le
    have hdiv := Nat.lt_div_mul_add hsize0 (a := 0x1000 * pages.toNat - 1)
    have hmul : ((0x1000 * pages.toNat - 1) / size.toNat + 1) * size.toNat
        = (0x1000 * pages.toNat - 1) / size.toNat * size.toNat + size.toNat := by ring
    have := hp.lt
    omega
  have hsized : (new this base size pages).Sized := new_sized hp.base_ne hlt
  obtain ⟨mem', ld', hset, hch, hseg, -, hld⟩ := hsized.setupLinkage rfl hend mem
  have htotal : (new this base size pages).totalBuffers = pages.toNat * 0x1000 / size.toNat := by
    have hmod := Nat.mod_eq_of_lt (Nat.lt_succ_of_le hr.le)
    rw [← hsize] at hmod ⊢
    exact hmod
  refine ⟨mem', ld', (new this base size pages).rest, hset, hch, hseg, ?_, fun t ht ↦ ?_, ?_, ?_,
    ?_⟩
  · exact List.pairwise_lt_range' _ (by rw [hsize]; exact Nat.lt_of_lt_of_le (by decide) hr.size_le)
  · obtain ⟨i, -, rfl⟩ := List.mem_range'.mp ht
    rw [hld, Nat.mul_comm]
    simp only
    omega
  · rw [hld]; rfl
  · rw [hld]; exact hsize
  · rw [hld]; exact htotal

theorem keeps_inv (hr : Regular size pages) (hp : Placed base size pages) :
    (slabMachine base size pages).Keeps fun s ↦ ∃ e T, s.Inv base size pages e T where
  init := by
    rintro ⟨mem, ld, live⟩ ⟨hlive, this, mem₀, hset⟩
    obtain ⟨mem', ld', T, hset', hinv⟩ := setupLinkage_inv hr hp this mem₀
    rw [hset] at hset'
    cases hset'
    cases hlive
    exact ⟨_, T, hinv⟩
  step := by
    rintro s k ⟨e, T, h⟩ hk
    cases k with
    | allocate =>
      obtain ⟨r, s', e', T', hs, h'⟩ := h.allocate
      exact ⟨r, s', hs, e', T', h'⟩
    | deallocate a =>
      obtain ⟨s', hs, h'⟩ := h.deallocate hk
      exact ⟨0, s', hs, e, T, h'⟩
    | clientWrite a f => exact ⟨0, _, rfl, e, T, h.clientWrite hk f⟩

/-- **A slab hands out its buffers lowest first**, each at most once, and takes them back. -/
theorem slab_sound (base : ℕ) (size : UInt16) (pages : UInt8) (hr : Regular size pages)
    (hp : Placed base size pages) : SlabSound base size pages := by
  refine ⟨fun this mem ↦ ?_, fun s hs ↦ ?_⟩
  · obtain ⟨mem', ld', T, hset, -⟩ := setupLinkage_inv hr hp this mem
    exact ⟨_, hset⟩
  · obtain ⟨e, T, hinv⟩ := (keeps_inv hr hp).reach hs
    refine ⟨hinv.sound, fun k hk ↦ ?_⟩
    obtain ⟨r, s', hs', -⟩ := (keeps_inv hr hp).returns hs hk
    exact ⟨r, s', hs'⟩

/-- Two pages in buffers of 100 bytes: 81 buffers, and 92 bytes that are linked as one more. -/
theorem slab_sound_100 : SlabSound 0x5000 100 2 :=
  slab_sound 0x5000 100 2 (by constructor <;> decide) (by constructor <;> decide)

/-- A slab at null cannot be linked. -/
theorem setupLinkage_null (this : ℕ) (mem : Memory) :
    (new this 0 64 1).setupLinkage mem = .error .nullDeref := by
  have hloop : Loop.exec (setupLinkageBody 64 0x1000) (mem, 0) = .error .nullDeref :=
    Loop.exec_error (by simp [setupLinkageBody, add64])
  have hsize : (new this 0 64 1).bufferSize = 64 := rfl
  have hlimit : (new this 0 64 1).limit = 0x1000 := by simp [limit, new, add64]
  have hbase : (new this 0 64 1).baseAddress = 0 := rfl
  rw [setupLinkage, hsize, hlimit, hbase, hloop]
  rfl

/-- A descriptor, at null, of the last page of the address space. -/
def topSlab (nextFree buffersUsed : ℕ) : ListDescriptor :=
  ⟨0xFFFFFFFFFFFFF000, nextFree, 0, 0, 64, 64, buffersUsed, 1⟩

/-- The last page of the address space is not linked at all: `Limit` is 0. -/
theorem setupLinkage_top (mem : Memory) :
    (new 0 0xFFFFFFFFFFFFF000 64 1).setupLinkage mem
      = .ok (writeWord mem 0xFFFFFFFFFFFFF000 0, topSlab 0xFFFFFFFFFFFFF000 0) := by
  have hloop : Loop.exec (setupLinkageBody 64 0) (mem, 0xFFFFFFFFFFFFF000)
      = .ok (mem, 0xFFFFFFFFFFFFF000) := Loop.exec_inr rfl
  have hnew : new 0 0xFFFFFFFFFFFFF000 64 1 = topSlab 0 0 := rfl
  have hbody : setupLinkageBody (topSlab 0 0).bufferSize (topSlab 0 0).limit
      = setupLinkageBody 64 0 := rfl
  have hbase : (topSlab 0 0).baseAddress = 0xFFFFFFFFFFFFF000 := rfl
  rw [hnew, setupLinkage, hbody, hbase, hloop]
  simp [topSlab]

/-- After one allocation there, `m_nextFree` is null, and the descriptor is not full. -/
theorem reach_topSlab : (slabMachine 0xFFFFFFFFFFFFF000 64 1).Reach
    ⟨writeWord (fun _ ↦ 0) 0xFFFFFFFFFFFFF000 0, topSlab 0 1, [0xFFFFFFFFFFFFF000]⟩ := by
  have h0 : (slabMachine 0xFFFFFFFFFFFFF000 64 1).Reach
      ⟨writeWord (fun _ ↦ 0) 0xFFFFFFFFFFFFF000 0, topSlab 0xFFFFFFFFFFFFF000 0, []⟩ :=
    .init ⟨rfl, 0, _, setupLinkage_top _⟩
  have hword : readWord (writeWord (fun _ ↦ 0) 0xFFFFFFFFFFFFF000 0) 0xFFFFFFFFFFFFF000 = 0 :=
    readWord_writeWord (by decide)
  refine h0.step (k := SlabCall.allocate) (r := 0xFFFFFFFFFFFFF000) trivial ?_
  simp [slabMachine, SlabRun.step, allocate, topSlab, hword]

/-- **Without `Placed` it fails**, at either end of the address space: a region at null cannot be
linked, and in the last page of the address space the second `Allocate` follows a null. -/
theorem not_slabSound_ends : (¬∀ (base : ℕ) (size : UInt16) (pages : UInt8), base < 2 ^ 64 →
    Regular size pages → SlabSound base size pages) ∧ ¬SlabSound 0 64 1 ∧
      ¬SlabSound 0xFFFFFFFFFFFFF000 64 1 := by
  have hnull : ¬SlabSound 0 64 1 := by
    rintro ⟨hset, -⟩
    obtain ⟨r, hr⟩ := hset 0 fun _ ↦ 0
    rw [setupLinkage_null] at hr
    exact absurd hr (by simp)
  refine ⟨fun h ↦ hnull (h 0 64 1 (by decide) (by constructor <;> decide)), hnull, ?_⟩
  rintro ⟨-, hsound⟩
  have hsecond : SlabRun.step
      ⟨writeWord (fun _ ↦ 0) 0xFFFFFFFFFFFFF000 0, topSlab 0 1, [0xFFFFFFFFFFFFF000]⟩ .allocate
      = .error .nullDeref := rfl
  obtain ⟨r, s', hs⟩ := (hsound _ reach_topSlab).2 .allocate trivial
  rw [hsecond] at hs
  exact absurd hs (by simp)

end Runs

end Chisaka.Slab
