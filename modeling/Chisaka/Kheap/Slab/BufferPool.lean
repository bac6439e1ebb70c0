import Mathlib.Data.Set.Basic
import Chisaka.Kheap.Slab.BufferRuns
import Chisaka.Kheap.Slab.SlabPool

/-!
# A buffer is a pool of slots

When the slabs of a buffer lie in disjoint regions and its clients return only what they hold and
write only into what they hold, a buffer is one pool: `Allocate` answers some slot that is not live,
or null when there is none, and `Deallocate` returns a slot to the slab it came from.

* `Pool` and `poolSpec` say what a pool is.  Which slot an allocation answers is left open.
* `BufferRun.Careful` is what the clients promise, on top of `BufferRun.Enabled`.
* `BufferRun.PoolInv.step` is the simulation, and `buffer_is_pool` the result for whole runs.

The slabs have been set up by `SetupLinkage`, and may have been used before they are added.  Those
at the ends of the address space are excluded, as for a single slab (`ListDescriptor.InSpace`);
`not_poolSound_top` is what happens there.
-/

set_option autoImplicit false

namespace Chisaka.Slab

open Bytes Chain ListDescriptor

/-! ## Pools -/

/-- Slots, some of them live. -/
structure Pool where
  /-- All slots. -/
  slots : Set ℕ
  /-- Those that are handed out. -/
  live : Set ℕ

/-- What a pool does. -/
def poolSpec : Spec Pool BufferCall ℕ where
  init p := p.slots = ∅ ∧ p.live = ∅
  step p k r p' := match k with
    | .addList _ held => r = 0 ∧ ∃ S : Set ℕ, (∀ a ∈ S, a ∉ p.slots) ∧ (∀ a ∈ held, a ∈ S) ∧
        p' = ⟨p.slots ∪ S, {a | a ∈ held} ∪ p.live⟩
    | .allocate => (r = 0 ∧ p.slots ⊆ p.live ∧ p' = p) ∨
        (r ≠ 0 ∧ r ∈ p.slots ∧ r ∉ p.live ∧ p' = ⟨p.slots, insert r p.live⟩)
    | .deallocate a => r = 0 ∧ p' = ⟨p.slots, p.live \ {a}⟩
    | .others _ => r = 0 ∧ p' = p

/-! ## Slabs that are set up -/

/-- A slab away from the ends of the address space: it does not start at null, and the last buffer
that starts in it ends below the top. -/
def ListDescriptor.InSpace (ld : ListDescriptor) : Prop :=
  ld.baseAddress ≠ 0 ∧ ld.baseAddress + ld.linked * ld.bufferSize < 2 ^ 64

/-- The slab was set up by `SetupLinkage`, and its buffers were allocated and returned until those
in `held` were live.  `C` is a condition on the slab, and `mem` need agree with the memory of that
run on the slab only. -/
def SetUp (C : ListDescriptor → Prop) (mem : Memory) (ld : ListDescriptor) (held : List ℕ) : Prop :=
  ∃ base size pages r, C (new 0 base size pages) ∧ (slabMachine base size pages).Reach r ∧
    r.live = held ∧ ld = { r.ld with nextList := ld.nextList, prevList := ld.prevList } ∧
    ∀ x, base ≤ x → x < base + 0x1000 * pages.toNat → mem x = r.mem x

section SetUp

variable {base : ℕ} {size : UInt16} {pages : UInt8} {r : SlabRun} {mem : Memory}
  {ld : ListDescriptor} {held : List ℕ}

/-- The end of the region of a slab away from the ends of the address space. -/
theorem ListDescriptor.InSpace.lt {this : ℕ} (hc : (new this base size pages).InSpace) :
    base + 0x1000 * pages.toNat < 2 ^ 64 := by
  obtain ⟨-, hlt⟩ := hc
  have hsize : 0 < (new this base size pages).bufferSize := by
    simp only [new]
    split
    · decide
    · rename_i hge
      exact Nat.lt_of_lt_of_le (by decide) (UInt16.le_iff_toNat_le.mp (UInt16.not_lt.mp hge))
  have hdiv := Nat.lt_div_mul_add hsize (a := 0x1000 * pages.toNat - 1)
  rw [linked, Nat.add_mul, Nat.one_mul] at hlt
  have hpages : (new this base size pages).pages = pages.toNat := rfl
  have hbase : (new this base size pages).baseAddress = base := rfl
  rw [hpages, hbase] at hlt
  omega

/-- A slab stays chained while it is used, and its region is the one it was set up in. -/
theorem chained_of_reach (hc : (new 0 base size pages).InSpace)
    (hr : (slabMachine base size pages).Reach r) :
    (r.ld.baseAddress = base ∧ r.ld.pages = pages.toNat) ∧ ∃ e, Chained r.mem r.ld r.live e := by
  refine hr.induct (I := fun r ↦ (r.ld.baseAddress = base ∧ r.ld.pages = pages.toNat) ∧
    ∃ e, Chained r.mem r.ld r.live e) ?_ ?_
  · rintro ⟨mem, ld, live⟩ ⟨hlive, this, mem₀, hset⟩
    have hsized : (new this base size pages).Sized := new_sized hc.1 hc.lt
    obtain ⟨mem', ld', hset', hch, -, -, hld⟩ := hsized.setupLinkage rfl hc.2 mem₀
    rw [hset] at hset'
    cases hset'
    cases hlive
    exact ⟨by rw [hld]; exact ⟨rfl, rfl⟩, _, hch⟩
  · rintro r k a r' ⟨hgeo, e, hch⟩ hk hstep
    cases k with
    | allocate =>
      by_cases hfull : r.ld.buffersUsed = r.ld.totalBuffers
      · simp only [slabMachine, SlabRun.step, allocate_full hfull, Exec.ok_bind,
          Exec.pure_eq] at hstep
        cases hstep
        exact ⟨hgeo, e, hch⟩
      · obtain ⟨b, rest, ld', e', hfree, hal, hch', -, hld⟩ := hch.allocate hfull
        have hb : b ≠ 0 := hch.sized.pos (mem_free.mp (hfree ▸ List.mem_cons_self)).1
        simp only [slabMachine, SlabRun.step, hal, Exec.ok_bind, Exec.pure_eq, if_neg hb] at hstep
        cases hstep
        exact ⟨by rw [hld]; exact hgeo, e', hch'⟩
    | deallocate b =>
      obtain ⟨mem', ld', hde, hch', -, hld⟩ := hch.deallocate hk
      simp only [slabMachine, SlabRun.step, hde, Exec.ok_bind, Exec.pure_eq] at hstep
      cases hstep
      exact ⟨by rw [hld]; exact hgeo, e, hch'⟩
    | clientWrite b f =>
      simp only [slabMachine, SlabRun.step, Exec.pure_eq] at hstep
      cases hstep
      exact ⟨hgeo, e, hch.overlay hk f⟩

/-- **A slab that is set up is chained.** -/
theorem SetUp.chained (hs : SetUp InSpace mem ld held) : ∃ e, Chained mem ld held e := by
  obtain ⟨base, size, pages, r, hc, hr, rfl, hld, hmem⟩ := hs
  obtain ⟨⟨hbase, hpages⟩, e, hch⟩ := chained_of_reach hc hr
  refine ⟨e, ?_⟩
  rw [hld]
  refine (hch.congr fun b hb ↦ readWord_congr fun x hbx hxb ↦ ?_).of_links _ _
  have h1 := hch.sized.bounds (mem_free.mp hb).1
  have h2 := hch.sized.fits
  have h3 := hch.sized.size_le
  rw [hbase] at h1
  rw [hpages] at h2
  exact hmem x (by omega) (by omega)

end SetUp

/-! ## The promises -/

namespace BufferRun

/-- What the clients promise: a slab that is added was set up, in a region of its own; what is
returned is live, or lies in none of the regions; and nothing is written in the regions but live
buffers. -/
def Careful (C : ListDescriptor → Prop) (s : BufferRun) : BufferCall → Prop
  | .addList list held => ∃ ld, s.heap.descs list = some ld ∧ SetUp C s.heap.mem ld held ∧
      ∀ d ∈ s.added, ∀ x, s.heap.contains x list → s.heap.contains x d → False
  | .allocate => True
  | .deallocate a => a ∈ s.live ∨ ∀ d ∈ s.added, s.heap.contains a d = false
  | .others heap => ∀ x, ¬Writable s.heap s.added s.live x → heap.mem x = s.heap.mem x

/-- The slots of a descriptor. -/
def slots (s : BufferRun) (d : ℕ) : List ℕ := ((s.heap.descs d).map ListDescriptor.slots).getD []

/-- `BuffersUsed` of a descriptor. -/
def used (s : BufferRun) (d : ℕ) : ℕ := ((s.heap.descs d).map buffersUsed).getD 0

/-- The pool that a buffer is. -/
def pool (s : BufferRun) : Pool := ⟨{a | ∃ d ∈ s.added, a ∈ s.slots d}, {a | a ∈ s.live}⟩

/-- What clients rely on in one state. -/
structure Sound (s : BufferRun) : Prop where
  /-- `Allocate` answers null exactly when every slab is full. -/
  null_iff : ∀ r s', s.step .allocate = .ok (r, s') →
    (r = 0 ↔ ∀ d ∈ s.added, ∃ ld, s.heap.descs d = some ld ∧ ld.full)
  /-- Otherwise it answers a slot that is not live. -/
  fresh : ∀ r s', s.step .allocate = .ok (r, s') → r ≠ 0 → r ∈ s.pool.slots ∧ r ∉ s.live
  /-- `Deallocate` of a live address counts it off in the slab that contains it, and nowhere
  else. -/
  deallocate : ∀ a ∈ s.live, ∀ r s', s.step (.deallocate a) = .ok (r, s') →
    ∃ d ∈ s.added, s.heap.contains a d ∧ s'.used d + 1 = s.used d ∧
      ∀ d' ∈ s.added, d' ≠ d → s.heap.contains a d' = false ∧ s'.used d' = s.used d'
  /-- `Deallocate` of an address in none of the regions does nothing. -/
  foreign : ∀ a, (∀ d ∈ s.added, s.heap.contains a d = false) →
    s.step (.deallocate a) = .ok (0, s)

end BufferRun

/-- A buffer whose clients keep their promises. -/
def poolMachine (C : ListDescriptor → Prop) (size : UInt16) : Machine BufferRun BufferCall ℕ :=
  (bufferMachine size).restrict (BufferRun.Careful C)

/-- **The buffer is a pool**: every call returns, every run is one of the pool, and every state is
`Sound`. -/
def PoolSound (C : ListDescriptor → Prop) (size : UInt16) : Prop :=
  (∀ s k, (poolMachine C size).Reach s → (poolMachine C size).enabled s k →
    ∃ r s', s.step k = .ok (r, s')) ∧
  (∀ t s, (poolMachine C size).Trace t s → poolSpec.Trace t s.pool) ∧
  ∀ s, (poolMachine C size).Reach s → s.Sound

namespace BufferRun

/-- The invariant: the rings are sorted, and the slabs are chained. -/
structure PoolInv (s : BufferRun) (L : ListKind → List ℕ) : Prop where
  /-- Every descriptor is where it belongs. -/
  sorted : Sorted s.buf s.heap L
  /-- The descriptors on the rings are those that were added. -/
  members : ∀ d, d ∈ members L ↔ d ∈ s.added
  /-- The slabs share the memory. -/
  slabs : Slabs s.heap s.added s.live

variable {s s' : BufferRun} {L : ListKind → List ℕ} {a d x : ℕ} {ld ld' : ListDescriptor}
  {m : Memory} {h' : Heap}

theorem slots_eq (he : s.heap.descs d = some ld) : s.slots d = ld.slots := by
  simp [slots, he]

theorem used_eq (he : s.heap.descs d = some ld) : s.used d = ld.buffersUsed := by
  simp [used, he]

/-- The slots do not depend on links, nor on what is allocated. -/
theorem slots_revised (he : s.heap.descs d = some ld) (hrev : ld.Revises ld')
    (hs : Heap.SameSlabs (s.heap.setSlab d m ld') s'.heap) (hx : (s.heap.descs x).isSome) :
    s'.slots x = s.slots x := by
  obtain ⟨ldx, hex⟩ := Option.isSome_iff_exists.mp hx
  by_cases hxd : x = d
  · subst hxd
    obtain rfl : ldx = ld := Option.some.inj (hex.symm.trans he)
    rw [slots_eq he, slots_eq (hs.desc (Heap.descs_setSlab_self _ _ _ _)), hrev.1]
    rfl
  · rw [slots_eq hex, slots_eq (hs.desc ((Heap.descs_setSlab_of_ne _ m ld' hxd).trans hex))]
    rfl

/-- Only one descriptor is counted anew. -/
theorem used_revised (hs : Heap.SameSlabs (s.heap.setSlab d m ld') s'.heap)
    (hx : (s.heap.descs x).isSome) : s'.used x = if x = d then ld'.buffersUsed else s.used x := by
  obtain ⟨ldx, hex⟩ := Option.isSome_iff_exists.mp hx
  by_cases hxd : x = d
  · subst hxd
    rw [if_pos rfl, used_eq (hs.desc (Heap.descs_setSlab_self _ _ _ _))]
  · rw [if_neg hxd, used_eq hex,
      used_eq (hs.desc ((Heap.descs_setSlab_of_ne _ m ld' hxd).trans hex))]

namespace PoolInv

theorem isSome (hi : s.PoolInv L) (hd : d ∈ s.added) : (s.heap.descs d).isSome := by
  obtain ⟨ld, e, he, -⟩ := hi.slabs.chained d hd
  rw [he]
  rfl

/-- The invariant once the buffer has been put right. -/
theorem of_resorted {live : List ℕ} {b' : Buffer} (hi : s.PoolInv L)
    (hslabs : Slabs (s.heap.setSlab d m ld') s.added live)
    (hres : Resorted s.buf L (s.heap.setSlab d m ld') b' h') :
    ∃ L', PoolInv ⟨b', h', s.added, live⟩ L' := by
  obtain ⟨L', hs', hmem'⟩ := hres.sorted
  exact ⟨L', hs', fun d ↦ (hmem' d).trans (hi.members d), hslabs.of_sameSlabs hres.slabs⟩

/-- The pool after one slab has changed. -/
theorem pool_revised {live : List ℕ} {b' : Buffer} (hi : s.PoolInv L)
    (he : s.heap.descs d = some ld) (hrev : ld.Revises ld')
    (hs : Heap.SameSlabs (s.heap.setSlab d m ld') h') :
    pool ⟨b', h', s.added, live⟩ = ⟨s.pool.slots, {a | a ∈ live}⟩ := by
  have hslots : ∀ x ∈ s.added, slots ⟨b', h', s.added, live⟩ x = s.slots x := fun x hx ↦
    slots_revised he hrev hs (hi.isSome hx)
  simp only [pool, Pool.mk.injEq, and_true]
  ext a
  constructor
  · rintro ⟨x, hx, ha⟩
    exact ⟨x, hx, hslots x hx ▸ ha⟩
  · rintro ⟨x, hx, ha⟩
    exact ⟨x, hx, (hslots x hx).symm ▸ ha⟩

/-- **`Allocate` in full**: there is no space, or one slab hands out one of its slots. -/
theorem allocate (hi : s.PoolInv L) :
    (s.step .allocate = .ok (0, s) ∧
      ∀ d ∈ s.added, ∃ ld, s.heap.descs d = some ld ∧ ld.full) ∨
    ∃ d ∈ s.added, ∃ ld a s', s.heap.descs d = some ld ∧ ld.full = false ∧
      s.step .allocate = .ok (a, s') ∧ (a ≠ 0 ∧ a ∈ ld.slots ∧ a ∉ s.live) ∧
      (∃ L', s'.PoolInv L') ∧ s'.pool = ⟨s.pool.slots, insert a s.pool.live⟩ := by
  cases hL : L .partialLists ++ L .freeLists with
  | nil =>
    refine .inl ⟨by simp [step, hi.sorted.allocate_full hL], fun d hd ↦ ?_⟩
    obtain ⟨hp, hf⟩ := List.append_eq_nil_iff.mp hL
    obtain ⟨k, hk⟩ := mem_members.mp ((hi.members d).mpr hd)
    obtain ⟨ld, he, hkind, -⟩ := hi.sorted.kind k d hk
    refine ⟨ld, he, ?_⟩
    cases k with
    | freeLists => rw [hf] at hk; exact absurd hk List.not_mem_nil
    | partialLists => rw [hp] at hk; exact absurd hk List.not_mem_nil
    | fullLists =>
      simpa [ListDescriptor.full] using ListDescriptor.kind_eq_fullLists.mp hkind
  | cons d l =>
    obtain ⟨ld, he, hlt, -, hok⟩ := hi.sorted.allocate_spec hL
    have hd : d ∈ s.added := by
      have hmem : d ∈ L .partialLists ++ L .freeLists := hL ▸ List.mem_cons_self
      refine (hi.members d).mp (mem_members.mpr ?_)
      exact (List.mem_append.mp hmem).elim (fun h0 ↦ ⟨_, h0⟩) fun h0 ↦ ⟨_, h0⟩
    obtain ⟨a, ld', hal, hslot, hnot, ha0, ⟨hrev, -⟩, hslabs⟩ :=
      hi.slabs.allocate hd he (Nat.ne_of_lt hlt)
    obtain ⟨b', h', hb, hres⟩ := hok a ld' hal
    refine .inr ⟨d, hd, ld, a, ⟨b', h', s.added, a :: s.live⟩, he, ?_, ?_, ⟨ha0, hslot, hnot⟩,
      hi.of_resorted hslabs hres, ?_⟩
    · simpa [ListDescriptor.full] using Nat.ne_of_gt hlt
    · simp [step, hb, ha0]
    · rw [hi.pool_revised he hrev hres.slabs]
      simp only [Pool.mk.injEq, true_and]
      ext x
      simp [pool]

/-- **`Deallocate` in full**: the slab that contains the address takes it back. -/
theorem deallocate (hi : s.PoolInv L) (ha : a ∈ s.live) :
    ∃ d ∈ s.added, s.heap.contains a d ∧ ∃ s', s.step (.deallocate a) = .ok (0, s') ∧
      (∃ L', s'.PoolInv L') ∧ s'.pool = ⟨s.pool.slots, s.pool.live \ {a}⟩ ∧
      s'.used d + 1 = s.used d ∧ ∀ d' ∈ s.added, d' ≠ d → s'.used d' = s.used d' := by
  obtain ⟨d, hd, hin, ld, m, ld', he, hde, ⟨hrev, hused⟩, hslabs⟩ := hi.slabs.deallocate ha
  -- the scan of the rings finds `d`
  have hring : d ∈ L .partialLists ++ L .fullLists := by
    obtain ⟨k, hk⟩ := mem_members.mp ((hi.members d).mpr hd)
    obtain ⟨ld₀, he₀, hkind, -⟩ := hi.sorted.kind k d hk
    obtain rfl : ld₀ = ld := Option.some.inj (he₀.symm.trans he)
    cases k with
    | freeLists =>
      have hzero := (ListDescriptor.kind_eq_freeLists.mp hkind).2
      omega
    | partialLists => exact List.mem_append_left _ hk
    | fullLists => exact List.mem_append_right _ hk
  obtain ⟨d₀, hfind⟩ :
      ∃ d₀, (L .partialLists ++ L .fullLists).find? (s.heap.contains a) = some d₀ :=
    Option.isSome_iff_exists.mp (List.find?_isSome.mpr ⟨d, hring, hin⟩)
  have hd₀ : d₀ ∈ s.added := by
    refine (hi.members d₀).mp (mem_members.mpr ?_)
    exact (List.mem_append.mp (List.mem_of_find?_eq_some hfind)).elim (fun h0 ↦ ⟨_, h0⟩)
      fun h0 ↦ ⟨_, h0⟩
  obtain rfl : d₀ = d := hi.slabs.disjoint d₀ hd₀ d hd a (List.find?_some hfind) hin
  obtain ⟨ld₀, he₀, -, -, -, hok⟩ := hi.sorted.deallocate_spec hfind
  obtain rfl : ld₀ = ld := Option.some.inj (he₀.symm.trans he)
  obtain ⟨b', h', hb, hres⟩ := hok m ld' hde
  have hcount : ∀ x ∈ s.added, used ⟨b', h', s.added, s.live.erase a⟩ x =
      if x = d₀ then ld'.buffersUsed else s.used x := fun x hx ↦
    used_revised hres.slabs (hi.isSome hx)
  refine ⟨d₀, hd, hin, ⟨b', h', s.added, s.live.erase a⟩, by simp [step, hb],
    hi.of_resorted hslabs hres, ?_, ?_, fun d' hd' hne ↦ ?_⟩
  · rw [hi.pool_revised he hrev hres.slabs]
    simp only [Pool.mk.injEq, true_and]
    ext x
    simp [pool, hi.slabs.nodup.mem_erase_iff, and_comm]
  · rw [hcount d₀ hd, if_pos rfl, used_eq he]
    exact hused
  · rw [hcount d' hd', if_neg hne]

/-- An address in none of the regions. -/
theorem foreign (hi : s.PoolInv L) (ha : ∀ d ∈ s.added, s.heap.contains a d = false) :
    s.step (.deallocate a) = .ok (0, s) := by
  have hfind : (L .partialLists ++ L .fullLists).find? (s.heap.contains a) = none := by
    refine List.find?_eq_none.mpr fun d hd hc ↦ ?_
    have hmem : d ∈ s.added := by
      refine (hi.members d).mp (mem_members.mpr ?_)
      exact (List.mem_append.mp hd).elim (fun h0 ↦ ⟨_, h0⟩) fun h0 ↦ ⟨_, h0⟩
    rw [ha d hmem] at hc
    cases hc
  have hlive : a ∉ s.live := fun h0 ↦ by
    obtain ⟨d, hd, hc⟩ := hi.slabs.owned a h0
    rw [ha d hd] at hc
    cases hc
  simp [step, hi.sorted.deallocate_none hfind, List.erase_of_not_mem hlive]

/-- **`AddList` in full**: the slots of the slab join the pool. -/
theorem addList {list : ℕ} {held : List ℕ} (hi : s.PoolInv L) (hk : s.Enabled (.addList list held))
    (hc : s.Careful InSpace (.addList list held)) :
    ∃ s', s.step (.addList list held) = .ok (0, s') ∧ (∃ L', s'.PoolInv L') ∧
      ∃ S : Set ℕ, (∀ a ∈ S, a ∉ s.pool.slots) ∧ (∀ a ∈ held, a ∈ S) ∧
        s'.pool = ⟨s.pool.slots ∪ S, {a | a ∈ held} ∪ s.pool.live⟩ := by
  obtain ⟨haddr, hnot, ld, he, hsize, hused, htotal⟩ := hk
  obtain ⟨ld₀, he₀, hset, hdis⟩ := hc
  obtain rfl : ld₀ = ld := Option.some.inj (he₀.symm.trans he)
  obtain ⟨e, hch⟩ := hset.chained
  obtain ⟨b', h', L', hadd, hslabs, hs', hmem', -, -⟩ :=
    hi.sorted.addList (fun h0 ↦ hnot ((hi.members list).mp h0)) haddr he hsize hused htotal
  have hslots : ∀ x ld, s.heap.descs x = some ld →
      slots ⟨b', h', list :: s.added, held ++ s.live⟩ x = ld.slots := fun x ld hex ↦
    (slots_eq (s := ⟨b', h', list :: s.added, held ++ s.live⟩) (hslabs.desc hex)).trans rfl
  refine ⟨⟨b', h', list :: s.added, held ++ s.live⟩, by simp [step, hadd],
    ⟨L', hs', fun d ↦ by rw [hmem', hi.members, List.mem_cons],
      (hi.slabs.cons he hch hdis).of_sameSlabs hslabs⟩,
    {a | a ∈ ld₀.slots}, fun a ha hmem ↦ ?_, fun a ha ↦ hch.sub a ha, ?_⟩
  · obtain ⟨d, hd, had⟩ := hmem
    obtain ⟨ldd, ed, hed, hchd⟩ := hi.slabs.chained d hd
    rw [slots_eq hed] at had
    exact hdis d hd a ((contains_eq he).trans (hch.sized.objectInRange ha))
      ((contains_eq hed).trans (hchd.sized.objectInRange had))
  · simp only [pool, Pool.mk.injEq]
    refine ⟨?_, ?_⟩
    · ext a
      constructor
      · rintro ⟨x, hx, ha⟩
        rcases List.mem_cons.mp hx with rfl | hx
        · rw [hslots x ld₀ he] at ha
          exact .inr ha
        · obtain ⟨ldx, hex⟩ := Option.isSome_iff_exists.mp (hi.isSome hx)
          rw [hslots x ldx hex, ← slots_eq hex] at ha
          exact .inl ⟨x, hx, ha⟩
      · rintro (⟨x, hx, ha⟩ | ha)
        · obtain ⟨ldx, hex⟩ := Option.isSome_iff_exists.mp (hi.isSome hx)
          rw [slots_eq hex, ← hslots x ldx hex] at ha
          exact ⟨x, List.mem_cons_of_mem list hx, ha⟩
        · exact ⟨list, List.mem_cons_self, (hslots list ld₀ he).symm ▸ ha⟩
    · ext a
      simp

/-- **The step lemma**: a call that keeps the promises returns, as a pool would. -/
theorem step {size : UInt16} {k : BufferCall} (hi : s.PoolInv L)
    (hk : (poolMachine InSpace size).enabled s k) :
    ∃ r s', s.step k = .ok (r, s') ∧ (∃ L', s'.PoolInv L') ∧
      poolSpec.step s.pool k r s'.pool := by
  obtain ⟨hk, hc⟩ := hk
  cases k with
  | addList list held =>
    obtain ⟨s', hs, hi', S, hnew, hheld, hpool⟩ := hi.addList hk hc
    exact ⟨0, s', hs, hi', rfl, S, hnew, hheld, hpool⟩
  | allocate =>
    rcases hi.allocate with
      ⟨hs, hfull⟩ | ⟨d, hd, ld, a, s', he, -, hs, ⟨ha0, hslot, hnot⟩, hi', hpool⟩
    · refine ⟨0, s, hs, ⟨L, hi⟩, .inl ⟨rfl, ?_, rfl⟩⟩
      rintro a ⟨d, hd, had⟩
      obtain ⟨ld, e, he, hch⟩ := hi.slabs.chained d hd
      obtain ⟨ld₀, he₀, hf⟩ := hfull d hd
      obtain rfl : ld₀ = ld := Option.some.inj (he₀.symm.trans he)
      rw [slots_eq he] at had
      have hnil : ld₀.free (liveIn s.heap s.live d) = [] :=
        hch.free_eq_nil_iff.mpr (of_decide_eq_true hf).symm
      by_contra hal
      have hfree : a ∈ ld₀.free (liveIn s.heap s.live d) :=
        mem_free.mpr ⟨had, fun h0 ↦ hal (mem_liveIn.mp h0).1⟩
      rw [hnil] at hfree
      exact absurd hfree List.not_mem_nil
    · exact ⟨a, s', hs, hi', .inr ⟨ha0, ⟨d, hd, (slots_eq he).symm ▸ hslot⟩, hnot, hpool⟩⟩
  | deallocate a =>
    by_cases ha : a ∈ s.live
    · obtain ⟨d, hd, -, s', hs, hi', hpool, -⟩ := hi.deallocate ha
      exact ⟨0, s', hs, hi', rfl, hpool⟩
    · refine ⟨0, s, hi.foreign (Or.resolve_left hc ha), ⟨L, hi⟩, rfl, ?_⟩
      have hsame : s.pool.live \ {a} = s.pool.live := by
        ext x
        exact ⟨And.left, fun hx ↦ ⟨hx, fun h0 ↦ ha (h0 ▸ hx)⟩⟩
      rw [hsame]
  | others heap =>
    refine ⟨0, _, rfl, ⟨L, hi.sorted.congr fun d hd ↦ hk d ((hi.members d).mp hd), hi.members,
      hi.slabs.write hk hc⟩, rfl, ?_⟩
    simp only [pool, Pool.mk.injEq, and_true]
    ext a
    have hslots : ∀ d ∈ s.added, slots { s with heap := heap } d = s.slots d := fun d hd ↦ by
      rw [slots, slots, hk d hd]
    constructor
    · rintro ⟨d, hd, had⟩
      exact ⟨d, hd, hslots d hd ▸ had⟩
    · rintro ⟨d, hd, had⟩
      exact ⟨d, hd, (hslots d hd).symm ▸ had⟩

/-- What clients rely on follows from the invariant. -/
theorem sound (hi : s.PoolInv L) : s.Sound := by
  refine ⟨fun r s' hs ↦ ?_, fun r s' hs hr ↦ ?_, fun a ha r s' hs ↦ ?_, fun a ha ↦ hi.foreign ha⟩
  · rcases hi.allocate with ⟨hs₀, hfull⟩ | ⟨d, hd, ld, a, s₀, he, hf, hs₀, ⟨ha0, -⟩, -⟩
    · rw [hs₀] at hs
      cases hs
      exact ⟨fun _ ↦ hfull, fun _ ↦ rfl⟩
    · rw [hs₀] at hs
      cases hs
      refine ⟨fun h0 ↦ absurd h0 ha0, fun hall ↦ ?_⟩
      obtain ⟨ld₀, he₀, hf₀⟩ := hall d hd
      obtain rfl : ld₀ = ld := Option.some.inj (he₀.symm.trans he)
      rw [hf] at hf₀
      cases hf₀
  · rcases hi.allocate with ⟨hs₀, -⟩ | ⟨d, hd, ld, a, s₀, he, -, hs₀, ⟨-, hslot, hnot⟩, -⟩
    · rw [hs₀] at hs
      cases hs
      exact absurd rfl hr
    · rw [hs₀] at hs
      cases hs
      exact ⟨⟨d, hd, (slots_eq he).symm ▸ hslot⟩, hnot⟩
  · obtain ⟨d, hd, hin, s₀, hs₀, -, -, hused, hother⟩ := hi.deallocate ha
    rw [hs₀] at hs
    cases hs
    refine ⟨d, hd, hin, hused, fun d' hd' hne ↦ ⟨?_, hother d' hd' hne⟩⟩
    by_contra hc
    exact hne (hi.slabs.disjoint d' hd' d hd a (by simpa using hc) hin)

end PoolInv

end BufferRun

open BufferRun

/-- **A buffer simulates a pool.** -/
theorem simulates_pool (size : UInt16) : (poolMachine InSpace size).Simulates poolSpec
    fun s p ↦ (∃ L, s.PoolInv L) ∧ p = s.pool where
  init := by
    rintro s ⟨⟨this, hbuf⟩, hadded, hlive⟩
    refine ⟨s.pool, ⟨?_, ?_⟩, ⟨fun _ ↦ [], ?_, fun d ↦ ?_, ?_⟩, rfl⟩
    · simp [pool, hadded]
    · simp [pool, hlive]
    · exact hbuf ▸ sorted_new this size s.heap
    · simp [hadded, members]
    · rw [hadded, hlive]
      exact Slabs.nil s.heap
  step := by
    rintro s p k ⟨⟨L, hi⟩, rfl⟩ hk
    obtain ⟨r, s', hs, hi', hspec⟩ := hi.step hk
    exact ⟨r, s', _, hs, hspec, hi', rfl⟩

/-- **A buffer of slabs away from the ends of the address space is a pool of slots.** -/
theorem buffer_is_pool (size : UInt16) : PoolSound InSpace size := by
  have hsim := simulates_pool size
  refine ⟨fun s k hs hk ↦ ?_, fun t s ht ↦ ?_, fun s hs ↦ ?_⟩
  · obtain ⟨r, s', hstep, -⟩ := hsim.keeps.returns hs hk
    exact ⟨r, s', hstep⟩
  · obtain ⟨p, htrace, -, rfl⟩ := hsim.trace ht
    exact htrace
  · obtain ⟨p, ⟨L, hi⟩, -⟩ := hsim.keeps.reach hs
    exact hi.sound

/-- **In the last page of the address space it is none**: after one allocation `m_nextFree` is null,
and the next one follows it. -/
theorem not_poolSound_top : ¬∀ size : UInt16, PoolSound (fun _ ↦ True) size := by
  intro hall
  obtain ⟨hret, -, -⟩ := hall 64
  let heap : Heap := ⟨writeWord (fun _ ↦ 0) 0xFFFFFFFFFFFFF000 0,
    fun d ↦ if d = 64 then some (topSlab 0 1) else none⟩
  have hset : SetUp (fun _ ↦ True) heap.mem (topSlab 0 1) [0xFFFFFFFFFFFFF000] :=
    ⟨_, 64, 1, _, trivial, reach_topSlab, rfl, rfl, fun _ _ _ ↦ rfl⟩
  have h0 : (poolMachine (fun _ ↦ True) 64).Reach ⟨Buffer.new 0 64, heap, [], []⟩ :=
    .init ⟨⟨0, rfl⟩, rfl, rfl⟩
  have h1 := h0.step (k := BufferCall.addList 64 [0xFFFFFFFFFFFFF000]) (r := 0)
    ⟨⟨by decide, by decide, _, rfl, rfl, by decide, by decide⟩, _, rfl, hset, by simp⟩ rfl
  obtain ⟨r, s', hs⟩ := hret _ BufferCall.allocate h1 ⟨trivial, trivial⟩
  cases hs

end Chisaka.Slab
