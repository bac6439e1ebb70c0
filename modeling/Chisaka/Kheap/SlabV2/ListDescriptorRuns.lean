import Chisaka.Lib.Chain
import Chisaka.Lib.Machine
import Chisaka.Kheap.SlabV2.ListDescriptor

/-!
# Runs of a list descriptor of the second version

A descriptor of one page, set up by `SetupLinkage` and then used by clients that return only
buffers they hold.  `SlabSound` is what such clients should be able to rely on.

No slab is sound.  `SetupLinkage` links the end of the region behind the last buffer and puts the
null there (`not_writesInside`), so the free list has one entry too many: `reach_allocations`
follows the first `TotalBuffers` allocations, and the next one answers `Limit`.  At the two ends of
the address space it fails in other ways: a region at null cannot be linked, and in the last page
`Limit` is 0, so that only one buffer is linked.
-/

set_option autoImplicit false

namespace Chisaka.Slab.V2

open Bytes Chain ListDescriptor

/-- The calls that clients make. -/
inductive SlabCall
  | allocate
  | deallocate (address : ℕ)

/-- A slab, and the buffers its clients hold. -/
structure SlabRun where
  /-- Memory. -/
  mem : Memory
  /-- The descriptor. -/
  ld : ListDescriptor
  /-- The buffers that were handed out and not returned. -/
  live : List ℕ

namespace SlabRun

/-- A call, its result, and what it does to the live buffers. -/
def step (s : SlabRun) : SlabCall → Exec (ℕ × SlabRun)
  | .allocate => do
    let (p, ld) ← s.ld.allocate s.mem
    return (p, ⟨s.mem, ld, if p = 0 then s.live else p :: s.live⟩)
  | .deallocate address => do
    let (mem, ld) ← s.ld.deallocate s.mem address
    return (0, ⟨mem, ld, s.live.erase address⟩)

/-- The contract of the clients. -/
def Enabled (s : SlabRun) : SlabCall → Prop
  | .allocate => True
  | .deallocate address => address ∈ s.live

/-- What holds in a state: the live buffers are counted, and the free chain ends in null without
visiting an entry twice. -/
structure Sound (s : SlabRun) : Prop where
  /-- No more buffers are used than there are. -/
  used_le : s.ld.buffersUsed ≤ s.ld.totalBuffers
  /-- The live buffers are counted. -/
  used_eq : s.ld.buffersUsed = s.live.length ∧ s.live.Nodup
  /-- The free chain is acyclic and without duplicates. -/
  chain : ∃ L, Seg (readWord s.mem) s.ld.nextFree L 0 ∧ 0 ∉ L ∧ L.Nodup

/-- What holds of `Allocate` when it answers `r` and leaves `s'`. -/
structure AllocateSound (s : SlabRun) (r : ℕ) (s' : SlabRun) : Prop where
  /-- It answers null exactly when all buffers are used. -/
  null_iff : r = 0 ↔ s.ld.buffersUsed = s.ld.totalBuffers
  /-- Then it leaves the counters unchanged. -/
  null_counters : r = 0 → s'.ld.buffersUsed = s.ld.buffersUsed ∧
    s'.ld.totalBuffers = s.ld.totalBuffers
  /-- Otherwise it answers a buffer of the region that is not live. -/
  slot : r ≠ 0 → s.ld.objectInRange r ∧ (∃ i, r = s.ld.baseAddress + i * s.ld.bufferSize) ∧
    r ∉ s.live

end SlabRun

/-- Nothing outside the region of the descriptor is written. -/
def WritesInside (ld : ListDescriptor) (mem mem' : Memory) : Prop :=
  ∀ x, ld.objectInRange x = false → mem' x = mem x

/-- A new descriptor at `this`, linked. -/
def linkedDescriptor (mem : Memory) (this base : ℕ) (size : UInt16) :
    Exec (Memory × ListDescriptor) := do
  let ld ← ListDescriptor.new this base size
  ld.setupLinkage mem

/-- A slab at `base`, in buffers of `size` bytes, linked in the memory `mem`. -/
def slabMachine (mem : Memory) (base : ℕ) (size : UInt16) : Machine SlabRun SlabCall ℕ where
  init s := s.live = [] ∧ ∃ this, linkedDescriptor mem this base size = .ok (s.mem, s.ld)
  enabled := SlabRun.Enabled
  step := SlabRun.step

@[simp] theorem slabMachine_step (mem : Memory) (base : ℕ) (size : UInt16) :
    (slabMachine mem base size).step = SlabRun.step := rfl

/-- `SetupLinkage` returns, and in every state of a run the slab is sound, the next call returns as
it should, and neither writes outside the region. -/
def SlabSound (mem : Memory) (base : ℕ) (size : UInt16) : Prop :=
  (∀ this, ∃ mem' ld', linkedDescriptor mem this base size = .ok (mem', ld') ∧
    WritesInside ld' mem mem') ∧
  ∀ s, (slabMachine mem base size).Reach s → s.Sound ∧
    ∀ k, s.Enabled k → ∃ r s', s.step k = .ok (r, s') ∧ WritesInside s.ld s.mem s'.mem ∧
      (k = .allocate → s.AllocateSound r s')

/-! ## `SetupLinkage` -/

namespace ListDescriptor

variable {mem : Memory} {this base : ℕ} {size : UInt16} {ld : ListDescriptor}

/-- What the constructor makes of a size that needs no rounding. -/
theorem new_eq (hle : 8 ≤ size.toNat) (hge : size.toNat ≤ 2048) :
    new this base size
      = .ok ⟨base, 0, this, this, size.toNat, pageSize / size.toNat, 0⟩ := by
  have hsize : (if size < 8 then 8 else size.toNat) = size.toNat :=
    if_neg fun hlt ↦ absurd (UInt16.lt_iff_toNat_lt.mp hlt) (by simpa using hle)
  rw [new, hsize]
  simp only [kassert, Exec.check_of hle, Exec.check_of hge]
  rfl

/-- **The loop of `SetupLinkage`** links entry to entry and stops at the end of the region. -/
theorem run_setupLinkageBody (limit : ℕ) {s n : ℕ} (hs : 8 ≤ s) (hlt : limit < 2 ^ 64) :
    ∀ {k : ℕ} (mem : Memory) {c : ℕ}, c ≠ 0 → c + n * s = limit → n < k →
      ∃ mem', Loop.run (setupLinkageBody s limit) k (mem, c) = .ok (mem', limit) ∧
        Seg (readWord mem') c (List.range' c n s) limit ∧
        WordsOnly (List.range' c n s) mem mem' := by
  induction n with
  | zero =>
    intro k mem c _ hend hk
    obtain ⟨k, rfl⟩ := Nat.exists_eq_succ_of_ne_zero (Nat.ne_of_gt hk)
    have hc : c = limit := by omega
    refine ⟨mem, ?_, hc, WordsOnly.refl _ _⟩
    rw [Loop.run_inr (r := (mem, c)) (by simp [setupLinkageBody, hc]), hc]
  | succ n ih =>
    intro k mem c hc hend hk
    obtain ⟨k, rfl⟩ := Nat.exists_eq_succ_of_ne_zero (Nat.ne_of_gt (Nat.zero_lt_of_lt hk))
    have hmul : (n + 1) * s = s + n * s := by ring
    rw [hmul] at hend
    have hadd : add64 c s = c + s := add64_of_lt (by omega)
    have hword : readWord (writeWord mem c (c + s)) c = c + s := readWord_writeWord (by omega)
    have hbody : setupLinkageBody s limit (mem, c)
        = .ok (.inl (writeWord mem c (c + s), c + s)) := by
      simp [setupLinkageBody, show c < limit by omega, hadd, hc, hword]
    obtain ⟨mem', hrun, hseg, hw⟩ := @ih k (writeWord mem c (c + s)) (c + s) (by omega)
      (by omega) (by omega)
    have hlink : readWord mem' c = c + s := by
      rw [hw.readWord fun a ha ↦ ?_, hword]
      obtain ⟨i, -, rfl⟩ := List.mem_range'.mp ha
      omega
    refine ⟨mem', by rw [Loop.run_inl hbody, hrun], ?_, ?_⟩
    · rw [List.range'_succ, seg_cons, hlink]
      exact ⟨rfl, hseg⟩
    · rw [List.range'_succ]
      exact (wordsOnly_writeWord List.mem_cons_self).trans
        (hw.mono fun a ha ↦ List.mem_cons_of_mem c ha)

/-- A chain whose last entry is given a null link. -/
theorem seg_range'_null {c n s : ℕ} (hs : 8 ≤ s)
    (h : Seg (readWord mem) c (List.range' c n s) (c + n * s)) :
    Seg (readWord (writeWord mem (c + n * s) 0)) c (List.range' c (n + 1) s) 0 := by
  rw [List.range'_concat, Nat.mul_comm s n]
  refine seg_append.mpr ⟨c + n * s, h.congr fun x hx ↦ ?_, rfl, readWord_writeWord (by decide)⟩
  obtain ⟨i, hi, rfl⟩ := List.mem_range'.mp hx
  have hle : (i + 1) * s ≤ n * s := Nat.mul_le_mul_right s hi
  have hsucc : (i + 1) * s = i * s + s := by ring
  refine readWord_writeWord_of_disjoint (.inr ?_)
  rw [Nat.mul_comm s i]
  omega

/-- **`SetupLinkage` links one entry too many**: the buffers of the region, and `Limit`. -/
theorem setupLinkage_spec (ld : ListDescriptor) (hbase : ld.baseAddress ≠ 0)
    (hs : 8 ≤ ld.bufferSize) (hlt : ld.baseAddress + pageSize < 2 ^ 64) {n : ℕ}
    (hn : n * ld.bufferSize = pageSize) (mem : Memory) :
    ∃ mem', ld.setupLinkage mem = .ok (mem', { ld with nextFree := ld.baseAddress }) ∧
      Seg (readWord mem') ld.baseAddress (List.range' ld.baseAddress (n + 1) ld.bufferSize) 0 := by
  have hlimit : ld.limit = ld.baseAddress + pageSize := add64_of_lt hlt
  have hrounds : n < Loop.rounds := by
    have := Nat.le_mul_of_pos_right n (show 0 < ld.bufferSize by omega)
    simp only [Loop.rounds]
    omega
  obtain ⟨mem', hrun, hseg, -⟩ := run_setupLinkageBody ld.limit hs (by omega) mem hbase
    (by omega) hrounds
  have hexec : Loop.exec (setupLinkageBody ld.bufferSize ld.limit) (mem, ld.baseAddress)
      = .ok (mem', ld.limit) := hrun
  refine ⟨writeWord mem' ld.limit 0, ?_, ?_⟩
  · have hkept : ({ ld with nextFree := ld.baseAddress } : ListDescriptor).limit = ld.limit := rfl
    simp [setupLinkage, hkept, hexec, show ld.limit ≠ 0 by omega]
  · rw [hlimit, ← hn] at hseg ⊢
    exact seg_range'_null hs hseg

/-- `Allocate` takes the first entry of the free list. -/
theorem allocate_of_ne (h : ld.nextFree ≠ 0) : ld.allocate mem = .ok (ld.nextFree,
    { ld with nextFree := readWord mem ld.nextFree,
              buffersUsed := (ld.buffersUsed + 1) % 2 ^ 16 }) := by
  simp [allocate, h]

end ListDescriptor

/-! ## Runs of allocations -/

section Allocations

variable {base n : ℕ} {size : UInt16}

/-- The descriptor after `j` allocations and no deallocation. -/
def afterAllocations (this base : ℕ) (size : UInt16) (j : ℕ) : ListDescriptor :=
  { baseAddress := base
    nextFree := base + j * size.toNat
    nextList := this
    prevList := this
    bufferSize := size.toNat
    totalBuffers := pageSize / size.toNat
    buffersUsed := j }

theorem linkedDescriptor_spec (hbase : base ≠ 0) (hlt : base + pageSize < 2 ^ 64)
    (hle : 8 ≤ size.toNat) (hge : size.toNat ≤ 2048) (hn : n * size.toNat = pageSize)
    (mem : Memory) (this : ℕ) :
    ∃ mem', linkedDescriptor mem this base size = .ok (mem', afterAllocations this base size 0) ∧
      Seg (readWord mem') base (List.range' base (n + 1) size.toNat) 0 := by
  obtain ⟨mem', hset, hseg⟩ := setupLinkage_spec
    ⟨base, 0, this, this, size.toNat, pageSize / size.toNat, 0⟩ hbase hle hlt hn mem
  refine ⟨mem', ?_, hseg⟩
  rw [linkedDescriptor, new_eq hle hge, Exec.ok_bind, hset]
  simp [afterAllocations]

/-- **`SetupLinkage` alone writes outside the region**, into the word at `Limit`. -/
theorem not_writesInside (hbase : base ≠ 0) (hlt : base + pageSize < 2 ^ 64)
    (hle : 8 ≤ size.toNat) (hge : size.toNat ≤ 2048) (hn : n * size.toNat = pageSize)
    {mem : Memory} (hmem : readWord mem (base + pageSize) ≠ 0) (this : ℕ) :
    ∃ mem' ld', linkedDescriptor mem this base size = .ok (mem', ld') ∧
      ¬WritesInside ld' mem mem' := by
  obtain ⟨mem', hset, hseg⟩ := linkedDescriptor_spec hbase hlt hle hge hn mem this
  refine ⟨mem', _, hset, fun hinside ↦ hmem ?_⟩
  have hnull : readWord mem' (base + pageSize) = 0 := by
    rw [List.range'_concat, Nat.mul_comm size.toNat n, hn] at hseg
    exact hseg.next_eq
  rw [← hnull]
  refine (readWord_congr fun x hx _ ↦ hinside x ?_).symm
  have hlimit : (afterAllocations this base size 0).limit = base + pageSize := add64_of_lt hlt
  simp only [objectInRange, hlimit, decide_eq_false_iff_not]
  omega

/-- **The first `TotalBuffers` allocations** answer the buffers in ascending order, and leave
`Limit` as the next one. -/
theorem reach_allocations (hbase : base ≠ 0) (hlt : base + pageSize < 2 ^ 64)
    (hle : 8 ≤ size.toNat) (hge : size.toNat ≤ 2048) (hn : n * size.toNat = pageSize)
    (mem : Memory) (this : ℕ) :
    ∃ mem', ∀ j ≤ n, (slabMachine mem base size).Reach
      ⟨mem', afterAllocations this base size j, (List.range' base j size.toNat).reverse⟩ := by
  obtain ⟨mem', hset, hseg⟩ := linkedDescriptor_spec hbase hlt hle hge hn mem this
  have hn512 : n ≤ 512 := by
    have := Nat.mul_le_mul_left n hle
    simp only [pageSize] at hn
    omega
  refine ⟨mem', fun j hj ↦ ?_⟩
  induction j with
  | zero => exact .init ⟨rfl, this, hset⟩
  | succ j ih =>
    have hne : (afterAllocations this base size j).nextFree ≠ 0 := by
      simp only [afterAllocations]
      omega
    -- the entry behind the one that is handed out
    have hnext : readWord mem' (base + j * size.toNat) = base + (j + 1) * size.toNat := by
      have hsplit : List.range' base (n + 1) size.toNat
          = List.range' base j size.toNat ++ (base + j * size.toNat) ::
            List.range' (base + (j + 1) * size.toNat) (n - j) size.toNat := by
        rw [show n + 1 = j + (n - j + 1) by omega, ← List.range'_append, List.range'_succ,
          Nat.mul_comm size.toNat j]
        congr 3
        ring
      rw [hsplit] at hseg
      rw [hseg.next_eq, show n - j = n - j - 1 + 1 by omega, List.range'_succ]
      rfl
    refine (ih (by omega)).step (k := .allocate) (r := base + j * size.toNat) trivial ?_
    have hlive : (List.range' base (j + 1) size.toNat).reverse
        = (base + j * size.toNat) :: (List.range' base j size.toNat).reverse := by
      rw [List.range'_concat, List.reverse_append, Nat.mul_comm size.toNat j]
      rfl
    rw [slabMachine_step, SlabRun.step, allocate_of_ne hne, Exec.ok_bind, hlive]
    simp [afterAllocations, hnext, hbase]
    omega

/-- The allocation after these answers `Limit`, which is no address of the region. -/
theorem step_past_end (hbase : base ≠ 0) (hn : n * size.toNat = pageSize) (mem : Memory)
    (this : ℕ) (live : List ℕ) : ∃ s',
      SlabRun.step ⟨mem, afterAllocations this base size n, live⟩ .allocate
        = .ok (base + pageSize, s') := by
  have hfree : (afterAllocations this base size n).nextFree = base + pageSize := by
    simp only [afterAllocations]
    omega
  have hne : (afterAllocations this base size n).nextFree ≠ 0 := by omega
  simp [SlabRun.step, allocate_of_ne hne, hfree]

end Allocations

/-! ## No slab is sound -/

section NotSound

variable {base n : ℕ} {size : UInt16}

/-- Inside the address space: when all buffers are used, `Allocate` answers `Limit`. -/
theorem not_sound_inside (hbase : base ≠ 0) (hlt : base + pageSize < 2 ^ 64)
    (hle : 8 ≤ size.toNat) (hge : size.toNat ≤ 2048) (hn : n * size.toNat = pageSize)
    (mem : Memory) : ¬SlabSound mem base size := by
  rintro ⟨-, hsound⟩
  obtain ⟨mem', hreach⟩ := reach_allocations hbase hlt hle hge hn mem 0
  obtain ⟨r, s', hstep, -, hal⟩ := (hsound _ (hreach n le_rfl)).2 .allocate trivial
  obtain ⟨s'', hpast⟩ := step_past_end hbase hn mem' 0
    (List.range' base n size.toNat).reverse
  rw [hpast] at hstep
  cases hstep
  have htotal : n = pageSize / size.toNat := by
    rw [← hn, Nat.mul_div_cancel _ (by omega)]
  have hnull := (hal rfl).null_iff.mpr htotal
  omega

/-- A region at null cannot be linked. -/
theorem not_sound_null (hle : 8 ≤ size.toNat) (hge : size.toNat ≤ 2048) (mem : Memory) :
    ¬SlabSound mem 0 size := by
  rintro ⟨hset, -⟩
  obtain ⟨mem', ld', hlinked, -⟩ := hset 0
  have hlimit : (⟨0, 0, 0, 0, size.toNat, pageSize / size.toNat, 0⟩ : ListDescriptor).limit
      = 0x1000 := by simp [limit, pageSize, add64]
  have hloop : Loop.exec (setupLinkageBody size.toNat 0x1000) (mem, 0) = .error .nullDeref :=
    Loop.exec_error (by simp [setupLinkageBody])
  rw [linkedDescriptor, new_eq hle hge, Exec.ok_bind, setupLinkage] at hlinked
  simp only [hlimit, hloop] at hlinked
  exact absurd hlinked (by simp)

/-- The start of the last page. -/
def topPage : ℕ := 0xFFFFFFFFFFFFF000

/-- In the last page `Limit` is 0, and one buffer is linked. -/
theorem linkedDescriptor_top (hle : 8 ≤ size.toNat) (hge : size.toNat ≤ 2048) (mem : Memory) :
    linkedDescriptor mem 0 topPage size
      = .ok (writeWord mem topPage 0, afterAllocations 0 topPage size 0) := by
  have hlimit : (⟨topPage, topPage, 0, 0, size.toNat, pageSize / size.toNat, 0⟩ :
      ListDescriptor).limit = 0 := by simp [limit, pageSize, add64, topPage]
  have hloop : Loop.exec (setupLinkageBody size.toNat 0) (mem, topPage) = .ok (mem, topPage) :=
    Loop.exec_inr (by simp [setupLinkageBody])
  rw [linkedDescriptor, new_eq hle hge, Exec.ok_bind, setupLinkage]
  simp only [hlimit, hloop]
  simp [afterAllocations, topPage]

/-- There, after one allocation `Allocate` answers null, and there is another buffer. -/
theorem not_sound_top (hle : 8 ≤ size.toNat) (hge : size.toNat ≤ 2048) (mem : Memory) :
    ¬SlabSound mem topPage size := by
  rintro ⟨-, hsound⟩
  have hne : (afterAllocations 0 topPage size 0).nextFree ≠ 0 := by
    simp [afterAllocations, topPage]
  have hword : readWord (writeWord mem topPage 0) topPage = 0 := readWord_writeWord (by decide)
  have hreach : (slabMachine mem topPage size).Reach ⟨writeWord mem topPage 0,
      { afterAllocations 0 topPage size 0 with nextFree := 0, buffersUsed := 1 }, [topPage]⟩ := by
    have h0 : (slabMachine mem topPage size).Reach
        ⟨writeWord mem topPage 0, afterAllocations 0 topPage size 0, []⟩ :=
      .init ⟨rfl, 0, linkedDescriptor_top hle hge mem⟩
    refine h0.step (k := .allocate) (r := topPage) trivial ?_
    rw [slabMachine_step, SlabRun.step, allocate_of_ne hne, Exec.ok_bind]
    simp [afterAllocations, hword, show topPage ≠ 0 by decide]
  obtain ⟨r, s', hstep, -, hal⟩ := (hsound _ hreach).2 .allocate trivial
  have hfull := (hal rfl).null_iff
  simp only [SlabRun.step, ListDescriptor.allocate] at hstep
  cases hstep
  have htwo : 2 ≤ pageSize / size.toNat :=
    (Nat.le_div_iff_mul_le (by omega)).mpr (by simp only [pageSize]; omega)
  have : 1 = pageSize / size.toNat := hfull.mp rfl
  omega

/-- **No slab is sound**: not for any page of the address space, any power of two from 8 to 2048,
and any contents of memory. -/
theorem slabSound_never (mem : Memory) (base : ℕ) (size : UInt16) (hbase : base % pageSize = 0)
    (hlt : base < 2 ^ 64) (hpow : ∃ k, size.toNat = 2 ^ k) (hle : 8 ≤ size.toNat)
    (hge : size.toNat ≤ 2048) : ¬SlabSound mem base size := by
  by_cases hnull : base = 0
  · rw [hnull]
    exact not_sound_null hle hge mem
  by_cases htop : base = topPage
  · rw [htop]
    exact not_sound_top hle hge mem
  -- a page in between, which the buffers fill
  obtain ⟨k, hk⟩ := hpow
  have hk11 : k ≤ 11 := by
    by_contra hgt
    have := Nat.pow_le_pow_right (show 0 < 2 by decide) (show 12 ≤ k by omega)
    omega
  have hfill : 2 ^ (12 - k) * size.toNat = pageSize := by
    rw [hk, ← pow_add, Nat.sub_add_cancel (by omega)]
    rfl
  refine not_sound_inside hnull ?_ hle hge hfill mem
  simp only [pageSize, topPage] at *
  omega

theorem slabSound_never_2048 : ¬SlabSound (fun _ ↦ 0) 0x5000 2048 :=
  slabSound_never (fun _ ↦ 0) 0x5000 2048 rfl (by decide) ⟨11, rfl⟩ (by decide) (by decide)

/-- The page at `0x1000` in two buffers: when both are used, a third `Allocate` answers `0x2000`. -/
theorem third_allocation_2048 :
    (¬∀ (mem : Memory) (base : ℕ) (size : UInt16), base % pageSize = 0 → base < 2 ^ 64 →
      (∃ k, size.toNat = 2 ^ k) → 8 ≤ size.toNat → size.toNat ≤ 2048 →
        SlabSound mem base size) ∧
    ∃ s s', (slabMachine (fun _ ↦ 0) 0x1000 2048).Reach s ∧ s.live = [0x1800, 0x1000] ∧
      s.ld.buffersUsed = s.ld.totalBuffers ∧ s.ld.limit = 0x2000 ∧
      s.step .allocate = .ok (0x2000, s') := by
  refine ⟨fun h ↦ ?_, ?_⟩
  · exact not_sound_inside (n := 2) (by decide) (by decide) (by decide) (by decide) (by decide) _
      (h (fun _ ↦ 0) 0x1000 2048 rfl (by decide) ⟨11, rfl⟩ (by decide) (by decide))
  · have hbase : 0x1000 ≠ 0 := by decide
    have hn : 2 * (2048 : UInt16).toNat = pageSize := rfl
    obtain ⟨mem', hreach⟩ := reach_allocations hbase (by decide) (by decide) (by decide) hn
      (fun _ ↦ 0) 0
    obtain ⟨s', hstep⟩ := step_past_end hbase hn mem' 0 (List.range' 0x1000 2 2048).reverse
    exact ⟨_, s', hreach 2 le_rfl, rfl, rfl, by simp [afterAllocations, limit, add64, pageSize],
      hstep⟩

end NotSound

end Chisaka.Slab.V2
