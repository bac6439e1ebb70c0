import Mathlib.Data.List.Perm.Subperm
import Mathlib.Data.List.Range
import Mathlib.Tactic.Ring
import Chisaka.Kheap.Slab.ListDescriptor

/-!
# What a list descriptor does to its slab

The buffers of a slab are `slots`, and `free` are those that are not live.  `Chained` is the
invariant: from `nextFree` the free buffers are linked in ascending order.

The list does not always end in null.  `SetupLinkage` links every buffer that *starts* in the
region, and when the buffer size does not divide the region the last of them is only part of a
buffer.  No allocation ever reaches it: the count of used buffers runs out first.  So the chain ends
in some address `e` behind the last buffer, or in null, and what is stored at `e` does not matter to
`Allocate` and `Deallocate`; `setupLinkage_spec` is where it is known to be the rest of the list.
-/

set_option autoImplicit false

namespace Chisaka.Slab

open Bytes Chain

namespace ListDescriptor

/-- The buffers of the slab. -/
def slots (ld : ListDescriptor) : List ℕ :=
  List.range' ld.baseAddress ld.totalBuffers ld.bufferSize

/-- The buffers that are not live. -/
def free (ld : ListDescriptor) (live : List ℕ) : List ℕ := ld.slots.filter fun a ↦ a ∉ live

/-- The buffers fit into the region, and the region ends below the top of the address space. -/
structure Sized (ld : ListDescriptor) : Prop where
  /-- The region does not start at null. -/
  base_ne : ld.baseAddress ≠ 0
  /-- A buffer can hold a link. -/
  size_le : 8 ≤ ld.bufferSize
  /-- The buffers lie in the region. -/
  fits : ld.totalBuffers * ld.bufferSize ≤ 0x1000 * ld.pages
  /-- The end of the region is an address. -/
  lt : ld.baseAddress + 0x1000 * ld.pages < 2 ^ 64
  /-- The number of buffers has 16 bits. -/
  total_lt : ld.totalBuffers < 2 ^ 16

variable {mem mem' : Memory} {ld ld' : ListDescriptor} {live : List ℕ} {a b e this base : ℕ}
  {size : UInt16} {pages : UInt8}

theorem new_bufferSize (hsize : 8 ≤ size.toNat) :
    (new this base size pages).bufferSize = size.toNat :=
  if_neg fun hlt ↦ absurd (UInt16.lt_iff_toNat_lt.mp hlt) (by simpa using hsize)

theorem le_new_bufferSize : 8 ≤ (new this base size pages).bufferSize := by
  simp only [new]
  split
  · exact le_refl 8
  · rename_i hge
    exact UInt16.le_iff_toNat_le.mp (UInt16.not_lt.mp hge)

theorem mem_slots : a ∈ ld.slots ↔
    ∃ i < ld.totalBuffers, a = ld.baseAddress + ld.bufferSize * i := List.mem_range'

theorem mem_free : a ∈ ld.free live ↔ a ∈ ld.slots ∧ a ∉ live := by simp [free]

namespace Sized

theorem limit_eq (h : ld.Sized) : ld.limit = ld.baseAddress + 0x1000 * ld.pages :=
  add64_of_lt h.lt

/-- A buffer lies between the base and the end of the last buffer. -/
theorem bounds (_ : ld.Sized) (ha : a ∈ ld.slots) : ld.baseAddress ≤ a ∧
    a + ld.bufferSize ≤ ld.baseAddress + ld.totalBuffers * ld.bufferSize := by
  obtain ⟨i, hi, rfl⟩ := mem_slots.mp ha
  have hle := Nat.mul_le_mul_left ld.bufferSize (Nat.succ_le_of_lt hi)
  rw [Nat.mul_succ, Nat.mul_comm _ ld.totalBuffers] at hle
  omega

theorem pos (h : ld.Sized) (ha : a ∈ ld.slots) : a ≠ 0 := by
  have h1 := (h.bounds ha).1
  have h2 := h.base_ne
  omega

theorem objectInRange (h : ld.Sized) (ha : a ∈ ld.slots) : ld.objectInRange a := by
  have h1 := h.bounds ha
  have h2 := h.fits
  have h3 := h.size_le
  simp only [ListDescriptor.objectInRange, h.limit_eq, decide_eq_true_eq]
  omega

/-- Two buffers do not overlap. -/
theorem disjoint (_ : ld.Sized) (ha : a ∈ ld.slots) (hb : b ∈ ld.slots) (hne : a ≠ b) :
    a + ld.bufferSize ≤ b ∨ b + ld.bufferSize ≤ a := by
  obtain ⟨i, -, rfl⟩ := mem_slots.mp ha
  obtain ⟨j, -, rfl⟩ := mem_slots.mp hb
  rcases Nat.lt_trichotomy i j with hij | rfl | hij
  · have hle := Nat.mul_le_mul_left ld.bufferSize (Nat.succ_le_of_lt hij)
    rw [Nat.mul_succ] at hle
    omega
  · exact absurd rfl hne
  · have hle := Nat.mul_le_mul_left ld.bufferSize (Nat.succ_le_of_lt hij)
    rw [Nat.mul_succ] at hle
    omega

theorem pairwise_slots (h : ld.Sized) : ld.slots.Pairwise (· < ·) :=
  List.pairwise_lt_range' ld.bufferSize (Nat.lt_of_lt_of_le (by decide) h.size_le)

theorem pairwise_free (h : ld.Sized) : (ld.free live).Pairwise (· < ·) :=
  h.pairwise_slots.filter _

/-- A word written in one buffer is not noticed in another. -/
theorem word_disjoint (h : ld.Sized) (ha : a ∈ ld.slots) (hb : b ∈ ld.slots) (hne : a ≠ b) :
    a + 8 ≤ b ∨ b + 8 ≤ a := by
  have h1 := h.disjoint ha hb hne
  have h2 := h.size_le
  omega

end Sized

/-- **The invariant of a slab**: from `nextFree` on, the free buffers are linked in ascending order,
up to an end `e` that is null or lies behind the buffers. -/
structure Chained (mem : Memory) (ld : ListDescriptor) (live : List ℕ) (e : ℕ) : Prop where
  /-- The buffers lie in the region. -/
  sized : ld.Sized
  /-- No buffer is handed out twice. -/
  nodup : live.Nodup
  /-- What is live is a buffer. -/
  sub : ∀ a ∈ live, a ∈ ld.slots
  /-- The live buffers are counted. -/
  used : ld.buffersUsed = live.length
  /-- The free buffers are linked. -/
  seg : Seg (readWord mem) ld.nextFree (ld.free live) e
  /-- The end lies behind the buffers. -/
  tail : e ≠ 0 → ld.baseAddress + ld.totalBuffers * ld.bufferSize ≤ e
  /-- `nextFree` is null when the last buffer has been handed out. -/
  exhausted : ld.free live = [] → ld.totalBuffers ≠ 0 → ld.nextFree = 0

namespace Chained

/-- The buffers are the free and the live ones. -/
theorem perm (h : Chained mem ld live e) : (ld.free live ++ live).Perm ld.slots := by
  have hnd : ld.slots.Nodup := h.sized.pairwise_slots.imp ne_of_lt
  refine (List.perm_ext_iff_of_nodup ?_ hnd).mpr fun a ↦ ?_
  · refine List.nodup_append.mpr ⟨hnd.filter _, h.nodup, fun a ha b hb hab ↦ ?_⟩
    exact (mem_free.mp ha).2 (hab ▸ hb)
  · rw [List.mem_append, mem_free]
    exact ⟨fun ha ↦ ha.elim (·.1) (h.sub a), fun ha ↦ by tauto⟩

theorem length_eq (h : Chained mem ld live e) :
    (ld.free live).length + ld.buffersUsed = ld.totalBuffers := by
  have hlen := h.perm.length_eq
  rwa [List.length_append, ← h.used, slots, List.length_range'] at hlen

/-- The slab is full exactly when no buffer is free. -/
theorem free_eq_nil_iff (h : Chained mem ld live e) :
    ld.free live = [] ↔ ld.buffersUsed = ld.totalBuffers := by
  have hlen := h.length_eq
  rw [← List.length_eq_zero_iff]
  omega

/-- Only the links of the free buffers matter. -/
theorem congr (h : Chained mem ld live e)
    (hw : ∀ a ∈ ld.free live, readWord mem' a = readWord mem a) : Chained mem' ld live e :=
  ⟨h.sized, h.nodup, h.sub, h.used, h.seg.congr hw, h.tail, h.exhausted⟩

/-- `nextList` and `prevList` do not matter. -/
theorem of_links (h : Chained mem ld live e) (n p : ℕ) :
    Chained mem { ld with nextList := n, prevList := p } live e :=
  ⟨⟨h.sized.base_ne, h.sized.size_le, h.sized.fits, h.sized.lt, h.sized.total_lt⟩, h.nodup, h.sub,
    h.used, h.seg, h.tail, h.exhausted⟩

end Chained

/-! ## `Allocate` -/

/-- A full slab hands out nothing. -/
theorem allocate_full (h : ld.buffersUsed = ld.totalBuffers) : ld.allocate mem = .ok (0, ld) := by
  simp [allocate, h]

/-- **The lowest free buffer is handed out.** -/
theorem Chained.allocate (h : Chained mem ld live e) (hlt : ld.buffersUsed ≠ ld.totalBuffers) :
    ∃ a rest ld' e', ld.free live = a :: rest ∧ ld.allocate mem = .ok (a, ld') ∧
      Chained mem ld' (a :: live) e' ∧ (e' = e ∨ e' = 0) ∧
      ld' = { ld with nextFree := ld'.nextFree, buffersUsed := ld.buffersUsed + 1 } := by
  obtain ⟨a, rest, hfree⟩ := List.exists_cons_of_ne_nil fun h0 ↦ hlt (h.free_eq_nil_iff.mp h0)
  have ha := mem_free.mp (hfree ▸ List.mem_cons_self)
  have hlen := h.length_eq
  rw [hfree, List.length_cons] at hlen
  have hmod : (ld.buffersUsed + 1) % 2 ^ 16 = ld.buffersUsed + 1 :=
    Nat.mod_eq_of_lt (by have := h.sized.total_lt; omega)
  obtain ⟨hhead, hseg⟩ : ld.nextFree = a ∧ Seg (readWord mem) (readWord mem a) rest e := by
    have hseg := h.seg
    rw [hfree] at hseg
    exact hseg
  have ha0 := h.sized.pos ha.1
  set ld' : ListDescriptor := { ld with
    nextFree := if ld.buffersUsed + 1 = ld.totalBuffers then 0 else readWord mem a
    buffersUsed := ld.buffersUsed + 1 } with hld'
  have hfree' : ld'.free (a :: live) = rest := by
    have hsplit : ld'.free (a :: live) = (ld.free live).filter fun b ↦ b ≠ a := by
      simp only [free, List.filter_filter]
      refine List.filter_congr fun b _ ↦ ?_
      simp [not_or]
    have hsorted : (ld.free live).Pairwise (· < ·) := h.sized.pairwise_free
    rw [hfree] at hsorted
    rw [hsplit, hfree, List.filter_cons_of_neg (by simp), List.filter_eq_self]
    intro b hb
    have := (List.pairwise_cons.mp hsorted).1 b hb
    simpa using ne_of_gt this
  have hrest : rest = [] ↔ ld.buffersUsed + 1 = ld.totalBuffers := by
    rw [← List.length_eq_zero_iff]
    omega
  refine ⟨a, rest, ld', if rest = [] then 0 else e, hfree, ?_, ?_, ?_, rfl⟩
  · simp only [ListDescriptor.allocate, if_neg hlt, hhead, load_of_ne ha0, Exec.ok_bind, hmod,
      Exec.pure_eq, hld']
  · refine ⟨⟨h.sized.base_ne, h.sized.size_le, h.sized.fits, h.sized.lt, h.sized.total_lt⟩,
      List.nodup_cons.mpr ⟨ha.2, h.nodup⟩, ?_, ?_, ?_, ?_, ?_⟩
    · intro b hb
      rcases List.mem_cons.mp hb with rfl | hb
      · exact ha.1
      · exact h.sub b hb
    · simp [hld', h.used]
    · rw [hfree']
      by_cases hnil : rest = []
      · simp [hld', hrest.mp hnil, hnil]
      · have hne : ¬ld.buffersUsed + 1 = ld.totalBuffers := fun h0 ↦ hnil (hrest.mpr h0)
        simpa [hld', hne, hnil] using hseg
    · split
      · exact fun h0 ↦ absurd rfl h0
      · exact h.tail
    · intro hnil _
      rw [hfree'] at hnil
      simp [hld', hrest.mp hnil]
  · by_cases hnil : rest = [] <;> simp [hnil]

/-! ## `Deallocate` -/

section Deallocate

/-- The buffer that is returned takes its place among the free ones. -/
theorem Chained.free_erase (h : Chained mem ld live e) (ha : a ∈ live) :
    ld.free (live.erase a) = (ld.free live).orderedInsert (· ≤ ·) a := by
  have hnot : a ∉ ld.free live := fun hf ↦ (mem_free.mp hf).2 ha
  refine h.sized.pairwise_free.eq_of_mem_iff
    (pairwise_orderedInsert h.sized.pairwise_free hnot) fun b ↦ ?_
  rw [List.mem_orderedInsert, mem_free, mem_free, h.nodup.mem_erase_iff]
  constructor
  · rintro ⟨hb, hne⟩
    by_cases hba : b = a
    · exact .inl hba
    · exact .inr ⟨hb, fun hl ↦ hne ⟨hba, hl⟩⟩
  · rintro (rfl | ⟨hb, hl⟩)
    · exact ⟨h.sub b ha, fun hc ↦ hc.1 rfl⟩
    · exact ⟨hb, fun hc ↦ hl hc.2⟩

/-- What is left to show about a `Deallocate`: the links. -/
theorem Chained.of_seg (h : Chained mem ld live e) (ha : a ∈ live)
    (hb : ld'.baseAddress = ld.baseAddress) (hs : ld'.bufferSize = ld.bufferSize)
    (ht : ld'.totalBuffers = ld.totalBuffers) (hp : ld'.pages = ld.pages)
    (hu : ld'.buffersUsed = ld.buffersUsed - 1)
    (hseg : Seg (readWord mem') ld'.nextFree ((ld.free live).orderedInsert (· ≤ ·) a) e) :
    Chained mem' ld' (live.erase a) e := by
  have hslots : ld'.slots = ld.slots := by rw [slots, slots, hb, hs, ht]
  have hfree : ld'.free (live.erase a) = (ld.free live).orderedInsert (· ≤ ·) a := by
    rw [← h.free_erase ha, free, free, hslots]
  refine ⟨⟨?_, ?_, ?_, ?_, ?_⟩, h.nodup.erase a, fun b hb ↦ ?_, ?_, hfree ▸ hseg, ?_, fun h0 _ ↦ ?_⟩
  · exact hb ▸ h.sized.base_ne
  · exact hs ▸ h.sized.size_le
  · rw [ht, hs, hp]
    exact h.sized.fits
  · rw [hb, hp]
    exact h.sized.lt
  · exact ht ▸ h.sized.total_lt
  · exact hslots ▸ h.sub b (List.mem_of_mem_erase hb)
  · rw [hu, h.used, List.length_erase_of_mem ha]
  · rw [hb, ht, hs]
    exact h.tail
  · rw [hfree] at h0
    exact absurd (h0 ▸ (List.mem_orderedInsert _).mpr (.inl rfl)) List.not_mem_nil

theorem Sized.lt_two_pow (h : ld.Sized) (ha : a ∈ ld.slots) : a < 2 ^ 64 := by
  have h1 := (h.bounds ha).2
  have h2 := h.fits
  have h3 := h.lt
  have h4 := h.size_le
  omega

/-- **The search for the place of a live buffer** among the free ones, `l` below it and `m` above
it. -/
theorem Chained.seek (h : Chained mem ld live e) (ha : a ∈ live) (hnf : ld.nextFree ≠ 0)
    {l m : List ℕ} (hlm : ld.free live = l ++ m) (hl : ∀ b ∈ l, b < a) (hm : ∀ b ∈ m, a ≤ b) :
    ∃ c, c < 2 ^ 64 ∧ Seg (readWord mem) ld.nextFree l c ∧ Seg (readWord mem) c m e ∧
      seek (load mem) 0 a (0, ld.nextFree)
        = .ok ((0 :: l).getLast (List.cons_ne_nil 0 l), c) := by
  have hslot := h.sub a ha
  have hpos : ∀ b ∈ l, b ≠ 0 := fun b hb ↦
    h.sized.pos (mem_free.mp (hlm ▸ List.mem_append_left m hb)).1
  have hseg := h.seg
  rw [hlm] at hseg
  obtain ⟨c, hsegl, hsegm⟩ := seg_append.mp hseg
  have hc := hsegm.head_eq
  have hlen := h.length_eq
  have hne : ld.free live ≠ [] := fun h0 ↦ by
    refine hnf (h.exhausted h0 fun ht ↦ ?_)
    have hused := List.length_pos_of_mem ha
    rw [← h.used] at hused
    omega
  have hplace : c ≠ 0 → a ≤ c := by
    intro hc0
    cases m with
    | nil =>
      have hce : c = e := hc
      have h1 := h.tail (hce ▸ hc0)
      have h2 := (h.sized.bounds hslot).2
      omega
    | cons b m => exact hc ▸ hm b List.mem_cons_self
  have hlt : c < 2 ^ 64 := by
    cases m with
    | nil =>
      obtain ⟨l, q, rfl⟩ :=
        List.eq_nil_or_concat l |>.resolve_left fun h0 ↦ hne (by simp [hlm, h0])
      rw [List.concat_eq_append] at hsegl
      obtain ⟨d, -, -, hd⟩ := seg_append.mp hsegl
      exact hd ▸ readWord_lt mem q
    | cons b m =>
      have hb : b ∈ ld.free live := by rw [hlm]; simp
      exact hc ▸ h.sized.lt_two_pow (mem_free.mp hb).1
  have hrounds : l.length < Loop.rounds := by
    have h2 := h.sized.total_lt
    rw [hlm, List.length_append] at hlen
    simp only [Loop.rounds]
    omega
  refine ⟨c, hlt, hsegl, hsegm, ?_⟩
  exact exec_seek 0 (fun b hb ↦ load_of_ne (hpos b hb)) hl (fun h0 ↦ hpos 0 h0 rfl) hplace
    (fun h0 ↦ by subst h0; exact fun hc0 ↦ hnf (hsegl.trans hc0)) hsegl hrounds

/-- When `nextFree` is null no buffer is free, and the chain ends there. -/
theorem Chained.of_nextFree_zero (h : Chained mem ld live e) (hnf : ld.nextFree = 0) :
    ld.free live = [] ∧ e = 0 := by
  have hseg := h.seg
  cases hfree : ld.free live with
  | nil =>
    rw [hfree] at hseg
    exact ⟨rfl, hseg.symm.trans hnf⟩
  | cons b rest =>
    -- the first free buffer would be null
    rw [hfree] at hseg
    have hb : b ∈ ld.free live := hfree ▸ List.mem_cons_self
    exact absurd (hseg.1.symm.trans hnf) (h.sized.pos (mem_free.mp hb).1)

/-- **A live buffer is put back in its place**, and nothing is written but words of free buffers. -/
theorem Chained.deallocate (h : Chained mem ld live e) (ha : a ∈ live) :
    ∃ mem' ld', ld.deallocate mem a = .ok (mem', ld') ∧ Chained mem' ld' (live.erase a) e ∧
      WordsOnly (a :: ld.free live) mem mem' ∧
      ld' = { ld with nextFree := ld'.nextFree, buffersUsed := ld.buffersUsed - 1 } := by
  have hslot := h.sub a ha
  have ha0 := h.sized.pos hslot
  have halt := h.sized.lt_two_pow hslot
  have hrange := h.sized.objectInRange hslot
  have hused : ld.buffersUsed ≠ 0 := by
    have := List.length_pos_of_mem ha
    rw [h.used]
    omega
  have hpos : ∀ b ∈ ld.free live, b ≠ 0 := fun b hb ↦ h.sized.pos (mem_free.mp hb).1
  have hsep : ∀ b ∈ ld.free live, a + 8 ≤ b ∨ b + 8 ≤ a := fun b hb ↦ by
    obtain ⟨hb, hbl⟩ := mem_free.mp hb
    exact h.sized.word_disjoint hslot hb fun he ↦ hbl (he ▸ ha)
  have hasc : (ld.free live).Pairwise (· < ·) := h.sized.pairwise_free
  obtain ⟨l, m, hlm, hl, hm⟩ := exists_split hasc a
  have hins : (ld.free live).orderedInsert (· ≤ ·) a = l ++ a :: m := by
    rw [hlm, orderedInsert_split hl hm]
  by_cases hnf : ld.nextFree = 0
  · -- no buffer is free
    obtain ⟨hnil, he⟩ := h.of_nextFree_zero hnf
    refine ⟨writeWord mem a 0, { ld with nextFree := a, buffersUsed := ld.buffersUsed - 1 }, ?_,
      h.of_seg ha rfl rfl rfl rfl rfl ?_, wordsOnly_writeWord List.mem_cons_self, rfl⟩
    · simp [ListDescriptor.deallocate, hrange, hused, hnf, ha0]
    · rw [hnil, he]
      exact ⟨rfl, readWord_writeWord (by decide)⟩
  · obtain ⟨c, hlt, hsegl, hsegm, hseek⟩ := h.seek ha hnf hlm hl hm
    rcases List.eq_nil_or_concat l with rfl | ⟨l, q, rfl⟩
    · -- the buffer goes in front
      refine ⟨writeWord mem a c, { ld with nextFree := a, buffersUsed := ld.buffersUsed - 1 }, ?_,
        h.of_seg ha rfl rfl rfl rfl rfl ?_, wordsOnly_writeWord List.mem_cons_self, rfl⟩
      · simp [ListDescriptor.deallocate, hrange, hused, hnf, hseek, ha0]
      · rw [hins]
        refine ⟨rfl, ?_⟩
        rw [readWord_writeWord hlt]
        refine hsegm.congr fun b hb ↦ readWord_writeWord_of_disjoint ?_
        exact hsep b (hlm ▸ hb)
    · -- the buffer goes behind `q`
      simp only [List.concat_eq_append, List.append_assoc, List.cons_append, List.nil_append] at *
      have hq : q ∈ ld.free live := by rw [hlm]; simp
      have hqs := (mem_free.mp hq).1
      have hlast : (0 :: (l ++ [q])).getLast (List.cons_ne_nil _ _) = q := by simp
      rw [hlast] at hseek
      have hword : ∀ b ∈ ld.free live, b ≠ q →
          readWord (writeWord (writeWord mem q a) a c) b = readWord mem b := by
        intro b hb hbq
        rw [readWord_writeWord_of_disjoint (hsep b hb), readWord_writeWord_of_disjoint]
        exact h.sized.word_disjoint hqs (mem_free.mp hb).1 hbq.symm
      have hsorted : (ld.free live).Pairwise (· < ·) := h.sized.pairwise_free
      rw [hlm] at hsorted
      obtain ⟨-, hqm, hlq⟩ := List.pairwise_append.mp hsorted
      refine ⟨writeWord (writeWord mem q a) a c, { ld with buffersUsed := ld.buffersUsed - 1 }, ?_,
        h.of_seg ha rfl rfl rfl rfl rfl ?_, ?_, rfl⟩
      · simp [ListDescriptor.deallocate, hrange, hused, hnf, hseek, hpos q hq, ha0]
      · have hseg := h.seg
        rw [hlm] at hseg
        rw [hins]
        refine hseg.insert_after ?_ ?_ (fun b hb ↦ hword b (by rw [hlm]; simp [hb]) ?_)
          fun b hb ↦ hword b (by rw [hlm]; simp [hb]) ?_
        · rw [readWord_writeWord_of_disjoint (hsep q hq), readWord_writeWord halt]
        · rw [readWord_writeWord hlt, hsegm.head_eq]
        · exact ne_of_lt (hlq b hb q List.mem_cons_self)
        · exact ne_of_gt ((List.pairwise_cons.mp hqm).1 b hb)
      · exact (wordsOnly_writeWord (List.mem_cons_of_mem a hq)).trans
          (wordsOnly_writeWord List.mem_cons_self)

end Deallocate

/-! ## `SetupLinkage` -/

/-- How many buffers `SetupLinkage` links: those that start in the region, and the first one in any
case. -/
def linked (ld : ListDescriptor) : ℕ := (0x1000 * ld.pages - 1) / ld.bufferSize + 1

/-- The buffers that `SetupLinkage` links behind the last one that can be allocated. -/
def rest (ld : ListDescriptor) : List ℕ :=
  List.range' (ld.baseAddress + ld.bufferSize * ld.totalBuffers) (ld.linked - ld.totalBuffers)
    ld.bufferSize

/-- **The loop of `SetupLinkage`, with the null at the end**, links buffer after buffer. -/
theorem run_setupLinkageBody (limit : ℕ) {size n : ℕ} (hsize : 8 ≤ size) :
    ∀ {k : ℕ} (mem : Memory) {c : ℕ}, c ≠ 0 → (n ≠ 0 → c + n * size < limit) →
      limit ≤ c + (n + 1) * size → c + (n + 1) * size < 2 ^ 64 → n < k →
      ∃ mem' last, Loop.run (setupLinkageBody size limit) k (mem, c) = .ok (mem', last) ∧
        last ≠ 0 ∧ Seg (readWord (writeWord mem' last 0)) c (List.range' c (n + 1) size) 0 ∧
        WordsOnly (List.range' c (n + 1) size) mem (writeWord mem' last 0) := by
  induction n with
  | zero =>
    intro k mem c hc _ hle hlt hk
    obtain ⟨k, rfl⟩ := Nat.exists_eq_succ_of_ne_zero (Nat.ne_of_gt hk)
    have hadd : add64 c size = c + size := add64_of_lt (by omega)
    refine ⟨mem, c, Loop.run_inr ?_ k, hc, ⟨rfl, readWord_writeWord (by decide)⟩,
      wordsOnly_writeWord List.mem_cons_self⟩
    rw [setupLinkageBody, hadd, if_neg (by omega), Exec.pure_eq]
  | succ n ih =>
    intro k mem c hc hlim hle hlt hk
    obtain ⟨k, rfl⟩ := Nat.exists_eq_succ_of_ne_zero (Nat.ne_of_gt (Nat.zero_lt_of_lt hk))
    have hlim := hlim (Nat.succ_ne_zero n)
    have e1 : (n + 1) * size = size + n * size := by ring
    have e2 : (n + 1 + 1) * size = size + (n + 1) * size := by ring
    rw [e1] at hlim
    rw [e2] at hle hlt
    have hadd : add64 c size = c + size := add64_of_lt (by omega)
    have hbody : setupLinkageBody size limit (mem, c)
        = .ok (.inl (writeWord mem c (c + size), c + size)) := by
      rw [setupLinkageBody, hadd, if_pos (by omega), store_of_ne hc]
      rfl
    obtain ⟨mem', last, hrun, hlast, hseg, hl⟩ := @ih k (writeWord mem c (c + size)) (c + size)
      (by omega) (fun _ ↦ by omega) (by omega) (by omega) (by omega)
    have hword : readWord (writeWord mem' last 0) c = c + size := by
      rw [hl.readWord fun a ha ↦ ?_, readWord_writeWord (by omega)]
      obtain ⟨i, -, rfl⟩ := List.mem_range'.mp ha
      omega
    refine ⟨mem', last, by rw [Loop.run_inl hbody, hrun], hlast, ?_, ?_⟩
    · rw [List.range'_succ, seg_cons, hword]
      exact ⟨rfl, hseg⟩
    · rw [List.range'_succ]
      exact (wordsOnly_writeWord List.mem_cons_self).trans
        (hl.mono fun a ha ↦ List.mem_cons_of_mem c ha)

/-- The last of the linked buffers starts in the region, and ends at its end or behind. -/
theorem mul_linked (hsize : 0 < ld.bufferSize) :
    (ld.linked - 1) * ld.bufferSize ≤ 0x1000 * ld.pages - 1 ∧
    ld.linked * ld.bufferSize = (ld.linked - 1) * ld.bufferSize + ld.bufferSize ∧
    0x1000 * ld.pages ≤ ld.linked * ld.bufferSize := by
  have hdiv := Nat.div_add_mod (0x1000 * ld.pages - 1) ld.bufferSize
  have hmod := Nat.mod_lt (0x1000 * ld.pages - 1) hsize
  rw [Nat.mul_comm] at hdiv
  have hsucc : ld.linked * ld.bufferSize = (ld.linked - 1) * ld.bufferSize + ld.bufferSize := by
    rw [linked, Nat.add_sub_cancel]
    ring
  rw [linked, Nat.add_sub_cancel] at *
  omega

/-- Every buffer that can be allocated is linked. -/
theorem Sized.mul_linked (h : ld.Sized) : ld.totalBuffers ≤ ld.linked ∧
    0x1000 * ld.pages ≤ ld.linked * ld.bufferSize ∧
    (ld.linked - 1) * ld.bufferSize ≤ 0x1000 * ld.pages - 1 := by
  have hsize := h.size_le
  have hfits := h.fits
  obtain ⟨hle, hsucc, hge⟩ := ListDescriptor.mul_linked (show 0 < ld.bufferSize by omega)
  refine ⟨?_, hge, hle⟩
  by_contra hlt
  have hmul : (ld.linked + 1) * ld.bufferSize ≤ ld.totalBuffers * ld.bufferSize :=
    Nat.mul_le_mul_right ld.bufferSize (not_le.mp hlt)
  have hnext : (ld.linked + 1) * ld.bufferSize = ld.linked * ld.bufferSize + ld.bufferSize := by
    ring
  omega

theorem slots_append_rest (h : ld.Sized) :
    ld.slots ++ ld.rest = List.range' ld.baseAddress ld.linked ld.bufferSize := by
  rw [slots, rest, List.range'_append, Nat.add_sub_of_le h.mul_linked.1]

/-- **`SetupLinkage` links the buffers of a slab.**  What is linked behind them is `rest`. -/
theorem Sized.setupLinkage (h : ld.Sized) (hused : ld.buffersUsed = 0)
    (hend : ld.baseAddress + ld.linked * ld.bufferSize < 2 ^ 64) (mem : Memory) :
    ∃ mem' ld', ld.setupLinkage mem = .ok (mem', ld') ∧
      Chained mem' ld' [] (ld.rest.headD 0) ∧ Seg (readWord mem') (ld.rest.headD 0) ld.rest 0 ∧
      WordsOnly (List.range' ld.baseAddress ld.linked ld.bufferSize) mem mem' ∧
      ld' = { ld with nextFree := ld.baseAddress } := by
  obtain ⟨-, hge, hle⟩ := h.mul_linked
  have hlimit := h.limit_eq
  have hlink : ld.linked = ld.linked - 1 + 1 := rfl
  have hround : ld.linked - 1 < Loop.rounds := by
    have h1 := h.lt
    have h2 := h.size_le
    have h3 := Nat.le_mul_of_pos_right (ld.linked - 1) (show 0 < ld.bufferSize by omega)
    simp only [Loop.rounds]
    omega
  obtain ⟨mem₁, last, hrun, hlast, hseg, hl⟩ := run_setupLinkageBody ld.limit h.size_le mem
    h.base_ne (fun hn ↦ by
      have h1 := Nat.le_mul_of_pos_right (ld.linked - 1)
        (show 0 < ld.bufferSize by have := h.size_le; omega)
      omega) (by rw [hlimit, ← hlink]; omega) (by rw [← hlink]; exact hend) hround
  rw [← hlink] at hseg hl
  rw [← slots_append_rest h] at hseg
  obtain ⟨c, hsegl, hsegr⟩ := seg_append.mp hseg
  obtain rfl : c = ld.rest.headD 0 := hsegr.head_eq
  refine ⟨writeWord mem₁ last 0, { ld with nextFree := ld.baseAddress }, ?_, ?_, hsegr, hl, rfl⟩
  · have hexec : Loop.exec (setupLinkageBody ld.bufferSize ld.limit) (mem, ld.baseAddress)
        = .ok (mem₁, last) := hrun
    simp [ListDescriptor.setupLinkage, hexec, hlast]
  · refine ⟨⟨h.base_ne, h.size_le, h.fits, h.lt, h.total_lt⟩, List.nodup_nil, by simp, hused, ?_,
      fun hne ↦ ?_, fun hnil ht ↦ ?_⟩
    · simpa [free, slots] using hsegl
    · cases hr : ld.rest with
      | nil => rw [hr] at hne; exact absurd rfl hne
      | cons b r =>
        have hb : b ∈ ld.rest := by rw [hr]; exact List.mem_cons_self
        obtain ⟨i, -, rfl⟩ := List.mem_range'.mp hb
        simp only [List.headD_cons]
        rw [Nat.mul_comm ld.totalBuffers]
        omega
    · have hlen := congrArg List.length hnil
      simp [free, slots] at hlen
      exact absurd hlen ht

end ListDescriptor

end Chisaka.Slab
