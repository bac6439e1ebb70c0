import Mathlib.Logic.Function.Basic
import Chisaka.Kheap.Slab.HeapRings
import Chisaka.Kheap.Slab.ListDescriptorRuns
import Chisaka.Kheap.Slab.Allocator

/-!
# Moving a descriptor

`dst = std::move(src)` puts `dst` where `src` was in its ring, but it leaves the links of `src` as
they are.  When `src` is destroyed it takes itself out of the ring it is no longer in, and links its
old neighbours to each other, past `dst`.  So the ring is never what it should be
(`moveOut_not_ring`): a descriptor that was alone ends up linked to `src`, which no longer exists,
and a larger ring is closed again without `dst`.

`InitialiseLists` moves a local variable in this way, and the first descriptor of the heap is left
linked to the stack (`initialiseLists_spec`).
-/

set_option autoImplicit false

namespace Chisaka.Slab

open Bytes

variable {h h' : Heap} {d dst src x : ℕ} {L A B : List ℕ} {ld : ListDescriptor}

namespace Heap

/-- `dst = std::move(src)`, and the end of the life of `src`. -/
def moveOut (h : Heap) (dst src : ℕ) : Exec Heap := do
  let h ← h.moveAssign dst src
  h.destroy src

theorem next_put (h : Heap) (d : ℕ) (ld : ListDescriptor) :
    (h.put d ld).next = Function.update h.next d ld.nextList := by
  funext x
  by_cases hx : x = d
  · simp [next, put, hx]
  · simp [next, put, hx]

theorem prev_put (h : Heap) (d : ℕ) (ld : ListDescriptor) :
    (h.put d ld).prev = Function.update h.prev d ld.prevList := by
  funext x
  by_cases hx : x = d
  · simp [prev, put, hx]
  · simp [prev, put, hx]

theorem live_put (ld : ListDescriptor) (hx : h.Live x) : (h.put d ld).Live x := by
  obtain ⟨hx0, ldx, he⟩ := hx
  by_cases hxd : x = d
  · exact ⟨hx0, ld, by simp [put, hxd]⟩
  · exact ⟨hx0, ldx, by simp [put, hxd, he]⟩

theorem live_put_self (ld : ListDescriptor) (hd : d ≠ 0) : (h.put d ld).Live d :=
  ⟨hd, ld, by simp [put]⟩

theorem next_kill (h : Heap) (hx : x ≠ d) : (h.kill d).next x = h.next x := by
  simp [next, kill, hx]

theorem prev_kill (h : Heap) (hx : x ≠ d) : (h.kill d).prev x = h.prev x := by
  simp [prev, kill, hx]

theorem deref_of_live (hx : h.Live x) : ∃ ld, h.deref x = .ok ld ∧ ld.nextList = h.next x ∧
    ld.prevList = h.prev x := by
  obtain ⟨ld, he, hd⟩ := hx.deref
  exact ⟨ld, hd, (next_eq he).symm, (prev_eq he).symm⟩

/-- **What the move does to the links.**  When `src` is alone, its own `prev` link is the one that
is pointed at `dst`, and it is read again afterwards. -/
theorem moveAssign_links (hsrc : h.Live src) (hn : h.Live (h.next src)) (hp : h.Live (h.prev src))
    (hdst : dst ≠ 0) (hne : dst ≠ src) (hnd : h.next src ≠ dst) :
    ∃ h' q, q = (if h.next src = src then dst else h.prev src) ∧
      h.moveAssign dst src = .ok h' ∧ (∀ x, h.Live x ∨ x = dst → h'.Live x) ∧
      h'.next = Function.update (Function.update h.next dst (h.next src)) q dst ∧
      h'.prev = Function.update (Function.update h.prev (h.next src) dst) dst q := by
  obtain ⟨s, hs, hsn, hsp⟩ := deref_of_live hsrc
  have hn0 : s.nextList ≠ 0 := hsn ▸ hn.1
  set h₀ := h.put dst s with hh₀
  have hn₁ : h₀.Live s.nextList := live_put s (hsn ▸ hn)
  set h₁ := h₀.setLinks s.nextList (h₀.next s.nextList) dst with hh₁
  have hs₁ : SameSlabs h₀ h₁ := sameSlabs_setLinks h₀ s.nextList (h₀.next s.nextList) dst
  have hsrc₁ : h₁.Live src := hs₁.live.mpr (live_put s hsrc)
  have hdst₁ : h₁.Live dst := hs₁.live.mpr (live_put_self s hdst)
  have hnext₁ : h₁.next = Function.update h.next dst (h.next src) := by
    rw [hh₁, next_setLinks hn₁, Function.update_eq_self, hh₀, next_put, hsn]
  have hprev₁ : h₁.prev
      = Function.update (Function.update h.prev dst (h.prev src)) (h.next src) dst := by
    rw [hh₁, prev_setLinks hn₁, hh₀, prev_put, hsn, hsp]
  -- the link of `src` that is read next
  obtain ⟨s₁, hd₁, -, hq⟩ := deref_of_live hsrc₁
  have hq' : s₁.prevList = if h.next src = src then dst else h.prev src := by
    rw [hq, hprev₁]
    by_cases hself : h.next src = src
    · rw [if_pos hself, hself, Function.update_self]
    · rw [if_neg hself, Function.update_of_ne (Ne.symm hself), Function.update_of_ne hne.symm]
  set q := s₁.prevList with hqdef
  have hqlive : h₁.Live q := by
    rw [hq']
    split
    · exact hdst₁
    · exact hs₁.live.mpr (live_put s hp)
  set h₂ := h₁.setLinks dst (h₁.next dst) q with hh₂
  have hs₂ : SameSlabs h₁ h₂ := sameSlabs_setLinks h₁ dst (h₁.next dst) q
  have hq₂ : h₂.Live q := hs₂.live.mpr hqlive
  have hprev₂ : h₂.prev = Function.update (Function.update h.prev (h.next src) dst) dst q := by
    rw [hh₂, prev_setLinks hdst₁, hprev₁, Function.update_comm hnd, Function.update_idem,
      Function.update_comm hnd.symm]
  have hnext₂ : h₂.next = Function.update h.next dst (h.next src) := by
    rw [hh₂, next_setLinks hdst₁, Function.update_eq_self, hnext₁]
  obtain ⟨s₂, hd₂, -, hq₂'⟩ := deref_of_live (hs₂.live.mpr hsrc₁)
  have hsq : s₂.prevList = q := by
    rw [hq₂', hh₂, prev_setLinks hdst₁, Function.update_of_ne hne.symm, ← hq]
  refine ⟨h₂.setLinks q dst (h₂.prev q), q, hq', ?_, fun x hx ↦ ?_, ?_, ?_⟩
  · have hm₁ := hn₁.modify_prev dst
    have hm₂ := hdst₁.modify_prev q
    have hm₃ := hq₂.modify_next dst
    rw [← hh₁] at hm₁
    rw [← hh₂] at hm₂
    simp [moveAssign, hs, ← hh₀, hn0, hm₁, hd₁, ← hqdef, hm₂, hqlive.1, hd₂, hsq, hm₃]
  · have hlive : h₀.Live x := hx.elim (live_put s) fun he ↦ he ▸ live_put_self s hdst
    exact (sameSlabs_setLinks h₂ _ _ _).live.mpr (hs₂.live.mpr (hs₁.live.mpr hlive))
  · rw [next_setLinks hq₂, hnext₂]
  · rw [prev_setLinks hq₂, Function.update_eq_self, hprev₂]

/-- Destroying a descriptor that is linked to others: they are linked to each other. -/
theorem destroy_links (hx : h.Live x) (hn : h.Live (h.next x)) (hp : h.Live (h.prev x))
    (hself : ¬(h.next x = x ∧ h.prev x = x)) :
    ∃ h', h.destroy x = .ok h' ∧ ∀ y, y ≠ x →
      h'.next y = if y = h.prev x then h.next x else h.next y := by
  obtain ⟨h₁, hext, -, -, hnext, -⟩ := extractSelf_links hx hn hp hself
  refine ⟨h₁.kill x, by simp [destroy, hext], fun y hy ↦ ?_⟩
  rw [next_kill h₁ hy, hnext, Function.update_of_ne hy, Function.update_apply]

/-- **Moving a descriptor out of its ring never leaves the ring it should.** -/
theorem moveOut_not_ring (hr : LinkRing h.next h.prev (src :: L)) (hlive : ∀ d ∈ src :: L, h.Live d)
    (hdst : dst ≠ 0) (hnot : dst ∉ src :: L) :
    ∃ h', h.moveOut dst src = .ok h' ∧ ¬LinkRing h'.next h'.prev (dst :: L) := by
  have hsrc := hlive src List.mem_cons_self
  have hne : dst ≠ src := fun he ↦ hnot (he ▸ List.mem_cons_self)
  cases L with
  | nil =>
    -- alone: `dst` is linked to `src` when `src` goes
    obtain ⟨hn, hp⟩ := LinkRing.singleton_iff.mp hr
    obtain ⟨h₁, q, hq, hmove, hlive₁, hnext₁, hprev₁⟩ :=
      moveAssign_links hsrc (hn.symm ▸ hsrc) (hp.symm ▸ hsrc) hdst hne (by rw [hn]; exact hne.symm)
    rw [if_pos hn] at hq
    have hn₁ : h₁.next src = src := by
      rw [hnext₁, hq, Function.update_of_ne hne.symm, Function.update_of_ne hne.symm, hn]
    have hp₁ : h₁.prev src = dst := by
      rw [hprev₁, hq, Function.update_of_ne hne.symm, hn, Function.update_self]
    obtain ⟨h₂, hdes, hnext₂⟩ := destroy_links (hlive₁ src (.inl hsrc))
      (hn₁.symm ▸ hlive₁ src (.inl hsrc)) (hp₁.symm ▸ hlive₁ dst (.inr rfl))
      fun he ↦ hne (hp₁.symm.trans he.2)
    refine ⟨h₂, by simp [moveOut, hmove, hdes], fun hring ↦ hne ?_⟩
    have hself := (LinkRing.singleton_iff.mp hring).1
    rw [hnext₂ dst hne, hp₁, if_pos rfl, hn₁] at hself
    exact hself.symm
  | cons y L =>
    -- the last descriptor of the ring is linked past `dst`
    have hsrcL : src ∉ y :: L := (List.nodup_cons.mp hr.nodup).1
    obtain ⟨hnL, hpL⟩ : h.next src ∈ y :: L ∧ h.prev src ∈ y :: L := by
      have hmem :=
        LinkRing.neighbours_mem (show LinkRing h.next h.prev ([] ++ src :: y :: L) from hr)
      simpa using hmem (List.cons_ne_nil y L)
    have hnd : h.next src ≠ dst := fun he ↦ hnot (he ▸ List.mem_cons_of_mem src hnL)
    have hpd : h.prev src ≠ dst := fun he ↦ hnot (he ▸ List.mem_cons_of_mem src hpL)
    have hns : h.next src ≠ src := fun he ↦ hsrcL (he ▸ hnL)
    have hps : h.prev src ≠ src := fun he ↦ hsrcL (he ▸ hpL)
    have hnl := hlive _ (List.mem_cons_of_mem src hnL)
    have hpl := hlive _ (List.mem_cons_of_mem src hpL)
    obtain ⟨h₁, q, hq, hmove, hlive₁, hnext₁, hprev₁⟩ :=
      moveAssign_links hsrc hnl hpl hdst hne hnd
    rw [if_neg hns] at hq
    have hn₁ : h₁.next src = h.next src := by
      rw [hnext₁, hq, Function.update_of_ne hps.symm, Function.update_of_ne hne.symm]
    have hp₁ : h₁.prev src = h.prev src := by
      rw [hprev₁, Function.update_of_ne hne.symm, Function.update_of_ne hns.symm]
    obtain ⟨h₂, hdes, hnext₂⟩ := destroy_links (hlive₁ src (.inl hsrc))
      (hn₁.symm ▸ hlive₁ _ (.inl hnl)) (hp₁.symm ▸ hlive₁ _ (.inl hpl))
      fun he ↦ hns (hn₁.symm.trans he.1)
    refine ⟨h₂, by simp [moveOut, hmove, hdes], fun hring ↦ hnd ?_⟩
    obtain ⟨M, z, hM⟩ : ∃ M z, y :: L = M ++ [z] :=
      ⟨_, _, (List.dropLast_append_getLast (List.cons_ne_nil y L)).symm⟩
    have hz : h.prev src = z := (hr.prev_head (M := src :: M) (by rw [hM]; rfl)).2
    have hlast := (hring.prev_head (M := dst :: M) (by rw [hM]; rfl)).1
    rwa [← hz, hnext₂ _ hps, hp₁, if_pos rfl, hn₁] at hlast

end Heap

/-! ## `InitialiseLists` -/

namespace Allocator

variable {a a' : Allocator} {b : Buffer} {stack base : ℕ} {mem mem' : Memory}

/-- `SetupLinkage` changes nothing of the descriptor but `m_nextFree`. -/
theorem setupLinkage_desc {ld ld' : ListDescriptor} (hset : ld.setupLinkage mem = .ok (mem', ld')) :
    ld' = { ld with nextFree := ld.baseAddress } := by
  obtain ⟨⟨m, c⟩, -, hset⟩ := Exec.bind_eq_ok.mp hset
  obtain ⟨m', -, hset⟩ := Exec.bind_eq_ok.mp hset
  simp only [Exec.pure_eq, Except.ok.injEq, Prod.mk.injEq] at hset
  exact hset.2.symm

/-- The descriptor of the first page of the heap, as `InitialiseLists` leaves it: one buffer is
used, by the descriptor itself, and `NextList` is the address of the local variable. -/
def firstList (base nextFree stack : ℕ) : ListDescriptor :=
  ⟨base, nextFree, stack, base, 64, 64, 1, 1⟩

/-- A heap, with what is at two addresses put first. -/
def withTwo (m : Memory) (descs : ℕ → Option ListDescriptor) (x y : ℕ)
    (ldx ldy : Option ListDescriptor) : Heap :=
  ⟨m, fun z ↦ if z = x then ldx else if z = y then ldy else descs z⟩

section WithTwo

variable {m : Memory} {descs : ℕ → Option ListDescriptor} {x y : ℕ} {ldx ldy ld : ListDescriptor}
  {ox oy : Option ListDescriptor}

@[simp] theorem mem_withTwo : (withTwo m descs x y ox oy).mem = m := rfl

theorem put_fst : (withTwo m descs x y ox oy).put x ld = withTwo m descs x y (some ld) oy := by
  simp only [withTwo, Heap.put, Heap.mk.injEq, true_and]
  funext z
  by_cases hz : z = x <;> simp [hz]

theorem put_snd (hne : x ≠ y) :
    (withTwo m descs x y ox oy).put y ld = withTwo m descs x y ox (some ld) := by
  simp only [withTwo, Heap.put, Heap.mk.injEq, true_and]
  funext z
  by_cases hz : z = y
  · simp [hz, hne.symm]
  · simp [hz]

theorem deref_fst (hx : x ≠ 0) : (withTwo m descs x y (some ldx) oy).deref x = .ok ldx := by
  simp [withTwo, Heap.deref, hx]

theorem deref_snd (hy : y ≠ 0) (hne : x ≠ y) :
    (withTwo m descs x y ox (some ldy)).deref y = .ok ldy := by
  simp [withTwo, Heap.deref, hy, hne.symm]

theorem descs_snd (hne : x ≠ y) : (withTwo m descs x y ox oy).descs y = oy := by
  simp [withTwo, hne.symm]

/-- What is in a heap of two addresses, of which the first is empty. -/
theorem isSome_descs_snd {z : ℕ} (hne : x ≠ y) :
    ((withTwo m (fun _ ↦ none) x y none (some ldy)).descs z).isSome ↔ z = y := by
  by_cases hz : z = y
  · rw [hz, descs_snd hne]
    exact iff_of_true rfl rfl
  · by_cases hzx : z = x <;> simp [withTwo, hz, hzx, hne]

theorem kill_fst : (withTwo m descs x y ox oy).kill x = withTwo m descs x y none oy := by
  simp only [withTwo, Heap.kill, Heap.mk.injEq, true_and]
  funext z
  by_cases hz : z = x <;> simp [hz]

end WithTwo

/-- **What `InitialiseLists` does.** -/
theorem initialiseLists_spec {ld : ListDescriptor} (hb : a.buffers.deref a.buffer64 = .ok b)
    (hsize : b.bufferSize = 64) (hp : b.partialLists = 0) (hstack : stack ≠ 0) (hbase : base ≠ 0)
    (hne : stack ≠ base)
    (hset : (ListDescriptor.new stack base 64 1).setupLinkage a.heap.mem = .ok (mem, ld)) :
    a.initialiseLists stack base = .ok
      { a with
        heap := withTwo mem a.heap.descs stack base none
          (some (firstList base (readWord mem base) stack))
        buffers := a.buffers.put a.buffer64 { b.countOp with partialLists := base } } := by
  have hld : ld = ⟨base, base, stack, stack, 64, 64, 0, 1⟩ := setupLinkage_desc hset
  have hput : ∀ ld, a.heap.put stack ld
      = withTwo a.heap.mem a.heap.descs stack base (some ld) (a.heap.descs base) := fun ld ↦ by
    simp only [withTwo, Heap.put, Heap.mk.injEq, true_and]
    funext z
    by_cases hz : z = base <;> simp [hz]
  -- the local variable is set up, and allocates the place for its successor
  have hlink : (a.heap.put stack (ListDescriptor.new stack base 64 1)).setupLinkage stack
      = .ok (withTwo mem a.heap.descs stack base (some ⟨base, base, stack, stack, 64, 64, 0, 1⟩)
        (a.heap.descs base)) := by
    rw [hput, Heap.setupLinkage, deref_fst hstack, Exec.ok_bind, mem_withTwo, hset, Exec.ok_bind,
      hld]
    exact congrArg Except.ok put_fst
  have halloc : (withTwo mem a.heap.descs stack base (some ⟨base, base, stack, stack, 64, 64, 0, 1⟩)
      (a.heap.descs base)).allocate stack = .ok (base, withTwo mem a.heap.descs stack base
        (some ⟨base, readWord mem base, stack, stack, 64, 64, 1, 1⟩) (a.heap.descs base)) := by
    simp [Heap.allocate, deref_fst hstack, ListDescriptor.allocate, load_of_ne hbase, put_fst]
  -- the successor points at itself, and the local variable at it
  have hmove : (withTwo mem a.heap.descs stack base
      (some ⟨base, readWord mem base, stack, stack, 64, 64, 1, 1⟩) (a.heap.descs base)).moveAssign
        base stack = .ok (withTwo mem a.heap.descs stack base
          (some ⟨base, readWord mem base, stack, base, 64, 64, 1, 1⟩)
          (some ⟨base, readWord mem base, base, base, 64, 64, 1, 1⟩)) := by
    simp [Heap.moveAssign, Heap.modify, deref_fst hstack, deref_snd hbase hne, put_fst, put_snd hne,
      hstack, hbase]
  have hadd : b.addList (withTwo mem a.heap.descs stack base
      (some ⟨base, readWord mem base, stack, base, 64, 64, 1, 1⟩)
      (some ⟨base, readWord mem base, base, base, 64, 64, 1, 1⟩)) base
        = .ok ({ b.countOp with partialLists := base }, withTwo mem a.heap.descs stack base
          (some ⟨base, readWord mem base, stack, base, 64, 64, 1, 1⟩)
          (some ⟨base, readWord mem base, base, base, 64, 64, 1, 1⟩)) := by
    simp [Buffer.addList, deref_snd hbase hne, hsize, Buffer.countOp, ListDescriptor.full,
      ListDescriptor.empty, Buffer.tryAddPartialList, Buffer.tryAddList, Buffer.head, hp,
      Heap.modify, put_snd hne, Buffer.setHead]
  -- and when the local variable goes, it is linked to it once more
  have hdes : (withTwo mem a.heap.descs stack base
      (some ⟨base, readWord mem base, stack, base, 64, 64, 1, 1⟩)
      (some ⟨base, readWord mem base, base, base, 64, 64, 1, 1⟩)).destroy stack
        = .ok (withTwo mem a.heap.descs stack base none
          (some (firstList base (readWord mem base) stack))) := by
    simp [Heap.destroy, Heap.extractSelf, Heap.modify, deref_fst hstack, deref_snd hbase hne,
      put_fst, put_snd hne, hne, hne.symm, kill_fst, firstList]
  simp [initialiseLists, hlink, halloc, hmove, addListTo, hb, hadd, hdes]

/-- The first page of the heap can be linked: 64 buffers of 64 bytes, and no rest. -/
theorem setupLinkage_firstPage (hbase : base ≠ 0) (hlt : base + 0x1000 < 2 ^ 64) (this : ℕ)
    (mem : Memory) :
    ∃ mem', (ListDescriptor.new this base 64 1).setupLinkage mem
        = .ok (mem', ⟨base, base, this, this, 64, 64, 0, 1⟩) ∧
      ListDescriptor.Chained mem' ⟨base, base, this, this, 64, 64, 0, 1⟩ [] 0 := by
  have hnew : ListDescriptor.new this base 64 1 = ⟨base, 0, this, this, 64, 64, 0, 1⟩ := rfl
  have hsized : (ListDescriptor.new this base 64 1).Sized := ListDescriptor.new_sized hbase hlt
  rw [hnew] at hsized ⊢
  obtain ⟨mem', ld, hset, hch, -, -, rfl⟩ := hsized.setupLinkage rfl (by
    simpa [ListDescriptor.linked] using hlt) mem
  exact ⟨mem', hset, by simpa [ListDescriptor.rest, ListDescriptor.linked] using hch⟩

/-- The first buffer of the page is the descriptor itself. -/
theorem chained_firstList {m : Memory} (hbase : base ≠ 0)
    (hch : ListDescriptor.Chained m ⟨base, base, stack, stack, 64, 64, 0, 1⟩ [] 0) :
    ∃ e, ListDescriptor.Chained m (firstList base (readWord m base) stack) [base] e := by
  obtain ⟨c, rest, ld, e, -, hal, hch', -, -⟩ := hch.allocate (by decide : (0 : ℕ) ≠ 64)
  have hfirst : ListDescriptor.allocate m ⟨base, base, stack, stack, 64, 64, 0, 1⟩
      = .ok (base, ⟨base, readWord m base, stack, stack, 64, 64, 1, 1⟩) := by
    simp [ListDescriptor.allocate, load_of_ne hbase]
  obtain ⟨rfl, rfl⟩ := Prod.mk.inj (Except.ok.inj (hfirst.symm.trans hal))
  exact ⟨e, hch'.of_links stack base⟩

/-- The links of the first descriptor of the heap. -/
theorem next_firstList {m : Memory} {descs : ℕ → Option ListDescriptor} {nextFree : ℕ}
    (hne : stack ≠ base) :
    (withTwo m descs stack base none (some (firstList base nextFree stack))).next base = stack := by
  simp [Heap.next, withTwo, hne.symm, firstList]

/-- **A move to `dst` never leaves the ring it should**: neither in general, nor in
`InitialiseLists`, whose descriptor is left linked to a variable that is gone. -/
theorem moved_never_ring (dst : ℕ) :
    (∀ (h : Heap) (A B : List ℕ) (src : ℕ), LinkRing h.next h.prev (A ++ src :: B) →
      (∀ d ∈ A ++ src :: B, h.Live d) → dst ≠ 0 → dst ∉ A ++ src :: B →
      ∃ h', h.moveOut dst src = .ok h' ∧ ¬LinkRing h'.next h'.prev (A ++ dst :: B)) ∧
    ∀ (a a' : Allocator) (b : Buffer) (stack : ℕ), a.buffers.deref a.buffer64 = .ok b →
      b.bufferSize = 64 → b.partialLists = 0 → stack ≠ dst →
      a.initialiseLists stack dst = .ok a' →
      ¬∃ b', a'.buffers.deref a'.buffer64 = .ok b' ∧ b'.partialLists = dst ∧
        LinkRing a'.heap.next a'.heap.prev [dst] := by
  refine ⟨fun h A B src hr hlive hdst hnot ↦ ?_, fun a a' b stack hb hsize hp hne hok ↦ ?_⟩
  · have hmem : ∀ x, x ∈ src :: (B ++ A) ↔ x ∈ A ++ src :: B := fun x ↦ by
      simp only [List.mem_cons, List.mem_append]
      tauto
    have hrot : LinkRing h.next h.prev (src :: (B ++ A)) := hr.rotate
    obtain ⟨h', hmove, hring⟩ := Heap.moveOut_not_ring hrot
      (fun d hd ↦ hlive d ((hmem d).mp hd)) hdst fun hd ↦ hnot ((hmem dst).mp hd)
    exact ⟨h', hmove, fun hr' ↦ hring hr'.rotate⟩
  · rintro ⟨-, -, -, hring⟩
    have hstack : stack ≠ 0 := by
      rintro rfl
      simp [initialiseLists, Heap.setupLinkage, Heap.deref] at hok
    cases hset : (ListDescriptor.new stack dst 64 1).setupLinkage a.heap.mem with
    | error e =>
      simp [initialiseLists, Heap.setupLinkage, Heap.deref, Heap.put, hstack, hset] at hok
    | ok r =>
      have hdst : dst ≠ 0 := by
        rintro rfl
        rw [setupLinkage_null] at hset
        cases hset
      rw [initialiseLists_spec hb hsize hp hstack hdst hne hset] at hok
      cases hok
      have hself := (LinkRing.singleton_iff.mp hring).1
      rw [next_firstList hne] at hself
      exact hne hself

/-- The allocator when `Init` calls `InitialiseLists`, in a memory of zeros. -/
def atInit : Allocator :=
  ⟨⟨fun _ ↦ 0, fun _ ↦ none⟩, fun p ↦ if p = 8 then some (Buffer.new 8 64) else none, 8, 0⟩

theorem atInit_initialiseLists : ∃ mem, atInit.initialiseLists 0x9000 0x1000 = .ok
    { atInit with
      heap := withTwo mem atInit.heap.descs 0x9000 0x1000 none
        (some (firstList 0x1000 (readWord mem 0x1000) 0x9000))
      buffers :=
        atInit.buffers.put 8 { (Buffer.new 8 64).countOp with partialLists := 0x1000 } } := by
  obtain ⟨mem, hset, -⟩ := setupLinkage_firstPage (show 0x1000 ≠ 0 by decide) (by decide) 0x9000
    atInit.heap.mem
  exact ⟨mem, initialiseLists_spec rfl rfl rfl (by decide) (by decide) (by decide) hset⟩

/-- A ring of two, and the first page of a heap. -/
theorem moved_never_ring_examples :
    (∃ h', (withTwo (fun _ ↦ 0) (fun _ ↦ none) 64 128 (some ⟨0x1000, 0, 128, 128, 64, 64, 0, 1⟩)
        (some ⟨0x2000, 0, 64, 64, 64, 64, 0, 1⟩)).moveOut 192 64 = .ok h' ∧
      ¬LinkRing h'.next h'.prev [192, 128]) ∧
    ∃ a', atInit.initialiseLists 0x9000 0x1000 = .ok a' ∧
      ¬∃ b', a'.buffers.deref a'.buffer64 = .ok b' ∧ b'.partialLists = 0x1000 ∧
        LinkRing a'.heap.next a'.heap.prev [0x1000] := by
  refine ⟨(moved_never_ring 192).1 _ [] [128] 64 ⟨by decide, ?_⟩ ?_ (by decide) (by decide), ?_⟩
  · exact Linked.cons_cons.mpr ⟨⟨rfl, rfl⟩, Linked.cons_cons.mpr ⟨⟨rfl, rfl⟩, Linked.singleton⟩⟩
  · intro d hd
    have hd' : d = 64 ∨ d = 128 := by simpa using hd
    rcases hd' with rfl | rfl
    · exact ⟨by decide, _, rfl⟩
    · exact ⟨by decide, _, rfl⟩
  · obtain ⟨mem, hok⟩ := atInit_initialiseLists
    exact ⟨_, hok, (moved_never_ring 0x1000).2 atInit _ _ 0x9000 rfl rfl rfl (by decide) hok⟩

/-- **The first descriptor of the heap is left linked to the stack.** -/
theorem not_ring_initialiseLists : ∃ a', atInit.initialiseLists 0x9000 0x1000 = .ok a' ∧
    a'.heap.next 0x1000 = 0x9000 ∧ a'.heap.descs 0x9000 = none ∧
    ¬LinkRing a'.heap.next a'.heap.prev [0x1000] := by
  obtain ⟨mem, hok⟩ := atInit_initialiseLists
  have hnext : (withTwo mem atInit.heap.descs 0x9000 0x1000 none
      (some (firstList 0x1000 (readWord mem 0x1000) 0x9000))).next 0x1000 = 0x9000 :=
    next_firstList (by decide)
  refine ⟨_, hok, hnext, rfl, fun hring ↦ ?_⟩
  have hself := (LinkRing.singleton_iff.mp hring).1
  rw [hnext] at hself
  cases hself

end Allocator

end Chisaka.Slab
