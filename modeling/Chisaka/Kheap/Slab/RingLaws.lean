import Chisaka.Lib.RingOps
import Chisaka.Kheap.Slab.AllocatorSpec

/-!
# The laws of the list operations

Descriptors and buffers have the same four methods for their rings: `AddList` (`AddBuffer`),
`Remove`, `Extract` and `ExtractSelf`.  `ListDescriptor.ops` and `Buffer.ops` are the two sets of
methods, and `ringOps_lawful` is that both do what `RingOps.Lawful` says.

They differ in what they admit.  `AddList` adds a descriptor of the same size only; the buffers on a
ring are of different sizes, and `AddBuffer` adds any of them.
-/

set_option autoImplicit false

namespace Chisaka.Slab

/-! ## Descriptors -/

namespace Heap

variable {h h' : Heap} {x y : ℕ} {L M : List ℕ}

theorem extract_eq_remove (h : Heap) (this entry : ℕ) : h.extract this entry =
    (h.remove this entry >>= fun h' ↦ pure (if this = entry then 0 else entry, h')) := by
  by_cases hte : this = entry
  · simp [extract, remove, hte]
  · cases hd : h.deref this with
    | error e => simp [extract, remove, hte, hd]
    | ok t =>
      by_cases htwo : t.prevList = entry ∧ t.nextList = entry
      · simp [extract, remove, hte, hd, htwo]
      · simp [extract, remove, hte, hd, htwo, bind_assoc]

/-- `Remove` leaves what `Extract` leaves. -/
theorem remove_of_extract {r : ℕ} (he : h.extract x y = .ok (r, h')) : h.remove x y = .ok h' := by
  rw [extract_eq_remove, Exec.bind_eq_ok] at he
  obtain ⟨h₁, hr, heq⟩ := he
  cases heq
  exact hr

/-- `ExtractSelf` wherever the descriptor is on its ring. -/
theorem extractSelf_mem (hr : LinkRing h.next h.prev (L ++ x :: M))
    (hlive : ∀ d ∈ L ++ x :: M, h.Live d) :
    ∃ h', h.extractSelf x = .ok h' ∧ SameSlabs h h' ∧ LinkRing h'.next h'.prev (L ++ M) ∧
      LinkRing h'.next h'.prev [x] ∧ LinksOnly (L ++ x :: M) h h' := by
  have hrot : LinkRing h.next h.prev (x :: (M ++ L)) := hr.rotate
  have hmem : ∀ d, d ∈ x :: (M ++ L) → d ∈ L ++ x :: M := fun d hd ↦
    List.perm_append_comm.subset (show d ∈ (x :: M) ++ L from hd)
  by_cases hne : M ++ L = []
  · -- the descriptor is alone
    obtain ⟨rfl, rfl⟩ := List.append_eq_nil_iff.mp hne
    obtain ⟨t, ht, hdt⟩ := (hlive x (by simp)).deref
    have hself := LinkRing.singleton_iff.mp hr
    rw [next_eq ht, prev_eq ht] at hself
    exact ⟨h, by simp [extractSelf, hdt, hself], .refl h, .nil, hr, fun _ _ ↦ ⟨rfl, rfl⟩⟩
  · obtain ⟨h', hext, hs, hring, halone, hl⟩ :=
      extractSelf_spec hrot hne fun d hd ↦ hlive d (hmem d hd)
    exact ⟨h', hext, hs, hring.rotate, halone, hl.mono hmem⟩

end Heap

/-- The methods of descriptors. -/
def ListDescriptor.ops : RingOps Heap where
  next := Heap.next
  prev := Heap.prev
  live := Heap.Live
  same := Heap.SameSlabs
  add := Heap.addList
  remove := Heap.remove
  extract := Heap.extract
  extractSelf := Heap.extractSelf

namespace ListDescriptor

variable {h h' : Heap} {L M : List ℕ}

theorem ring_ops (hr : LinkRing h'.next h'.prev M) (hs : Heap.SameSlabs h h')
    (hlive : ∀ d ∈ M, h.Live d) : ops.Ring h' M :=
  ⟨hr, fun d hd ↦ hs.live.mpr (hlive d hd)⟩

theorem ops_lawful : ops.Lawful Heap.SameSize where
  add h x y L hr hy hne hsize := by
    have hylive : h.Live y := hy.live y (List.mem_singleton_self y)
    obtain ⟨h', hadd, hs, hring, hl⟩ :=
      Heap.addList_spec hr.ring hr.live hylive (hr.notMem hy hne) hsize
    refine ⟨h', hadd, ring_ops hring hs fun d hd ↦ ?_, hs, hl⟩
    rcases List.mem_append.mp hd with hd | hd
    · exact hr.live d hd
    · exact List.mem_singleton.mp hd ▸ hylive
  add_self h x L hr := by
    obtain ⟨t, ht, hdt⟩ := (hr.live x List.mem_cons_self).deref
    simp [ops, Heap.addList, hdt]
  add_refused h x y L hr hy hsize :=
    Heap.addList_refused (hr.live x List.mem_cons_self) hy hsize
  remove h x y L M hr := by
    obtain ⟨h', hext, hs, hring, hl⟩ := Heap.extract_spec hr.ring hr.live
    refine ⟨h', Heap.remove_of_extract hext, ring_ops hring hs fun d hd ↦ hr.live d ?_, hs, hl⟩
    exact List.mem_append_cons_of_mem hd
  remove_self h x L _ := if_pos rfl
  extract h x y L M hr := by
    obtain ⟨h', hext, hs, hring, hl⟩ := Heap.extract_spec hr.ring hr.live
    refine ⟨h', hext, ring_ops hring hs fun d hd ↦ hr.live d ?_, hs, hl⟩
    exact List.mem_append_cons_of_mem hd
  extract_self h x L _ := if_pos rfl
  extractSelf h x L M hr := by
    obtain ⟨h', hext, hs, hring, halone, hl⟩ := Heap.extractSelf_mem hr.ring hr.live
    refine ⟨h', hext, ring_ops hring hs fun d hd ↦ hr.live d ?_,
      ring_ops halone hs fun d hd ↦ hr.live d ?_, hs, hl⟩
    · exact List.mem_append_cons_of_mem hd
    · exact List.mem_singleton.mp hd ▸ List.mem_append_right L List.mem_cons_self

end ListDescriptor

/-! ## Buffers -/

namespace Buffers

variable {bs bs' : Buffers} {x y : ℕ} {L M : List ℕ}

/-- The sizes of two buffers agree. -/
def SameSize (bs : Buffers) (x y : ℕ) : Prop :=
  (bs x).map Buffer.bufferSize = (bs y).map Buffer.bufferSize

/-- The two assignments that take a buffer between `x` and `y` out of its ring. -/
theorem modify_bypass (hx : bs.Live x) (hy : bs.Live y) :
    ∃ bs₁ bs₂, bs.modify x (fun p ↦ { p with nextBuffer := y }) = .ok bs₁ ∧
      bs₁.modify y (fun n ↦ { n with prevBuffer := x }) = .ok bs₂ ∧
      (∀ p, p ≠ x → bs₁ p = bs p) ∧ SameBuffers bs bs₂ ∧
      bs₂.next = Function.update bs.next x y ∧ bs₂.prev = Function.update bs.prev y x := by
  obtain ⟨hx0, b, hb⟩ := hx
  obtain ⟨hy0, c, hc⟩ := hy
  set bs₁ := bs.setLinks x y (bs.prev x) with hbs₁
  have hs₁ : SameBuffers bs bs₁ := sameBuffers_setLinks _ _ _ _
  have hc₁ := hs₁.some hc
  have hm₁ : bs.modify x (fun p ↦ { p with nextBuffer := y }) = .ok bs₁ :=
    modify_eq hx0 hb (by rw [prev_eq hb])
  have hm₂ : bs₁.modify y (fun n ↦ { n with prevBuffer := x })
      = .ok (bs₁.setLinks y (bs₁.next y) x) := modify_eq hy0 hc₁ rfl
  refine ⟨bs₁, _, hm₁, hm₂, fun p hp ↦ if_neg hp, hs₁.trans (sameBuffers_setLinks _ _ _ _), ?_, ?_⟩
  · rw [next_setLinks hc₁, Function.update_eq_self, next_setLinks hb]
  · rw [prev_setLinks hc₁, prev_setLinks hb, Function.update_eq_self]

/-- **`Remove` takes a buffer other than the head out of a ring.** -/
theorem remove_spec (hr : LinkRing bs.next bs.prev (x :: L ++ y :: M))
    (hlive : ∀ p ∈ x :: L ++ y :: M, bs.Live p) :
    ∃ bs', bs.remove x y = .ok bs' ∧ SameBuffers bs bs' ∧
      LinkRing bs'.next bs'.prev (x :: L ++ M) ∧
      ∀ p ∉ x :: L ++ M, bs'.next p = bs.next p ∧ bs'.prev p = bs.prev p := by
  obtain ⟨hx0, t, ht⟩ := hlive x (by simp)
  obtain ⟨hy0, e, he⟩ := hlive y (by simp)
  have hyL : y ∉ x :: L ++ M := hr.notMem_middle
  have hxy : x ≠ y := fun h0 ↦ hyL (h0 ▸ by simp)
  have hdt : bs.deref x = .ok t := deref_eq hx0 ht
  have hde : bs.deref y = .ok e := deref_eq hy0 he
  by_cases htwo : t.prevBuffer = y ∧ t.nextBuffer = y
  · -- a ring of two
    obtain ⟨rfl, rfl⟩ :=
      hr.eq_nil_of_two ((next_eq ht).trans htwo.2) ((prev_eq ht).trans htwo.1)
    have hmod : bs.modify x (fun t ↦ { t with nextBuffer := x, prevBuffer := x })
        = .ok (bs.setLinks x x x) := modify_eq hx0 ht rfl
    refine ⟨bs.setLinks x x x, ?_, sameBuffers_setLinks _ _ _ _,
      LinkRing.singleton_iff.mpr ⟨?_, ?_⟩, fun p hp ↦ ?_⟩
    · simp [remove, hxy, hdt, htwo, hmod]
    · rw [next_setLinks ht, Function.update_self]
    · rw [prev_setLinks ht, Function.update_self]
    · have hpx : p ≠ x := fun h0 ↦ hp (h0 ▸ List.mem_cons_self)
      rw [next_setLinks ht, prev_setLinks ht, Function.update_of_ne hpx, Function.update_of_ne hpx]
      exact ⟨rfl, rfl⟩
  · obtain ⟨hn, hp⟩ := hr.neighbours_mem (List.cons_ne_nil x (L ++ M))
    have hsub : ∀ p ∈ x :: L ++ M, bs.Live p := fun p hp ↦
      hlive p (List.mem_append_cons_of_mem hp)
    obtain ⟨bs₁, bs₂, hm₁, hm₂, hd₁, hs, hn₂, hp₂⟩ := modify_bypass (hsub _ hp) (hsub _ hn)
    have hpy : y ≠ bs.prev y := fun h0 ↦ hyL (h0 ▸ hp)
    have hde₁ : bs₁.deref y = .ok e := deref_eq hy0 ((hd₁ y hpy).trans he)
    refine ⟨bs₂, ?_, hs, ?_, fun p hpL ↦ ?_⟩
    · simp [remove, hxy, hdt, htwo, hde, ← next_eq he, ← prev_eq he, hm₁, hde₁, hm₂]
    · rw [hn₂, hp₂]
      exact hr.bypass (List.cons_ne_nil x (L ++ M))
    · have hpn : p ≠ bs.next y := fun h0 ↦ hpL (h0 ▸ hn)
      have hpp : p ≠ bs.prev y := fun h0 ↦ hpL (h0 ▸ hp)
      rw [hn₂, hp₂, Function.update_of_ne hpp, Function.update_of_ne hpn]
      exact ⟨rfl, rfl⟩

theorem extract_eq_remove (bs : Buffers) (this entry : ℕ) : bs.extract this entry =
    (bs.remove this entry >>= fun bs' ↦ pure (if this = entry then 0 else entry, bs')) := by
  by_cases hte : this = entry
  · simp [extract, remove, hte]
  · cases hd : bs.deref this with
    | error e => simp [extract, remove, hte, hd]
    | ok t =>
      by_cases htwo : t.prevBuffer = entry ∧ t.nextBuffer = entry
      · simp [extract, remove, hte, hd, htwo]
      · simp [extract, remove, hte, hd, htwo, bind_assoc]

/-- What `ExtractSelf` does to the links of a larger ring. -/
theorem extractSelf_links (hx : bs.Live x) (hn : bs.Live (bs.next x)) (hp : bs.Live (bs.prev x))
    (hback : bs.prev (bs.next x) = x) (hself : ¬(bs.next x = x ∧ bs.prev x = x)) :
    ∃ bs', bs.extractSelf x = .ok bs' ∧ SameBuffers bs bs' ∧
      bs'.next = Function.update (Function.update bs.next (bs.prev x) (bs.next x)) x x ∧
      bs'.prev = Function.update (Function.update bs.prev (bs.next x) (bs.prev x)) x x := by
  obtain ⟨hx0, t, ht⟩ := hx
  have hdt : bs.deref x = .ok t := deref_eq hx0 ht
  have hnext : t.nextBuffer = bs.next x := (next_eq ht).symm
  have hprev : t.prevBuffer = bs.prev x := (prev_eq ht).symm
  -- the assignments to the neighbours, and then those to the buffer itself
  have hlast : ∀ bs₁, SameBuffers bs bs₁ →
      bs₁.modify x (fun t ↦ { t with nextBuffer := x, prevBuffer := x })
        = .ok (bs₁.setLinks x x x) ∧ SameBuffers bs (bs₁.setLinks x x x) ∧
      (bs₁.setLinks x x x).next = Function.update bs₁.next x x ∧
      (bs₁.setLinks x x x).prev = Function.update bs₁.prev x x := fun bs₁ hs₁ ↦
    ⟨modify_eq hx0 (hs₁.some ht) rfl, hs₁.trans (sameBuffers_setLinks _ _ _ _),
      next_setLinks (hs₁.some ht) x x, prev_setLinks (hs₁.some ht) x x⟩
  by_cases htwo : bs.next x = bs.prev x
  · obtain ⟨hn0, n, hdn⟩ := hn
    set y := bs.next x with hy
    have hm₁ : bs.modify y (fun n ↦ { n with nextBuffer := y, prevBuffer := y })
        = .ok (bs.setLinks y y y) := modify_eq hn0 hdn rfl
    obtain ⟨hm₂, hs, hn₂, hp₂⟩ := hlast _ (sameBuffers_setLinks bs y y y)
    refine ⟨_, ?_, hs, ?_, ?_⟩
    · rw [← htwo] at hself hprev
      simp only [extractSelf, hdt, Exec.ok_bind, hnext, hprev, if_neg hself, if_true, hm₁, hm₂]
    · rw [hn₂, next_setLinks hdn, ← htwo]
    · rw [hp₂, prev_setLinks hdn, ← htwo]
  · obtain ⟨bs₁, bs₂, hm₁, hm₂, -, hs, hn₂, hp₂⟩ := modify_bypass hp hn
    obtain ⟨hn0, n, hdn⟩ := hn
    obtain ⟨hm₃, hs₃, hn₃, hp₃⟩ := hlast bs₂ hs
    have hdn' : bs.deref (bs.next x) = .ok n := deref_eq hn0 hdn
    have hpn : n.prevBuffer = x := (prev_eq hdn).symm.trans hback
    refine ⟨_, ?_, hs₃, ?_, ?_⟩
    · simp only [extractSelf, hdt, Exec.ok_bind, hnext, hprev, if_neg hself, if_neg htwo, hdn',
        hpn, hm₁, hm₂, hm₃]
    · rw [hn₃, hn₂]
    · rw [hp₃, hp₂]

/-- **`ExtractSelf` takes a buffer out of its ring**, wherever it is, and makes a ring of it
alone. -/
theorem extractSelf_mem (hr : LinkRing bs.next bs.prev (L ++ x :: M))
    (hlive : ∀ p ∈ L ++ x :: M, bs.Live p) :
    ∃ bs', bs.extractSelf x = .ok bs' ∧ SameBuffers bs bs' ∧ LinkRing bs'.next bs'.prev (L ++ M) ∧
      LinkRing bs'.next bs'.prev [x] ∧
      ∀ p ∉ L ++ x :: M, bs'.next p = bs.next p ∧ bs'.prev p = bs.prev p := by
  have hxmem : x ∈ L ++ x :: M := List.mem_append_right L List.mem_cons_self
  have hx : bs.Live x := hlive x hxmem
  by_cases hne : L ++ M = []
  · -- the buffer is alone
    obtain ⟨rfl, rfl⟩ := List.append_eq_nil_iff.mp hne
    obtain ⟨hx0, t, ht⟩ := hx
    have hself := LinkRing.singleton_iff.mp hr
    rw [next_eq ht, prev_eq ht] at hself
    refine ⟨bs, by simp [extractSelf, deref_eq hx0 ht, hself], fun p ↦ ?_, .nil, hr,
      fun _ _ ↦ ⟨rfl, rfl⟩⟩
    cases hb : bs p with
    | none => rfl
    | some b => simp [next_eq hb, prev_eq hb]
  · have hxL : x ∉ L ++ M := hr.notMem_middle
    obtain ⟨hn, hp⟩ := hr.neighbours_mem hne
    have hsub : ∀ p ∈ L ++ M, p ∈ L ++ x :: M := fun _ ↦ List.mem_append_cons_of_mem
    obtain ⟨bs', hext, hs, hn', hp'⟩ := extractSelf_links hx (hlive _ (hsub _ hn))
      (hlive _ (hsub _ hp)) (hr.prev_next hxmem) fun he ↦ hxL (he.1 ▸ hn)
    obtain ⟨hring, halone⟩ := hr.isolate hne hn' hp'
    refine ⟨bs', hext, hs, hring, halone, fun p hpL ↦ ?_⟩
    have hpx : p ≠ x := fun h0 ↦ hpL (h0 ▸ hxmem)
    have hpn : p ≠ bs.next x := fun h0 ↦ hpL (hsub _ (h0 ▸ hn))
    have hpp : p ≠ bs.prev x := fun h0 ↦ hpL (hsub _ (h0 ▸ hp))
    rw [hn', hp', Function.update_of_ne hpx, Function.update_of_ne hpp, Function.update_of_ne hpx,
      Function.update_of_ne hpn]
    exact ⟨rfl, rfl⟩

end Buffers

/-- The methods of buffers. -/
def Buffer.ops : RingOps Buffers where
  next := Buffers.next
  prev := Buffers.prev
  live := Buffers.Live
  same := Buffers.SameBuffers
  add := Buffers.addBuffer
  remove := Buffers.remove
  extract := Buffers.extract
  extractSelf := Buffers.extractSelf

namespace Buffer

variable {bs bs' : Buffers} {L M : List ℕ}

theorem ring_ops (hr : LinkRing bs'.next bs'.prev M) (hs : Buffers.SameBuffers bs bs')
    (hlive : ∀ p ∈ M, bs.Live p) : ops.Ring bs' M :=
  ⟨hr, fun p hp ↦ hs.live (hlive p hp)⟩

theorem ops_lawful : ops.Lawful fun _ _ _ ↦ True where
  add bs x y L hr hy hne _ := by
    have hylive : bs.Live y := hy.live y (List.mem_singleton_self y)
    have hyL : y ∉ x :: L := hr.notMem hy hne
    have hp : Buffers.prev bs x ∈ x :: L := hr.ring.prev_mem
    obtain ⟨bs', hadd, hs, hn', hp'⟩ :=
      Buffers.addBuffer_links (hr.live x List.mem_cons_self) (hr.live _ hp) hylive hne.symm
    have hring : LinkRing bs'.next bs'.prev (x :: L ++ [y]) := by
      rw [hn', hp']
      exact hr.ring.push_update hyL
    refine ⟨bs', hadd, ring_ops hring hs fun p hpL ↦ ?_, hs, fun p hpL ↦ ?_⟩
    · rcases List.mem_append.mp hpL with hpL | hpL
      · exact hr.live p hpL
      · exact List.mem_singleton.mp hpL ▸ hylive
    · obtain ⟨hpy, hpL⟩ := not_or.mp (mt List.mem_cons.mpr hpL)
      have hpx : p ≠ x := fun h0 ↦ hpL (h0 ▸ List.mem_cons_self)
      have hpp : p ≠ bs.prev x := fun h0 ↦ hpL (h0 ▸ hp)
      show bs'.next p = bs.next p ∧ bs'.prev p = bs.prev p
      rw [hn', hp', Function.update_of_ne hpp, Function.update_of_ne hpy, Function.update_of_ne hpx,
        Function.update_of_ne hpy]
      exact ⟨rfl, rfl⟩
  add_self bs x L _ := if_pos rfl
  add_refused bs x y L _ _ hno := absurd trivial hno
  remove bs x y L M hr := by
    obtain ⟨bs', hrem, hs, hring, hl⟩ := Buffers.remove_spec hr.ring hr.live
    refine ⟨bs', hrem, ring_ops hring hs fun p hp ↦ hr.live p ?_, hs, hl⟩
    exact List.mem_append_cons_of_mem hp
  remove_self bs x L _ := if_pos rfl
  extract bs x y L M hr := by
    have hyL : y ∉ x :: L ++ M := hr.ring.notMem_middle
    have hxy : x ≠ y := fun h0 ↦ hyL (h0 ▸ by simp)
    obtain ⟨bs', hrem, hs, hring, hl⟩ := Buffers.remove_spec hr.ring hr.live
    refine ⟨bs', ?_, ring_ops hring hs fun p hp ↦ hr.live p ?_, hs, hl⟩
    · show bs.extract x y = .ok (y, bs')
      rw [Buffers.extract_eq_remove, hrem, Exec.ok_bind, if_neg hxy, Exec.pure_eq]
    · exact List.mem_append_cons_of_mem hp
  extract_self bs x L _ := if_pos rfl
  extractSelf bs x L M hr := by
    obtain ⟨bs', hext, hs, hring, halone, hl⟩ := Buffers.extractSelf_mem hr.ring hr.live
    refine ⟨bs', hext, ring_ops hring hs fun p hp ↦ hr.live p ?_,
      ring_ops halone hs fun p hp ↦ hr.live p ?_, hs, hl⟩
    · exact List.mem_append_cons_of_mem hp
    · exact List.mem_singleton.mp hp ▸ List.mem_append_right L List.mem_cons_self

end Buffer

/-! ## Both -/

/-- **Descriptors and buffers are kept on rings by the same laws**, and `AddBuffer` admits buffers
of any size. -/
theorem ringOps_lawful :
    ListDescriptor.ops.Lawful Heap.SameSize ∧ Buffer.ops.Lawful fun _ _ _ ↦ True :=
  ⟨ListDescriptor.ops_lawful, Buffer.ops_lawful⟩

/-- Two buffers of 64 and of 32 bytes, each linked to itself. -/
def twoBuffers : Buffers := fun p ↦
  if p = 64 then some (Buffer.new 64 64) else if p = 128 then some (Buffer.new 128 32) else none

/-- **`AddBuffer` adds a buffer of another size**, unlike `AddList`. -/
theorem not_ringOps_lawful_sameSize :
    ¬(ListDescriptor.ops.Lawful Heap.SameSize ∧ Buffer.ops.Lawful Buffers.SameSize) := by
  rintro ⟨-, hlaw⟩
  have h64 : twoBuffers 64 = some (Buffer.new 64 64) := rfl
  have h128 : twoBuffers 128 = some (Buffer.new 128 32) := rfl
  have hlive : twoBuffers.Live 64 := ⟨by decide, _, h64⟩
  have hlive' : twoBuffers.Live 128 := ⟨by decide, _, h128⟩
  have hring : Buffer.ops.Ring twoBuffers [64] := by
    refine ⟨LinkRing.singleton_iff.mpr ⟨rfl, rfl⟩, fun p hp ↦ ?_⟩
    exact List.mem_singleton.mp hp ▸ hlive
  have hsize : ¬twoBuffers.SameSize 64 128 := by
    rw [Buffers.SameSize, h64, h128]
    decide
  have hkept : twoBuffers.addBuffer 64 128 = .ok twoBuffers :=
    hlaw.add_refused twoBuffers 64 128 [] hring hlive' hsize
  obtain ⟨bs', hadd, -, hn, -⟩ :=
    Buffers.addBuffer_links hlive (show twoBuffers.Live (twoBuffers.prev 64) from hlive) hlive'
      (by decide)
  obtain rfl := Except.ok.inj (hkept.symm.trans hadd)
  -- the first buffer would still be linked to itself
  have h1 := congrFun hn 64
  exact absurd h1 (by decide)

end Chisaka.Slab
