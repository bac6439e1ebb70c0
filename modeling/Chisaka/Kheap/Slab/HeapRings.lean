import Mathlib.Logic.Function.Basic
import Chisaka.Lib.Ring
import Chisaka.Kheap.Slab.ListDescriptor

/-!
# What the list operations do to the rings of descriptors

The links of the descriptors alive in a heap are two functions, `Heap.next` and `Heap.prev`, and a
list of descriptors is a `LinkRing` of them.  `AddList` pushes, `Extract` erases and `ExtractSelf`
unlinks; the small rings, for which the code has branches of its own, come out the same.

`SameSlabs` is the frame of all of them: nothing but links changes.
-/

set_option autoImplicit false

namespace Chisaka.Slab

namespace Heap

variable {h h' h'' : Heap} {d x y : ℕ} {L M : List ℕ}

/-- `NextList` of the descriptor at `d`. -/
def next (h : Heap) (d : ℕ) : ℕ := ((h.descs d).map ListDescriptor.nextList).getD 0

/-- `PrevList` of the descriptor at `d`. -/
def prev (h : Heap) (d : ℕ) : ℕ := ((h.descs d).map ListDescriptor.prevList).getD 0

/-- A pointer that can be followed. -/
def Live (h : Heap) (d : ℕ) : Prop := d ≠ 0 ∧ ∃ ld, h.descs d = some ld

/-- The descriptor at `d` without its links. -/
def slab (h : Heap) (d : ℕ) : Option ListDescriptor :=
  (h.descs d).map fun ld ↦ { ld with nextList := 0, prevList := 0 }

/-- Nothing but links of descriptors differs between the two heaps. -/
structure SameSlabs (h h' : Heap) : Prop where
  /-- Memory is the same. -/
  mem : h'.mem = h.mem
  /-- The descriptors are the same but for their links. -/
  slab : h'.slab = h.slab

theorem SameSlabs.refl (h : Heap) : SameSlabs h h := ⟨rfl, rfl⟩

theorem SameSlabs.trans (h₁ : SameSlabs h h') (h₂ : SameSlabs h' h'') : SameSlabs h h'' :=
  ⟨h₂.mem.trans h₁.mem, h₂.slab.trans h₁.slab⟩

theorem live_iff_slab : h.Live d ↔ d ≠ 0 ∧ (h.slab d).isSome := by
  rw [Live, slab, Option.isSome_map, Option.isSome_iff_exists]

theorem SameSlabs.live (hs : SameSlabs h h') : h'.Live d ↔ h.Live d := by
  rw [live_iff_slab, live_iff_slab, hs.slab]

/-- A descriptor keeps everything but its links. -/
theorem SameSlabs.desc (hs : SameSlabs h h') {ld : ListDescriptor} (he : h.descs d = some ld) :
    h'.descs d = some { ld with nextList := h'.next d, prevList := h'.prev d } := by
  have hslab := congrFun hs.slab d
  simp only [Heap.slab, he, Option.map_some, Option.map_eq_some_iff] at hslab
  obtain ⟨ld', he', heq⟩ := hslab
  cases ld
  cases ld'
  simp only [ListDescriptor.mk.injEq] at heq
  simp only [next, prev, he', Option.map_some, Option.getD_some, Option.some.injEq,
    ListDescriptor.mk.injEq, true_and]
  exact ⟨heq.1, heq.2.1, heq.2.2.2.2⟩

theorem deref_eq {ld : ListDescriptor} (hd : d ≠ 0) (he : h.descs d = some ld) :
    h.deref d = .ok ld := by
  simp [deref, hd, he]

theorem Live.deref (hd : h.Live d) : ∃ ld, h.descs d = some ld ∧ h.deref d = .ok ld := by
  obtain ⟨h0, ld, he⟩ := hd
  exact ⟨ld, he, deref_eq h0 he⟩

theorem next_eq {ld : ListDescriptor} (he : h.descs d = some ld) : h.next d = ld.nextList := by
  simp [next, he]

theorem prev_eq {ld : ListDescriptor} (he : h.descs d = some ld) : h.prev d = ld.prevList := by
  simp [prev, he]

/-! ## Writing links -/

/-- The heap with `NextList` and `PrevList` of one descriptor replaced. -/
def setLinks (h : Heap) (d n p : ℕ) : Heap :=
  { h with descs := fun x ↦
      if x = d then (h.descs d).map fun ld ↦ { ld with nextList := n, prevList := p }
      else h.descs x }

@[simp] theorem mem_setLinks (h : Heap) (d n p : ℕ) : (h.setLinks d n p).mem = h.mem := rfl

theorem next_setLinks (hd : h.Live d) (n p : ℕ) :
    (h.setLinks d n p).next = Function.update h.next d n := by
  obtain ⟨-, ld, he⟩ := hd
  funext x
  by_cases hx : x = d
  · simp [next, setLinks, hx, he]
  · simp [next, setLinks, hx]

theorem prev_setLinks (hd : h.Live d) (n p : ℕ) :
    (h.setLinks d n p).prev = Function.update h.prev d p := by
  obtain ⟨-, ld, he⟩ := hd
  funext x
  by_cases hx : x = d
  · simp [prev, setLinks, hx, he]
  · simp [prev, setLinks, hx]

theorem sameSlabs_setLinks (h : Heap) (d n p : ℕ) : SameSlabs h (h.setLinks d n p) := by
  refine ⟨rfl, funext fun x ↦ ?_⟩
  by_cases hx : x = d
  · simp [slab, setLinks, hx, Function.comp_def]
  · simp [slab, setLinks, hx]

/-- Assigning to links of a live descriptor. -/
theorem Live.modify (hd : h.Live d) {f : ListDescriptor → ListDescriptor}
    {n p : ℕ} (hf : ∀ ld, h.descs d = some ld → f ld = { ld with nextList := n, prevList := p }) :
    h.modify d f = .ok (h.setLinks d n p) := by
  obtain ⟨ld, he, hde⟩ := hd.deref
  have hput : h.put d (f ld) = h.setLinks d n p := by
    simp only [put, setLinks, he, hf ld he, Option.map_some]
  simp [Heap.modify, hde, hput]

/-- Assigning to `NextList` only. -/
theorem Live.modify_next (hd : h.Live d) (n : ℕ) :
    h.modify d (fun t ↦ { t with nextList := n }) = .ok (h.setLinks d n (h.prev d)) :=
  hd.modify fun ld he ↦ by rw [prev_eq he]

/-- Assigning to `PrevList` only. -/
theorem Live.modify_prev (hd : h.Live d) (p : ℕ) :
    h.modify d (fun t ↦ { t with prevList := p }) = .ok (h.setLinks d (h.next d) p) :=
  hd.modify fun ld he ↦ by rw [next_eq he]

/-! ## `AddList` -/

/-- The buffer sizes of two descriptors agree. -/
def SameSize (h : Heap) (x y : ℕ) : Prop :=
  (h.descs x).map ListDescriptor.bufferSize = (h.descs y).map ListDescriptor.bufferSize

/-- Nothing outside `S` has its links changed. -/
def LinksOnly (S : List ℕ) (h h' : Heap) : Prop :=
  ∀ d, d ∉ S → h'.next d = h.next d ∧ h'.prev d = h.prev d

theorem LinksOnly.trans {S : List ℕ} (h₁ : LinksOnly S h h') (h₂ : LinksOnly S h' h'') :
    LinksOnly S h h'' := fun d hd ↦
  ⟨(h₂ d hd).1.trans (h₁ d hd).1, (h₂ d hd).2.trans (h₁ d hd).2⟩

theorem LinksOnly.mono {S T : List ℕ} (hl : LinksOnly S h h') (hST : ∀ d ∈ S, d ∈ T) :
    LinksOnly T h h' := fun d hd ↦ hl d fun hS ↦ hd (hST d hS)

theorem linksOnly_setLinks {S : List ℕ} (hd : h.Live d) (hS : d ∈ S) (n p : ℕ) :
    LinksOnly S h (h.setLinks d n p) := by
  intro x hx
  have hxd : x ≠ d := fun he ↦ hx (he ▸ hS)
  rw [next_setLinks hd, prev_setLinks hd, Function.update_of_ne hxd, Function.update_of_ne hxd]
  exact ⟨rfl, rfl⟩

/-- A descriptor whose links are left alone is left alone. -/
theorem SameSlabs.descs_eq {S : List ℕ} (hs : SameSlabs h h') (hl : LinksOnly S h h')
    (hd : d ∉ S) : h'.descs d = h.descs d := by
  cases he : h.descs d with
  | none =>
    have hslab := congrFun hs.slab d
    simpa [Heap.slab, he] using hslab
  | some ld =>
    rw [hs.desc he, (hl d hd).1, (hl d hd).2, next_eq he, prev_eq he]

/-- What `AddList` does to the links, in a ring or not: `y` is linked between `x` and the
predecessor of `x`. -/
theorem addList_links (hx : h.Live x) (hp : h.Live (h.prev x)) (hy : h.Live y) (hxy : x ≠ y)
    (hsize : h.SameSize x y) :
    ∃ h', h.addList x y = .ok h' ∧ SameSlabs h h' ∧ LinksOnly [y, x, h.prev x] h h' ∧
      h'.next = Function.update (Function.update h.next y x) (h.prev x) y ∧
      h'.prev = Function.update (Function.update h.prev y (h.prev x)) x y := by
  obtain ⟨t, ht, hdt⟩ := hx.deref
  obtain ⟨s, hs, hds⟩ := hy.deref
  have hsz : s.bufferSize = t.bufferSize := by
    simpa [SameSize, ht, hs] using Eq.symm hsize
  have hnext : t.nextList = h.next x := (next_eq ht).symm
  have hprev : t.prevList = h.prev x := (prev_eq ht).symm
  by_cases hone : x = t.prevList ∧ x = t.nextList
  · -- a ring of one
    set h₁ := h.setLinks x y y with hh₁
    have hy₁ : h₁.Live y := (sameSlabs_setLinks h x y y).live.mpr hy
    have hmod : h.modify x (fun t ↦ { t with nextList := y, prevList := y }) = .ok h₁ :=
      hx.modify fun ld _ ↦ rfl
    have hmod₁ : h₁.modify y (fun s ↦ { s with prevList := x, nextList := x })
        = .ok (h₁.setLinks y x x) := hy₁.modify fun ld _ ↦ rfl
    have hpx : h.prev x = x := hprev ▸ hone.1.symm
    refine ⟨h₁.setLinks y x x, ?_, (sameSlabs_setLinks h x y y).trans (sameSlabs_setLinks h₁ y x x),
      (linksOnly_setLinks hx (by simp) y y).trans (linksOnly_setLinks hy₁ (by simp) x x), ?_, ?_⟩
    · simp [addList, hdt, hds, hsz, hxy, hone.1.symm, hone.2.symm, hmod, hmod₁]
    · rw [next_setLinks hy₁, hh₁, next_setLinks hx, hpx, Function.update_comm hxy]
    · rw [prev_setLinks hy₁, hh₁, prev_setLinks hx, hpx, Function.update_comm hxy]
  · -- the descriptor goes between the last one and `x`
    set p := h.prev x with hpdef
    set h₁ := h.setLinks y x p with hh₁
    have hs₁ := sameSlabs_setLinks h y x p
    have hp₁ : h₁.Live p := hs₁.live.mpr hp
    set h₂ := h₁.setLinks p y (h₁.prev p) with hh₂
    have hs₂ := hs₁.trans (sameSlabs_setLinks h₁ p y (h₁.prev p))
    have hx₂ : h₂.Live x := hs₂.live.mpr hx
    have hmod : h.modify y (fun s ↦ { s with nextList := x, prevList := t.prevList }) = .ok h₁ :=
      hy.modify fun ld _ ↦ by rw [hprev]
    have hone' : ¬(x = p ∧ x = t.nextList) := hprev ▸ hone
    refine ⟨h₂.setLinks x (h₂.next x) y, ?_, hs₂.trans (sameSlabs_setLinks h₂ _ _ _), ?_, ?_, ?_⟩
    · have hmod₁ := hp₁.modify_next y
      have hmod₂ := hx₂.modify_prev y
      rw [hprev] at hmod
      simp only [addList, hdt, hds, hsz, Exec.ok_bind, ne_eq, not_true_eq_false, if_false, hxy,
        hprev, if_neg hone', hmod, hmod₁, hmod₂, ← hh₂]
    · have h1 : LinksOnly [y, x, p] h h₁ := linksOnly_setLinks hy (by simp) x p
      have h2 : LinksOnly [y, x, p] h₁ h₂ := linksOnly_setLinks hp₁ (by simp) _ _
      exact (h1.trans h2).trans (linksOnly_setLinks hx₂ (by simp) _ _)
    · rw [next_setLinks hx₂, Function.update_eq_self, hh₂, next_setLinks hp₁, hh₁,
        next_setLinks hy]
    · rw [prev_setLinks hx₂, hh₂, prev_setLinks hp₁, Function.update_eq_self, hh₁,
        prev_setLinks hy]

/-- A descriptor of another size is not added. -/
theorem addList_refused (hx : h.Live x) (hy : h.Live y) (hsize : ¬h.SameSize x y) :
    h.addList x y = .ok h := by
  obtain ⟨t, ht, hdt⟩ := hx.deref
  obtain ⟨s, hs, hds⟩ := hy.deref
  have hsz : s.bufferSize ≠ t.bufferSize := fun he ↦ hsize (by simp [SameSize, ht, hs, he])
  simp [addList, hdt, hds, hsz]

/-- **`AddList` pushes a descriptor on a ring.** -/
theorem addList_spec (hr : LinkRing h.next h.prev (x :: L)) (hlive : ∀ d ∈ x :: L, h.Live d)
    (hy : h.Live y) (hyL : y ∉ x :: L) (hsize : h.SameSize x y) :
    ∃ h', h.addList x y = .ok h' ∧ SameSlabs h h' ∧
      LinkRing h'.next h'.prev (x :: L ++ [y]) ∧ LinksOnly (y :: x :: L) h h' := by
  have hxy : x ≠ y := fun he ↦ hyL (he ▸ List.mem_cons_self)
  obtain ⟨h', hadd, hs, hl, hn, hp⟩ := addList_links (hlive x List.mem_cons_self)
    (hlive _ hr.prev_mem) hy hxy hsize
  refine ⟨h', hadd, hs, ?_, hl.mono fun d hd ↦ ?_⟩
  · rw [hn, hp]
    exact hr.push_update hyL
  · have hpmem := hr.prev_mem
    simp only [List.mem_cons, List.not_mem_nil, or_false] at hd hpmem ⊢
    rcases hd with rfl | rfl | rfl
    · exact .inl rfl
    · exact .inr (.inl rfl)
    · exact .inr hpmem

/-! ## `Extract` and `ExtractSelf` -/

/-- The two assignments that take a descriptor between `x` and `y` out of its ring. -/
theorem modify_bypass (hx : h.Live x) (hy : h.Live y) :
    ∃ h₁ h₂, h.modify x (fun p ↦ { p with nextList := y }) = .ok h₁ ∧
      h₁.modify y (fun n ↦ { n with prevList := x }) = .ok h₂ ∧
      (∀ d, d ≠ x → h₁.descs d = h.descs d) ∧ SameSlabs h h₂ ∧ LinksOnly [x, y] h h₂ ∧
      h₂.next = Function.update h.next x y ∧ h₂.prev = Function.update h.prev y x := by
  have hs := sameSlabs_setLinks h x y (h.prev x)
  have hy₁ : (h.setLinks x y (h.prev x)).Live y := hs.live.mpr hy
  refine ⟨_, _, hx.modify_next y, hy₁.modify_prev x, fun d hd ↦ if_neg hd,
    hs.trans (sameSlabs_setLinks _ _ _ _),
    (linksOnly_setLinks hx (by simp) _ _).trans (linksOnly_setLinks hy₁ (by simp) _ _), ?_, ?_⟩
  · rw [next_setLinks hy₁, Function.update_eq_self, next_setLinks hx]
  · rw [prev_setLinks hy₁, prev_setLinks hx, Function.update_eq_self]

/-- What `ExtractSelf` does to the links, in a ring or not: the neighbours are linked to each other,
and the descriptor to itself. -/
theorem extractSelf_links (hx : h.Live x) (hn : h.Live (h.next x)) (hp : h.Live (h.prev x))
    (hself : ¬(h.next x = x ∧ h.prev x = x)) :
    ∃ h', h.extractSelf x = .ok h' ∧ SameSlabs h h' ∧
      LinksOnly [x, h.next x, h.prev x] h h' ∧
      h'.next = Function.update (Function.update h.next (h.prev x) (h.next x)) x x ∧
      h'.prev = Function.update (Function.update h.prev (h.next x) (h.prev x)) x x := by
  obtain ⟨t, ht, hdt⟩ := hx.deref
  have hnext : t.nextList = h.next x := (next_eq ht).symm
  have hprev : t.prevList = h.prev x := (prev_eq ht).symm
  -- in a ring of two both links of the neighbour are assigned at once
  obtain ⟨h₁, hmod, hs₁, hl₁, hn₁, hp₁⟩ : ∃ h₁,
      (if h.next x = h.prev x then
        h.modify (h.next x) fun n ↦ { n with nextList := h.next x, prevList := h.next x }
      else do
        let h₁ ← h.modify (h.prev x) fun p ↦ { p with nextList := h.next x }
        h₁.modify (h.next x) fun n ↦ { n with prevList := h.prev x }) = .ok h₁ ∧
      SameSlabs h h₁ ∧ LinksOnly [x, h.next x, h.prev x] h h₁ ∧
      h₁.next = Function.update h.next (h.prev x) (h.next x) ∧
      h₁.prev = Function.update h.prev (h.next x) (h.prev x) := by
    by_cases htwo : h.next x = h.prev x
    · refine ⟨h.setLinks (h.next x) (h.next x) (h.next x), ?_, sameSlabs_setLinks _ _ _ _,
        linksOnly_setLinks hn (by simp) _ _, ?_, ?_⟩
      · rw [if_pos htwo]
        exact hn.modify fun ld _ ↦ rfl
      · rw [next_setLinks hn, ← htwo]
      · rw [prev_setLinks hn, ← htwo]
    · obtain ⟨h₁, h₂, hm₁, hm₂, -, hs, hl, hn₂, hp₂⟩ := modify_bypass hp hn
      refine ⟨h₂, by rw [if_neg htwo, hm₁, Exec.ok_bind, hm₂], hs, hl.mono ?_, hn₂, hp₂⟩
      simp
  have hx₁ : h₁.Live x := hs₁.live.mpr hx
  have hmod' : h₁.modify x (fun t ↦ { t with nextList := x, prevList := x })
      = .ok (h₁.setLinks x x x) := hx₁.modify fun ld _ ↦ rfl
  refine ⟨h₁.setLinks x x x, ?_, hs₁.trans (sameSlabs_setLinks _ _ _ _),
    hl₁.trans (linksOnly_setLinks hx₁ (by simp) _ _), ?_, ?_⟩
  · simp only [extractSelf, hdt, Exec.ok_bind, hnext, hprev, if_neg hself]
    by_cases htwo : h.next x = h.prev x
    · rw [if_pos htwo] at hmod ⊢
      rw [hmod, Exec.ok_bind, hmod']
    · rw [if_neg htwo] at hmod ⊢
      rw [← bind_assoc, hmod, Exec.ok_bind, hmod']
  · rw [next_setLinks hx₁, hn₁]
  · rw [prev_setLinks hx₁, hp₁]

/-- **`ExtractSelf` takes a descriptor out of its ring** and makes a ring of it alone. -/
theorem extractSelf_spec (hr : LinkRing h.next h.prev (x :: L)) (hL : L ≠ [])
    (hlive : ∀ d ∈ x :: L, h.Live d) :
    ∃ h', h.extractSelf x = .ok h' ∧ SameSlabs h h' ∧ LinkRing h'.next h'.prev L ∧
      LinkRing h'.next h'.prev [x] ∧ LinksOnly (x :: L) h h' := by
  have hxL : x ∉ L := (List.nodup_cons.mp hr.nodup).1
  have hr' : LinkRing h.next h.prev ([] ++ x :: L) := hr
  obtain ⟨hn, hp⟩ : h.next x ∈ L ∧ h.prev x ∈ L := hr'.neighbours_mem hL
  obtain ⟨h', hext, hs, hl, hn', hp'⟩ := extractSelf_links (hlive x List.mem_cons_self)
    (hlive _ (List.mem_cons_of_mem x hn)) (hlive _ (List.mem_cons_of_mem x hp))
    fun he ↦ hxL (he.1 ▸ hn)
  obtain ⟨hring, halone⟩ := hr'.isolate hL hn' hp'
  refine ⟨h', hext, hs, hring, halone, hl.mono fun d hd ↦ ?_⟩
  simp only [List.mem_cons, List.not_mem_nil, or_false] at hd
  rcases hd with rfl | rfl | rfl
  · exact List.mem_cons_self
  · exact List.mem_cons_of_mem x hn
  · exact List.mem_cons_of_mem x hp

/-- **`Extract` takes a descriptor other than the head out of a ring.**  Its own links are left as
they are. -/
theorem extract_spec (hr : LinkRing h.next h.prev (x :: L ++ y :: M))
    (hlive : ∀ d ∈ x :: L ++ y :: M, h.Live d) :
    ∃ h', h.extract x y = .ok (y, h') ∧ SameSlabs h h' ∧
      LinkRing h'.next h'.prev (x :: L ++ M) ∧ LinksOnly (x :: L ++ M) h h' := by
  have hx : h.Live x := hlive x (by simp)
  have hy : h.Live y := hlive y (by simp)
  obtain ⟨t, ht, hdt⟩ := hx.deref
  obtain ⟨e, he, hde⟩ := hy.deref
  have hsub : ∀ d ∈ x :: L ++ M, h.Live d := fun d hd ↦ hlive d (List.mem_append_cons_of_mem hd)
  have hyL : y ∉ x :: L ++ M := hr.notMem_middle
  have hxy : x ≠ y := fun h0 ↦ hyL (h0 ▸ by simp)
  obtain ⟨hn, hp⟩ := hr.neighbours_mem (List.cons_ne_nil x (L ++ M))
  have hnext : e.nextList = h.next y := (next_eq he).symm
  have hprev : e.prevList = h.prev y := (prev_eq he).symm
  by_cases htwo : t.prevList = y ∧ t.nextList = y
  · -- a ring of two
    have hpx : h.prev x = y := (prev_eq ht).trans htwo.1
    have hnx : h.next x = y := (next_eq ht).trans htwo.2
    obtain ⟨rfl, rfl⟩ := hr.eq_nil_of_two hnx hpx
    have hmod : h.modify x (fun t ↦ { t with nextList := x, prevList := x })
        = .ok (h.setLinks x x x) := hx.modify fun ld _ ↦ rfl
    refine ⟨h.setLinks x x x, ?_, sameSlabs_setLinks _ _ _ _, LinkRing.singleton_iff.mpr ⟨?_, ?_⟩,
      linksOnly_setLinks hx (by simp) _ _⟩
    · simp [extract, hxy, hdt, htwo, hmod]
    · rw [next_setLinks hx, Function.update_self]
    · rw [prev_setLinks hx, Function.update_self]
  · obtain ⟨h₁, h₂, hm₁, hm₂, hd₁, hs, hl, hn₂, hp₂⟩ := modify_bypass (hsub _ hp) (hsub _ hn)
    have hpy : y ≠ h.prev y := fun h0 ↦ hyL (h0 ▸ hp)
    have hde₁ : h₁.deref y = .ok e := by
      rw [← hde, deref, deref, hd₁ y hpy]
    refine ⟨h₂, ?_, hs, ?_, hl.mono fun d hd ↦ ?_⟩
    · simp [extract, hxy, hdt, htwo, hde, hprev, hnext, hm₁, hde₁, hm₂]
    · rw [hn₂, hp₂]
      exact hr.bypass (List.cons_ne_nil x (L ++ M))
    · rcases List.mem_cons.mp hd with rfl | hd
      · exact hp
      · exact List.mem_singleton.mp hd ▸ hn

end Heap

end Chisaka.Slab
