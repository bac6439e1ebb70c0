import Chisaka.Kheap.Slab.HeapRings
import Chisaka.Kheap.Slab.Buffer

/-!
# The rings of a buffer

`Rings b h L` says that the three heads of a buffer are the heads of three disjoint rings, and `L`
lists their members.  `Sorted` adds that every member is on the ring it belongs on.

A descriptor that has just changed is on the wrong ring for a moment, and `moveEntry` puts it right.
It is `takeOut` followed by `addList`.  When the descriptor is alone on its ring, the code adds it
to the other ring first and clears the head of the old one afterwards; `addList_setHead` is why the
order does not matter.
-/

set_option autoImplicit false

namespace Chisaka.Slab

open Bytes

variable {b b' b'' : Buffer} {h h' : Heap} {d x : ℕ} {k k' : ListKind} {L : ListKind → List ℕ}
  {ld ld' : ListDescriptor}

namespace Buffer

/-! ## Heads -/

@[simp] theorem head_setHead_self (b : Buffer) (k : ListKind) (c : ℕ) :
    (b.setHead k c).head k = c := by
  cases k <;> rfl

theorem head_setHead_of_ne (b : Buffer) (c : ℕ) (hk : k' ≠ k) :
    (b.setHead k c).head k' = b.head k' := by
  cases k <;> cases k' <;> first | rfl | exact absurd rfl hk

theorem setHead_comm (b : Buffer) (c c' : ℕ) (hk : k' ≠ k) :
    (b.setHead k c).setHead k' c' = (b.setHead k' c').setHead k c := by
  cases k <;> cases k' <;> first | rfl | exact absurd rfl hk

theorem setHead_head (b : Buffer) (k : ListKind) : b.setHead k (b.head k) = b := by
  cases k <;> rfl

@[simp] theorem bufferSize_setHead (b : Buffer) (k : ListKind) (c : ℕ) :
    (b.setHead k c).bufferSize = b.bufferSize := by
  cases k <;> rfl

@[simp] theorem head_countOp (b : Buffer) (k : ListKind) : b.countOp.head k = b.head k := by
  cases k <;> rfl

@[simp] theorem bufferSize_countOp (b : Buffer) : b.countOp.bufferSize = b.bufferSize := rfl

theorem countOp_setHead (b : Buffer) (k : ListKind) (c : ℕ) :
    (b.setHead k c).countOp = b.countOp.setHead k c := by
  cases k <;> rfl

/-- The buffers differ in nothing but the rings and the counter. -/
structure SameClass (b b' : Buffer) : Prop where
  /-- The buffers are of one size. -/
  bufferSize : b'.bufferSize = b.bufferSize
  /-- `m_nextBuffer` is left alone. -/
  nextBuffer : b'.nextBuffer = b.nextBuffer
  /-- `m_prevBuffer` is left alone. -/
  prevBuffer : b'.prevBuffer = b.prevBuffer

theorem SameClass.refl (b : Buffer) : SameClass b b := ⟨rfl, rfl, rfl⟩

theorem SameClass.trans (h₁ : SameClass b b') (h₂ : SameClass b' b'') : SameClass b b'' :=
  ⟨h₂.1.trans h₁.1, h₂.2.trans h₁.2, h₂.3.trans h₁.3⟩

theorem sameClass_setHead (b : Buffer) (k : ListKind) (c : ℕ) : SameClass b (b.setHead k c) := by
  cases k <;> exact ⟨rfl, rfl, rfl⟩

theorem sameClass_countOp (b : Buffer) : SameClass b b.countOp := ⟨rfl, rfl, rfl⟩

end Buffer

/-! ## The rings -/

/-- The members of the three rings. -/
def members (L : ListKind → List ℕ) : List ℕ := L .freeLists ++ L .partialLists ++ L .fullLists

theorem mem_members : d ∈ members L ↔ ∃ k, d ∈ L k := by
  simp only [members, List.mem_append]
  constructor
  · rintro ((hd | hd) | hd)
    · exact ⟨_, hd⟩
    · exact ⟨_, hd⟩
    · exact ⟨_, hd⟩
  · rintro ⟨_ | _ | _, hd⟩
    · exact .inl (.inl hd)
    · exact .inl (.inr hd)
    · exact .inr hd

/-- The heads of a buffer are the heads of disjoint rings of descriptors of its size. -/
structure Rings (b : Buffer) (h : Heap) (L : ListKind → List ℕ) : Prop where
  /-- A head is the first descriptor of its ring, or null. -/
  head : ∀ k, b.head k = (L k).headD 0
  /-- The descriptors are linked into rings. -/
  ring : ∀ k, LinkRing h.next h.prev (L k)
  /-- No descriptor is on two rings. -/
  disjoint : ∀ k k' d, d ∈ L k → d ∈ L k' → k = k'
  /-- Every descriptor is at an address, and of the buffer's size. -/
  desc : ∀ k, ∀ d ∈ L k, (d ≠ 0 ∧ d < 2 ^ 64) ∧
    ∃ ld, h.descs d = some ld ∧ ld.bufferSize = b.bufferSize

/-- The rings, with every descriptor where it belongs. -/
structure Sorted (b : Buffer) (h : Heap) (L : ListKind → List ℕ) : Prop extends Rings b h L where
  /-- A descriptor is on the ring of its kind. -/
  kind : ∀ k, ∀ d ∈ L k, ∃ ld, h.descs d = some ld ∧ ld.kind = k ∧
    ld.buffersUsed ≤ ld.totalBuffers ∧ ld.totalBuffers < 2 ^ 16

/-- Only the heads of a buffer and its size matter. -/
theorem Sorted.of_heads (hs : Sorted b h L) (hhead : ∀ k, b'.head k = b.head k)
    (hsize : b'.bufferSize = b.bufferSize) : Sorted b' h L := by
  refine ⟨⟨fun k ↦ (hhead k).trans (hs.head k), hs.ring, hs.disjoint, fun k d hd ↦ ?_⟩, hs.kind⟩
  obtain ⟨haddr, ld, he, hsz⟩ := hs.desc k d hd
  exact ⟨haddr, ld, he, hsz.trans hsize.symm⟩

namespace Rings

theorem live (hr : Rings b h L) (hd : d ∈ L k) : h.Live d := by
  obtain ⟨⟨hne, -⟩, ld, he, -⟩ := hr.desc k d hd
  exact ⟨hne, ld, he⟩

theorem head_ne_zero (hr : Rings b h L) : b.head k ≠ 0 ↔ L k ≠ [] := by
  rw [hr.head k]
  cases hL : L k with
  | nil => simp
  | cons d l =>
    have hd : d ∈ L k := hL ▸ List.mem_cons_self
    simpa using (hr.desc k d hd).1.1

/-- The rings after links have changed. -/
theorem of_sameSlabs (hr : Rings b h L) (hs : Heap.SameSlabs h h') {L' : ListKind → List ℕ}
    (hsize : b'.bufferSize = b.bufferSize) (hhead : ∀ k, b'.head k = (L' k).headD 0)
    (hring : ∀ k, LinkRing h'.next h'.prev (L' k)) (hsub : ∀ k, ∀ d ∈ L' k, d ∈ L k) :
    Rings b' h' L' := by
  refine ⟨hhead, hring, fun k k' d hd hd' ↦ hr.disjoint k k' d (hsub k d hd) (hsub k' d hd'),
    fun k d hd ↦ ?_⟩
  obtain ⟨haddr, ld, he, hsz⟩ := hr.desc k d (hsub k d hd)
  exact ⟨haddr, _, hs.desc he, hsz.trans hsize.symm⟩

/-- A ring of which no link has changed. -/
theorem ring_of_linksOnly (hr : Rings b h L) {S : List ℕ} (hl : Heap.LinksOnly S h h')
    (hS : ∀ d ∈ L k, d ∉ S) : LinkRing h'.next h'.prev (L k) :=
  (hr.ring k).congr (fun d hd ↦ (hl d (hS d hd)).1) fun d hd ↦ (hl d (hS d hd)).2

end Rings

/-! ## `AddList` -/

namespace Buffer

theorem addList_eq (hd : h.deref d = .ok ld) (hsize : ld.bufferSize = b.bufferSize) :
    b.addList h d = tryAddList ld.kind b.countOp h d := by
  simp only [addList, hd, Exec.ok_bind, bufferSize_countOp, hsize, Exec.check_of]
  simp only [ListDescriptor.kind, tryAddFullList, tryAddFreeList, tryAddPartialList]
  split
  · rfl
  · split <;> rfl

theorem tryAddList_setHead (hk : k' ≠ k) (c : ℕ) :
    tryAddList k' (b.setHead k c) h d =
      (tryAddList k' b h d >>= fun r ↦ pure (r.1.setHead k c, r.2)) := by
  simp only [tryAddList, head_setHead_of_ne b c hk, setHead_comm b c d hk, Exec.pure_eq]
  split
  · cases h.addList (b.head k') d <;> rfl
  · cases h.modify d (fun l ↦ { l with nextList := d, prevList := d }) <;> rfl

/-- The head of a ring may be assigned before a descriptor is added to another one, or after. -/
theorem addList_setHead (hd : h.deref d = .ok ld) (hsize : ld.bufferSize = b.bufferSize)
    (hk : ld.kind ≠ k) (c : ℕ) :
    (b.setHead k c).addList h d = (b.addList h d >>= fun r ↦ pure (r.1.setHead k c, r.2)) := by
  rw [addList_eq hd hsize, addList_eq hd (by simpa using hsize), countOp_setHead,
    tryAddList_setHead hk]

end Buffer

/-- The rings with a descriptor added. -/
def addTo (L : ListKind → List ℕ) (k : ListKind) (d : ℕ) : ListKind → List ℕ :=
  Function.update L k (L k ++ [d])

theorem mem_addTo : x ∈ addTo L k d k' ↔ x ∈ L k' ∨ (k' = k ∧ x = d) := by
  by_cases hk : k' = k
  · subst hk
    simp [addTo]
  · simp [addTo, hk]

/-- What is left to show: the ring of `d`, and the heads. -/
theorem Rings.added (hr : Rings b h L) (hd : d ∉ members L) (haddr : d ≠ 0 ∧ d < 2 ^ 64)
    (he : h.descs d = some ld) (hsize : ld.bufferSize = b.bufferSize) (hs : Heap.SameSlabs h h')
    (hb : b.SameClass b') (hhead : ∀ k', b'.head k' = (addTo L k d k').headD 0)
    (hring : LinkRing h'.next h'.prev (L k ++ [d])) (hl : Heap.LinksOnly (d :: L k) h h') :
    Rings b' h' (addTo L k d) := by
  have hdL : ∀ k, d ∉ L k := fun k hk ↦ hd (mem_members.mpr ⟨k, hk⟩)
  refine ⟨hhead, fun k' ↦ ?_, fun k₁ k₂ x hx hx' ↦ ?_, fun k' x hx ↦ ?_⟩
  · by_cases hk : k' = k
    · subst hk
      simpa [addTo] using hring
    · have hS : ∀ x ∈ L k', x ∉ d :: L k := fun x hx hS ↦ by
        rcases List.mem_cons.mp hS with rfl | hS
        · exact hdL k' hx
        · exact hk (hr.disjoint _ _ x hx hS)
      simpa [addTo, hk] using hr.ring_of_linksOnly hl hS
  · rcases mem_addTo.mp hx with h₁ | ⟨rfl, rfl⟩
    · rcases mem_addTo.mp hx' with h₂ | ⟨-, rfl⟩
      · exact hr.disjoint k₁ k₂ x h₁ h₂
      · exact absurd h₁ (hdL k₁)
    · rcases mem_addTo.mp hx' with h₂ | ⟨rfl, -⟩
      · exact absurd h₂ (hdL k₂)
      · rfl
  · rcases mem_addTo.mp hx with h₁ | ⟨-, rfl⟩
    · obtain ⟨ha, ld', he', hsz⟩ := hr.desc k' x h₁
      exact ⟨ha, _, hs.desc he', hsz.trans hb.bufferSize.symm⟩
    · exact ⟨haddr, _, hs.desc he, hsize.trans hb.bufferSize.symm⟩

/-- **`AddList` puts a descriptor at the end of its ring.** -/
theorem Rings.addList (hr : Rings b h L) (hd : d ∉ members L) (haddr : d ≠ 0 ∧ d < 2 ^ 64)
    (he : h.descs d = some ld) (hsize : ld.bufferSize = b.bufferSize) :
    ∃ b' h', b.addList h d = .ok (b', h') ∧ Heap.SameSlabs h h' ∧
      Rings b' h' (addTo L ld.kind d) ∧ Heap.LinksOnly (d :: members L) h h' ∧
      b.SameClass b' := by
  have hlive : h.Live d := ⟨haddr.1, ld, he⟩
  have hderef : h.deref d = .ok ld := Heap.deref_eq haddr.1 he
  have hdL : d ∉ L ld.kind := fun hk ↦ hd (mem_members.mpr ⟨_, hk⟩)
  have hsub : ∀ x ∈ d :: L ld.kind, x ∈ d :: members L := fun x hx ↦
    (List.mem_cons.mp hx).elim (fun h0 ↦ h0 ▸ List.mem_cons_self)
      fun h0 ↦ List.mem_cons_of_mem d (mem_members.mpr ⟨_, h0⟩)
  rw [Buffer.addList_eq hderef hsize]
  cases hL : L ld.kind with
  | nil =>
    -- the first one of its ring
    have hhead0 : b.head ld.kind = 0 := by rw [hr.head, hL]; rfl
    have hmod : h.modify d (fun l ↦ { l with nextList := d, prevList := d })
        = .ok (h.setLinks d d d) := hlive.modify fun ld _ ↦ rfl
    have hl : Heap.LinksOnly (d :: L ld.kind) h (h.setLinks d d d) :=
      Heap.linksOnly_setLinks hlive List.mem_cons_self d d
    have hs := Heap.sameSlabs_setLinks h d d d
    have hb : b.SameClass (b.countOp.setHead ld.kind d) :=
      b.sameClass_countOp.trans (Buffer.sameClass_setHead _ _ _)
    refine ⟨_, _, ?_, hs, hr.added hd haddr he hsize hs hb (fun k ↦ ?_) ?_ hl, hl.mono hsub, hb⟩
    · simp [Buffer.tryAddList, hhead0, hmod]
    · by_cases hk : k = ld.kind
      · subst hk
        simp [addTo, hL]
      · rw [Buffer.head_setHead_of_ne _ _ hk, Buffer.head_countOp, hr.head]
        simp [addTo, hk]
    · rw [hL, List.nil_append]
      exact LinkRing.singleton_iff.mpr
        ⟨by rw [Heap.next_setLinks hlive, Function.update_self],
          by rw [Heap.prev_setLinks hlive, Function.update_self]⟩
  | cons x l =>
    have hhead : b.head ld.kind = x := by rw [hr.head, hL]; rfl
    have hx : x ∈ L ld.kind := hL ▸ List.mem_cons_self
    obtain ⟨hx0, ldx, hex, hszx⟩ := hr.desc _ x hx
    obtain ⟨h', hadd, hs, hring, hl⟩ := Heap.addList_spec (hL ▸ hr.ring ld.kind)
      (fun y hy ↦ hr.live (hL ▸ hy)) hlive (hL ▸ hdL)
      (by simp [Heap.SameSize, he, hex, hszx, hsize])
    rw [← hL] at hl hring
    refine ⟨b.countOp, h', ?_, hs, hr.added hd haddr he hsize hs b.sameClass_countOp
      (fun k ↦ ?_) hring hl, hl.mono hsub, b.sameClass_countOp⟩
    · simp [Buffer.tryAddList, hhead, hx0.1, hadd]
    · rw [Buffer.head_countOp, hr.head]
      by_cases hk : k = ld.kind
      · subst hk
        simp [addTo, hL]
      · simp [addTo, hk]

/-! ## Moving a descriptor -/

/-- The rings with a descriptor taken out. -/
def without (L : ListKind → List ℕ) (k : ListKind) (d : ℕ) : ListKind → List ℕ :=
  Function.update L k ((L k).erase d)

theorem Rings.mem_without (hr : Rings b h L) (hd : d ∈ L k) :
    x ∈ without L k d k' ↔ x ∈ L k' ∧ x ≠ d := by
  by_cases hk : k' = k
  · subst hk
    rw [without, Function.update_self, (hr.ring k').nodup.mem_erase_iff]
    exact And.comm
  · rw [without, Function.update_of_ne hk]
    exact ⟨fun hx ↦ ⟨hx, fun h0 ↦ hk (hr.disjoint _ _ d (h0 ▸ hx) hd)⟩, And.left⟩

/-- `d` has been taken out of its ring. -/
structure TakenOut (b : Buffer) (h : Heap) (L : ListKind → List ℕ) (k : ListKind) (d : ℕ)
    (b₁ : Buffer) (h₁ : Heap) : Prop where
  /-- Nothing but links has changed, -/
  slabs : Heap.SameSlabs h h₁
  /-- and only those of the ring. -/
  links : Heap.LinksOnly (L k) h h₁
  /-- The buffer is the same but for its heads. -/
  cls : b.SameClass b₁
  /-- The rings without `d`. -/
  rings : Rings b₁ h₁ (without L k d)

/-- What is left to show: the ring of `d`, and its head. -/
theorem Rings.takenOut {b₁ : Buffer} {h₁ : Heap} (hr : Rings b h L) (hd : d ∈ L k)
    (hs : Heap.SameSlabs h h₁) (hl : Heap.LinksOnly (L k) h h₁)
    (hb : b₁ = b.setHead k (((L k).erase d).headD 0))
    (hring : LinkRing h₁.next h₁.prev ((L k).erase d)) : TakenOut b h L k d b₁ h₁ := by
  have hcls : b.SameClass b₁ := hb ▸ b.sameClass_setHead k _
  refine ⟨hs, hl, hcls, hr.of_sameSlabs hs hcls.bufferSize (fun k' ↦ ?_) (fun k' ↦ ?_)
    fun k' x hx ↦ ((hr.mem_without hd).mp hx).1⟩
  · by_cases hk : k' = k
    · rw [hk, hb, Buffer.head_setHead_self, without, Function.update_self]
    · rw [hb, Buffer.head_setHead_of_ne b _ hk, without, Function.update_of_ne hk, hr.head]
  · by_cases hk : k' = k
    · rw [hk, without, Function.update_self]
      exact hring
    · rw [without, Function.update_of_ne hk]
      exact hr.ring_of_linksOnly hl fun x hx hx' ↦ hk (hr.disjoint _ _ x hx hx')

/-- The head of a ring is taken out of it: the first half of `moveHead`. -/
theorem Rings.takeOut_head {l : List ℕ} (hr : Rings b h L) (hL : L k = d :: l)
    (he : h.descs d = some ld) (hk : ld.kind ≠ k) :
    ∃ b₁ h₁, Buffer.moveHead k b h = b₁.addList h₁ d ∧ TakenOut b h L k d b₁ h₁ := by
  have hd : d ∈ L k := hL ▸ List.mem_cons_self
  have hring := hL ▸ hr.ring k
  have hhead : b.head k = d := by rw [hr.head, hL, List.headD_cons]
  obtain ⟨⟨hd0, -⟩, ld₀, he₀, hsize⟩ := hr.desc k d hd
  obtain rfl : ld₀ = ld := Option.some.inj (he₀.symm.trans he)
  have hderef : h.deref d = .ok ld₀ := Heap.deref_eq hd0 he
  have herase : (L k).erase d = l := by rw [hL, List.erase_cons_head]
  cases l with
  | nil =>
    -- `d` is added to the other ring while it still is the head of this one
    have hself : ld₀.nextList = d := Heap.next_eq he ▸ (LinkRing.singleton_iff.mp hring).1
    refine ⟨b.setHead k 0, h, ?_, hr.takenOut hd (Heap.SameSlabs.refl h) (fun _ _ ↦ ⟨rfl, rfl⟩)
      (by rw [herase]; rfl) (by rw [herase]; exact LinkRing.nil)⟩
    rw [Buffer.addList_setHead hderef hsize hk]
    simp [Buffer.moveHead, hhead, hd0, hderef, hself]
  | cons y l =>
    have hnext : ld₀.nextList = y := Heap.next_eq he ▸ hring.next_head.1
    have hyd : y ≠ d := fun h0 ↦
      (List.nodup_cons.mp hring.nodup).1 (h0 ▸ List.mem_cons_self)
    obtain ⟨h₁, hext, hs, hring₁, -, hl⟩ := Heap.extractSelf_spec hring (List.cons_ne_nil y l)
      fun x hx ↦ hr.live (k := k) (hL ▸ hx)
    have hderef₁ : h₁.deref d = .ok { ld₀ with nextList := h₁.next d, prevList := h₁.prev d } :=
      Heap.deref_eq hd0 (hs.desc he)
    refine ⟨b.setHead k y, h₁, ?_, hr.takenOut hd hs (hL ▸ hl) (by rw [herase]; rfl)
      (by rwa [herase])⟩
    rw [Buffer.addList_setHead hderef₁ hsize hk]
    simp [Buffer.moveHead, hhead, hd0, hderef, hnext, hyd, hext]

/-- **The first half of `moveEntry`**: a descriptor that does not belong on its ring is taken out of
it. -/
theorem Rings.takeOut (hr : Rings b h L) (hd : d ∈ L k) (he : h.descs d = some ld)
    (hk : ld.kind ≠ k) :
    ∃ b₁ h₁, Buffer.moveEntry k b h d = b₁.addList h₁ d ∧ TakenOut b h L k d b₁ h₁ := by
  have hd0 := (hr.desc k d hd).1.1
  obtain ⟨x, l, hL⟩ := List.exists_cons_of_ne_nil (List.ne_nil_of_mem hd)
  have hhead : b.head k = x := by rw [hr.head, hL, List.headD_cons]
  by_cases hfirst : d = x
  · subst hfirst
    obtain ⟨b₁, h₁, hmove, hout⟩ := hr.takeOut_head hL he hk
    exact ⟨b₁, h₁, by simp [Buffer.moveEntry, hd0, hhead, hmove], hout⟩
  · have hdl : d ∈ l := (List.mem_cons.mp (hL ▸ hd)).resolve_left hfirst
    obtain ⟨P, Q, rfl⟩ := List.append_of_mem hdl
    have hring := hL ▸ hr.ring k
    have hdP : d ∉ x :: P := fun hP ↦
      (List.nodup_append.mp (List.cons_append ▸ hring.nodup)).2.2 d hP d List.mem_cons_self rfl
    have herase : (L k).erase d = x :: P ++ Q := by
      rw [hL, ← List.cons_append, List.erase_append_right _ hdP, List.erase_cons_head]
    obtain ⟨h₁, hext, hs, hring₁, hl⟩ := Heap.extract_spec (L := P) (M := Q) hring
      fun y hy ↦ hr.live (k := k) (hL ▸ hy)
    refine ⟨b, h₁, ?_, hr.takenOut hd hs (hl.mono fun y hy ↦ ?_) ?_ (by rwa [herase])⟩
    · simp [Buffer.moveEntry, hd0, hhead, hfirst, hext]
    · exact List.mem_of_mem_erase (herase ▸ hy)
    · rw [herase, List.cons_append, List.headD_cons, ← hhead, Buffer.setHead_head]

/-! ## A descriptor that has changed -/

/-- The buffer has been put right after a descriptor changed: `h₁` is the heap in between. -/
structure Resorted (b : Buffer) (L : ListKind → List ℕ) (h₁ : Heap) (b' : Buffer) (h' : Heap) :
    Prop where
  /-- Nothing but links has changed, -/
  slabs : Heap.SameSlabs h₁ h'
  /-- and only those of the buffer's own descriptors. -/
  links : Heap.LinksOnly (members L) h₁ h'
  /-- The buffer is the same but for its rings. -/
  cls : b.SameClass b'
  /-- The descriptors are those from before, and each is where it belongs. -/
  sorted : ∃ L', Sorted b' h' L' ∧ ∀ x, x ∈ members L' ↔ x ∈ members L

/-- Another state of a slab: memory and the descriptor have changed, but not the links. -/
def Heap.setSlab (h : Heap) (d : ℕ) (m : Memory) (ld : ListDescriptor) : Heap :=
  { h with mem := m }.put d ld

/-- `ld'` is `ld` after an allocation or a deallocation. -/
def ListDescriptor.Revises (ld ld' : ListDescriptor) : Prop :=
  ld' = { ld with nextFree := ld'.nextFree, buffersUsed := ld'.buffersUsed } ∧
    ld'.buffersUsed ≤ ld.totalBuffers

namespace Heap

theorem descs_setSlab_self (h : Heap) (d : ℕ) (m : Memory) (ld : ListDescriptor) :
    (h.setSlab d m ld).descs d = some ld := if_pos rfl

theorem descs_setSlab_of_ne (h : Heap) (m : Memory) (ld : ListDescriptor) (hx : x ≠ d) :
    (h.setSlab d m ld).descs x = h.descs x := if_neg hx

theorem next_setSlab (he : h.descs d = some ld) (hrev : ld.Revises ld') (m : Memory) :
    (h.setSlab d m ld').next = h.next := by
  funext x
  by_cases hx : x = d
  · rw [hx, next_eq (descs_setSlab_self h d m ld'), next_eq he, hrev.1]
  · rw [next, descs_setSlab_of_ne h m ld' hx]
    rfl

theorem prev_setSlab (he : h.descs d = some ld) (hrev : ld.Revises ld') (m : Memory) :
    (h.setSlab d m ld').prev = h.prev := by
  funext x
  by_cases hx : x = d
  · rw [hx, prev_eq (descs_setSlab_self h d m ld'), prev_eq he, hrev.1]
  · rw [prev, descs_setSlab_of_ne h m ld' hx]
    rfl

end Heap

/-- A slab may change: the rings do not. -/
theorem Rings.setSlab (hr : Rings b h L) (he : h.descs d = some ld) (hrev : ld.Revises ld')
    (m : Memory) : Rings b (h.setSlab d m ld') L := by
  refine ⟨hr.head, fun k ↦ ?_, hr.disjoint, fun k x hx ↦ ?_⟩
  · rw [Heap.next_setSlab he hrev, Heap.prev_setSlab he hrev]
    exact hr.ring k
  · obtain ⟨haddr, ld₀, he₀, hsize⟩ := hr.desc k x hx
    refine ⟨haddr, ?_⟩
    by_cases hxd : x = d
    · subst hxd
      obtain rfl : ld₀ = ld := Option.some.inj (he₀.symm.trans he)
      exact ⟨ld', Heap.descs_setSlab_self h x m ld', by rw [hrev.1]; exact hsize⟩
    · exact ⟨ld₀, (Heap.descs_setSlab_of_ne h m ld' hxd).trans he₀, hsize⟩

namespace Sorted

/-- The kinds after a slab has changed. -/
theorem kind_setSlab (hs : Sorted b h L) (he : h.descs d = some ld)
    (hrev : ld.Revises ld') (m : Memory) {j : ListKind} (hx : x ∈ L j) :
    ∃ ld₀, (h.setSlab d m ld').descs x = some ld₀ ∧ (x ≠ d → ld₀.kind = j) ∧
      ld₀.buffersUsed ≤ ld₀.totalBuffers ∧ ld₀.totalBuffers < 2 ^ 16 := by
  obtain ⟨ld₀, he₀, hkind, hused, htotal⟩ := hs.kind j x hx
  by_cases hxd : x = d
  · subst hxd
    obtain rfl : ld₀ = ld := Option.some.inj (he₀.symm.trans he)
    refine ⟨ld', Heap.descs_setSlab_self h x m ld', fun h0 ↦ absurd rfl h0, ?_, ?_⟩
    · rw [hrev.1]
      exact hrev.2
    · rw [hrev.1]
      exact htotal
  · exact ⟨ld₀, (Heap.descs_setSlab_of_ne h m ld' hxd).trans he₀, fun _ ↦ hkind, hused, htotal⟩

/-- A descriptor that still belongs on its ring stays there. -/
theorem resorted_of_kind (hs : Sorted b h L) (hd : d ∈ L k) (he : h.descs d = some ld)
    (hrev : ld.Revises ld') (m : Memory) (hk : ld'.kind = k) :
    Resorted b L (h.setSlab d m ld') b (h.setSlab d m ld') := by
  refine ⟨Heap.SameSlabs.refl _, fun _ _ ↦ ⟨rfl, rfl⟩, Buffer.SameClass.refl b,
    L, ⟨hs.toRings.setSlab he hrev m, fun j x hx ↦ ?_⟩, fun _ ↦ Iff.rfl⟩
  obtain ⟨ld₀, he₀, hkind, hbound⟩ := hs.kind_setSlab he hrev m hx
  refine ⟨ld₀, he₀, ?_, hbound⟩
  by_cases hxd : x = d
  · subst hxd
    obtain rfl : ld₀ = ld' := Option.some.inj (he₀.symm.trans (Heap.descs_setSlab_self h x m ld'))
    exact hk.trans (hs.disjoint _ _ x hd hx)
  · exact hkind hxd

/-- **The second half of `moveEntry`**: a descriptor that was taken out of its ring is added to the
ring it belongs on. -/
theorem addList_takenOut (hs : Sorted b h L) (hd : d ∈ L k) (he : h.descs d = some ld)
    (hrev : ld.Revises ld') {m : Memory} {b₁ : Buffer} {h₁ : Heap}
    (hout : TakenOut b (h.setSlab d m ld') L k d b₁ h₁) :
    ∃ b' h', b₁.addList h₁ d = .ok (b', h') ∧ Resorted b L (h.setSlab d m ld') b' h' := by
  have hr := hs.toRings.setSlab he hrev m
  obtain ⟨haddr, ld₀, he₀, hsize⟩ := hs.desc k d hd
  obtain rfl : ld₀ = ld := Option.some.inj (he₀.symm.trans he)
  have he₁ := hout.slabs.desc (Heap.descs_setSlab_self h d m ld')
  have hmem : ∀ x, x ∈ members (without L k d) ↔ x ∈ members L ∧ x ≠ d := by
    intro x
    simp only [mem_members, hr.mem_without hd, exists_and_right]
  have hsize' : ld'.bufferSize = b₁.bufferSize := by
    rw [hout.cls.bufferSize, hrev.1]
    exact hsize
  obtain ⟨b', h', hadd, hslabs, hrings, hlinks, hcls⟩ := hout.rings.addList
    (fun h0 ↦ ((hmem d).mp h0).2 rfl) haddr he₁ hsize'
  have hmem' : ∀ x, x ∈ members (addTo (without L k d) ld'.kind d) ↔ x ∈ members L := by
    intro x
    simp only [mem_members, mem_addTo, hr.mem_without hd]
    constructor
    · rintro ⟨j, ⟨hx, -⟩ | ⟨-, rfl⟩⟩
      · exact ⟨j, hx⟩
      · exact ⟨k, hd⟩
    · rintro ⟨j, hx⟩
      by_cases hxd : x = d
      · exact ⟨ld'.kind, .inr ⟨rfl, hxd⟩⟩
      · exact ⟨j, .inl ⟨hx, hxd⟩⟩
  refine ⟨b', h', hadd, hout.slabs.trans hslabs, ?_, hout.cls.trans hcls, _, ⟨hrings, ?_⟩, hmem'⟩
  · refine (hout.links.mono fun x hx ↦ mem_members.mpr ⟨k, hx⟩).trans
      (hlinks.mono fun x hx ↦ ?_)
    rcases List.mem_cons.mp hx with rfl | hx
    · exact mem_members.mpr ⟨k, hd⟩
    · exact ((hmem x).mp hx).1
  · intro j x hx
    have hx' := mem_addTo.mp hx
    rw [hr.mem_without hd] at hx'
    rcases hx' with ⟨hxj, hxd⟩ | ⟨rfl, rfl⟩
    · obtain ⟨ld₁, he₂, hkind, hused, htotal⟩ := hs.kind_setSlab he hrev m hxj
      exact ⟨_, (hout.slabs.trans hslabs).desc he₂, hkind hxd, hused, htotal⟩
    · obtain ⟨ld₁, he₂, -, hused, htotal⟩ := hs.kind_setSlab he hrev m hd
      obtain rfl : ld₁ = ld' :=
        Option.some.inj (he₂.symm.trans (Heap.descs_setSlab_self h x m ld'))
      exact ⟨_, (hout.slabs.trans hslabs).desc he₂, rfl, hused, htotal⟩

/-- **`moveEntry` puts right a descriptor that has changed.** -/
theorem moveEntry_resorted (hs : Sorted b h L) (hd : d ∈ L k) (he : h.descs d = some ld)
    (hrev : ld.Revises ld') (m : Memory) (hk : ld'.kind ≠ k) :
    ∃ b' h', Buffer.moveEntry k b (h.setSlab d m ld') d = .ok (b', h') ∧
      Resorted b L (h.setSlab d m ld') b' h' := by
  obtain ⟨b₁, h₁, hmove, hout⟩ := (hs.toRings.setSlab he hrev m).takeOut hd
    (Heap.descs_setSlab_self h d m ld') hk
  obtain ⟨b', h', hadd, hres⟩ := hs.addList_takenOut hd he hrev hout
  exact ⟨b', h', hmove.trans hadd, hres⟩

/-- **`moveHead` puts right a head that has changed.** -/
theorem moveHead_resorted {l : List ℕ} (hs : Sorted b h L) (hL : L k = d :: l)
    (he : h.descs d = some ld) (hrev : ld.Revises ld') (m : Memory) (hk : ld'.kind ≠ k) :
    ∃ b' h', Buffer.moveHead k b (h.setSlab d m ld') = .ok (b', h') ∧
      Resorted b L (h.setSlab d m ld') b' h' := by
  obtain ⟨b₁, h₁, hmove, hout⟩ := (hs.toRings.setSlab he hrev m).takeOut_head hL
    (Heap.descs_setSlab_self h d m ld') hk
  obtain ⟨b', h', hadd, hres⟩ :=
    hs.addList_takenOut (hL ▸ List.mem_cons_self) he hrev hout
  exact ⟨b', h', hmove.trans hadd, hres⟩

end Sorted

end Chisaka.Slab
