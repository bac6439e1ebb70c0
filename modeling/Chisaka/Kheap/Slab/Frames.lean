import Chisaka.Lib.Ensures
import Chisaka.Kheap.Slab.AllocatorRuns

/-!
# What the slab allocator leaves alone

Whatever the allocator does with its rings, it writes into memory in one place only, where a slab
is linked (`SetupLinkage`).  `Heap.Frame` is what all the other functions keep: memory, and where
the slabs lie.

* `Allocator.allocateObject_frame`, `Allocator.newBuffer_frame`: no byte of memory changes.
* `Allocator.newListDescriptor_frame`: one slab is added, and only its region is written.
* `Allocator.init_frame`: `Init` writes into the page it was given.

These are statements about every call that returns (`Exec.Ensures`), whatever the allocator is.
-/

set_option autoImplicit false

namespace Chisaka.Slab

open Bytes

/-! ## Descriptors -/

namespace Heap

/-- Where the slab of a descriptor lies, and how many pages it has. -/
def region (h : Heap) (d : ℕ) : Option (ℕ × ℕ) :=
  (h.descs d).map fun ld ↦ (ld.baseAddress, ld.pages)

/-- Memory is the same, and the slabs are where they were. -/
structure Frame (h h' : Heap) : Prop where
  /-- No byte has changed. -/
  mem : h'.mem = h.mem
  /-- No slab has moved, come or gone. -/
  region : h'.region = h.region

variable {h h' h'' : Heap} {d x y : ℕ} {ld ld' : ListDescriptor}
  {f : ListDescriptor → ListDescriptor}

theorem Frame.refl (h : Heap) : Frame h h := ⟨rfl, rfl⟩

theorem Frame.trans (h₁ : Frame h h') (h₂ : Frame h' h'') : Frame h h'' :=
  ⟨h₂.mem.trans h₁.mem, h₂.region.trans h₁.region⟩

/-- A sequence of functions each of which leaves both alone. -/
theorem Frame.comp {α β : Type} {x : Exec α} {f : α → Exec β} {s : α → Heap} {t : β → Heap}
    (hx : x.Ensures fun a ↦ Frame h (s a)) (hf : ∀ a, (f a).Ensures fun b ↦ Frame (s a) (t b)) :
    (x >>= f).Ensures fun b ↦ Frame h (t b) :=
  .bind hx fun a ha ↦ (hf a).mono fun _ hb ↦ ha.trans hb

theorem ensures_deref (h : Heap) (d : ℕ) : (h.deref d).Ensures fun ld ↦ h.descs d = some ld := by
  intro ld hld
  unfold deref at hld
  split at hld
  · cases hld
  · cases hd : h.descs d with
    | none =>
      rw [hd] at hld
      cases hld
    | some ld' =>
      rw [hd] at hld
      cases hld
      rfl

/-- A descriptor is replaced by one of the same slab. -/
theorem Frame.put (he : h.descs d = some ld)
    (hld : (ld'.baseAddress, ld'.pages) = (ld.baseAddress, ld.pages)) : Frame h (h.put d ld') := by
  refine ⟨rfl, funext fun x ↦ ?_⟩
  by_cases hx : x = d
  · subst hx
    simp only [Heap.region, Heap.put, if_true, he, Option.map_some, hld]
  · simp only [Heap.region, Heap.put, if_neg hx]

/-- Assigning to members other than the region. -/
theorem modify_frame (h : Heap) (d : ℕ)
    (hf : ∀ ld, ((f ld).baseAddress, (f ld).pages) = (ld.baseAddress, ld.pages)) :
    (h.modify d f).Ensures (Frame h) :=
  .bind (ensures_deref h d) fun ld he ↦ .pure (Frame.put he (hf ld))

theorem addList_frame (h : Heap) (x y : ℕ) : (h.addList x y).Ensures (Frame h) := by
  refine .skip fun t ↦ .skip fun s ↦ .ite (fun _ ↦ .pure (Frame.refl h)) fun _ ↦ ?_
  refine .ite (fun _ ↦ .pure (Frame.refl h)) fun _ ↦ .ite (fun _ ↦ ?_) fun _ ↦ ?_
  · refine Frame.comp (modify_frame h x fun _ ↦ by rfl) fun h₁ ↦ ?_
    exact modify_frame h₁ y fun _ ↦ by rfl
  · refine Frame.comp (modify_frame h y fun _ ↦ by rfl) fun h₁ ↦ ?_
    refine Frame.comp (modify_frame h₁ _ fun _ ↦ by rfl) fun h₂ ↦ ?_
    exact modify_frame h₂ x fun _ ↦ by rfl

theorem extract_frame (h : Heap) (x y : ℕ) : (h.extract x y).Ensures fun r ↦ Frame h r.2 := by
  refine .ite (fun _ ↦ .pure (Frame.refl h)) fun _ ↦ .skip fun t ↦ .ite (fun _ ↦ ?_) fun _ ↦ ?_
  · exact .bind (modify_frame h x fun _ ↦ by rfl) fun h₁ hf ↦ .pure hf
  · refine .skip fun e ↦ Frame.comp (modify_frame h _ fun _ ↦ by rfl) fun h₁ ↦ ?_
    exact .skip fun e' ↦ .bind (modify_frame h₁ _ fun _ ↦ by rfl) fun h₂ hf ↦ .pure hf

theorem extractSelf_frame (h : Heap) (x : ℕ) : (h.extractSelf x).Ensures (Frame h) := by
  refine .skip fun t ↦ .ite (fun _ ↦ .pure (Frame.refl h)) fun _ ↦ .ite (fun _ ↦ ?_) fun _ ↦ ?_
  · refine Frame.comp (modify_frame h _ fun _ ↦ by rfl) fun h₁ ↦ ?_
    exact modify_frame h₁ x fun _ ↦ by rfl
  · refine Frame.comp (modify_frame h _ fun _ ↦ by rfl) fun h₁ ↦ ?_
    refine Frame.comp (modify_frame h₁ _ fun _ ↦ by rfl) fun h₂ ↦ ?_
    exact modify_frame h₂ x fun _ ↦ by rfl

/-- `Allocate` looks at one link, and writes none. -/
theorem allocate_frame (h : Heap) (d : ℕ) : (h.allocate d).Ensures fun r ↦ Frame h r.2 := by
  refine .bind (ensures_deref h d) fun ld he ↦ .bind (P := fun r ↦
    (r.2.baseAddress, r.2.pages) = (ld.baseAddress, ld.pages)) ?_ fun r hr ↦ .pure (Frame.put he hr)
  exact .ite (fun _ ↦ .pure rfl) fun _ ↦ .skip fun next ↦ .pure rfl

end Heap

/-! ## Buffers -/

namespace Buffer

open Heap Exec

variable {k : ListKind} {b : Buffer} {h : Heap} {d : ℕ}

theorem tryAddList_frame (k : ListKind) (b : Buffer) (h : Heap) (d : ℕ) :
    (b.tryAddList k h d).Ensures fun r ↦ Frame h r.2 := by
  refine .ite (fun _ ↦ ?_) fun _ ↦ ?_
  · exact .bind (addList_frame h _ d) fun h₁ hf ↦ .pure hf
  · exact .bind (modify_frame h d fun _ ↦ by rfl) fun h₁ hf ↦ .pure hf

theorem addList_frame (b : Buffer) (h : Heap) (d : ℕ) :
    (b.addList h d).Ensures fun r ↦ Frame h r.2 := by
  refine .skip fun l ↦ .check fun _ ↦ .ite (fun _ ↦ tryAddList_frame _ _ h d) fun _ ↦ ?_
  exact .ite (fun _ ↦ tryAddList_frame _ _ h d) fun _ ↦ tryAddList_frame _ _ h d

theorem moveHead_frame (k : ListKind) (b : Buffer) (h : Heap) :
    (b.moveHead k h).Ensures fun r ↦ Frame h r.2 := by
  refine .ite (fun _ ↦ .pure (Frame.refl h)) fun _ ↦ .skip fun l ↦ .ite (fun _ ↦ ?_) fun _ ↦ ?_
  · exact .bind (addList_frame b h _) fun r hf ↦ .pure hf
  · refine Frame.comp (extractSelf_frame h _) fun h₁ ↦ ?_
    exact .bind (addList_frame b h₁ _) fun r hf ↦ .pure hf

theorem moveEntry_frame (k : ListKind) (b : Buffer) (h : Heap) (d : ℕ) :
    (b.moveEntry k h d).Ensures fun r ↦ Frame h r.2 := by
  refine .ite (fun _ ↦ .pure (Frame.refl h)) fun _ ↦ .ite (fun _ ↦ moveHead_frame k b h) fun _ ↦ ?_
  exact Frame.comp (extract_frame h _ d) fun r ↦ addList_frame b r.2 d

theorem addToFree_frame (b : Buffer) (h : Heap) :
    (b.addToFree h).Ensures fun r ↦ Frame h r.2.2 := by
  refine .ite (fun _ ↦ .pure (Frame.refl h)) fun _ ↦ ?_
  refine Frame.comp (allocate_frame h _) fun r ↦ ?_
  exact .bind (moveHead_frame .freeLists b r.2) fun r' hf ↦ .pure hf

/-- A round of the loop of `AddToPartial`. -/
theorem addToPartialBody_frame (b : Buffer) (h : Heap) (it : ℕ) :
    (b.addToPartialBody h it).Ensures
      (Sum.elim (fun _ ↦ True) fun r : ℕ × Buffer × Heap ↦ Frame h r.2.2) := by
  refine .skip fun l ↦ .ite (fun _ ↦ ?_) fun _ ↦ ?_
  · refine .bind (allocate_frame h it) fun r hr ↦ .skip fun l' ↦ .ite (fun _ ↦ ?_) fun _ ↦ ?_
    · exact .bind (moveHead_frame .partialLists b r.2) fun r' hf ↦ .pure (hr.trans hf)
    · refine .ite (fun _ ↦ ?_) fun _ ↦ .pure hr
      exact .bind (moveEntry_frame .partialLists b r.2 it) fun r' hf ↦ .pure (hr.trans hf)
  · exact .skip fun first ↦ .ite (fun _ ↦ .pure trivial) fun _ ↦ .pure (Frame.refl h)

theorem addToPartial_frame (b : Buffer) (h : Heap) :
    (b.addToPartial h).Ensures fun r ↦ Frame h r.2.2 := by
  refine .ite (fun _ ↦ .pure (Frame.refl h)) fun _ ↦ ?_
  exact .exec (fun it _ ↦ addToPartialBody_frame b h it) trivial

theorem allocate_frame (b : Buffer) (h : Heap) :
    (b.allocate h).Ensures fun r ↦ Frame h r.2.2 := by
  have hend : ∀ (alloc : ℕ) (b : Buffer) (h : Heap), Ensures
      (if alloc = 0 then pure (0, b, h) else pure (alloc, b.countOp, h)) fun r ↦ Frame h r.2.2 :=
    fun alloc b h ↦ .ite (fun _ ↦ .pure (Frame.refl h)) fun _ ↦ .pure (Frame.refl h)
  refine .ite (fun _ ↦ Frame.comp (addToPartial_frame b h) fun r ↦ ?_) fun _ ↦ ?_
  · refine .ite (fun _ ↦ Frame.comp (addToFree_frame _ _) fun r' ↦ ?_) fun _ ↦ hend _ _ _
    exact hend _ _ _
  · refine .ite (fun _ ↦ Frame.comp (addToFree_frame _ _) fun r' ↦ ?_) fun _ ↦ hend 0 b h
    exact hend _ _ _

end Buffer

/-! ## Linking a slab -/

/-- `SetupLinkage` of a slab whose links lie in its pages writes nowhere else. -/
theorem ListDescriptor.setupLinkage_inside {x base : ℕ} {size : UInt16} {pages : UInt8}
    (hc : (ListDescriptor.new x base size pages).InSpace)
    (hlinks : (ListDescriptor.new x base size pages).LinksInside) (mem : Memory) :
    ((ListDescriptor.new x base size pages).setupLinkage mem).Ensures fun r ↦
      (∀ y, ¬(base ≤ y ∧ y < base + 0x1000 * pages.toNat) → r.1 y = mem y) ∧
        (r.2.baseAddress, r.2.pages) = (base, pages.toNat) := by
  set new := ListDescriptor.new x base size pages with hnew
  have hsized : new.Sized := ListDescriptor.new_sized hc.1 hc.lt
  obtain ⟨m, ld, hset, -, -, hwords, rfl⟩ := hsized.setupLinkage rfl hc.2 mem
  rw [hset]
  refine .ok ⟨fun y hy ↦ hwords y fun c hc' ↦ ?_, rfl⟩
  -- the link of the buffer with index `i`
  obtain ⟨i, hilt, rfl⟩ := List.mem_range'.mp hc'
  have hle : new.bufferSize * i ≤ (new.linked - 1) * new.bufferSize := by
    rw [Nat.mul_comm]
    exact Nat.mul_le_mul_right _ (by omega)
  have hb : new.baseAddress = base := rfl
  have hp : new.pages = pages.toNat := rfl
  rw [ListDescriptor.LinksInside, hp] at hlinks
  omega

/-- `SetupLinkage` of a slab at null faults. -/
theorem ListDescriptor.setupLinkage_null {ld : ListDescriptor} (hb : ld.baseAddress = 0)
    (mem : Memory) : ∃ e, ld.setupLinkage mem = .error e := by
  have hbody : setupLinkageBody ld.bufferSize ld.limit (mem, ld.baseAddress) =
      if add64 0 ld.bufferSize < ld.limit then .error .nullDeref else .ok (.inr (mem, 0)) := by
    rw [hb, setupLinkageBody]
    split
    · rw [store_null, Exec.error_bind]
    · rfl
  by_cases hlt : add64 0 ld.bufferSize < ld.limit
  · rw [if_pos hlt] at hbody
    exact ⟨.nullDeref, by rw [setupLinkage, Loop.exec_error hbody, Exec.error_bind]⟩
  · rw [if_neg hlt] at hbody
    refine ⟨.nullDeref, ?_⟩
    rw [setupLinkage, Loop.exec_inr hbody, Exec.ok_bind]
    rfl

theorem Heap.setupLinkage_null {h : Heap} {d : ℕ} {ld : ListDescriptor} (he : h.descs d = some ld)
    (hb : ld.baseAddress = 0) : (h.setupLinkage d).Ensures fun _ ↦ False := by
  refine .bind (Heap.ensures_deref h d) fun ld' he' ↦ ?_
  obtain rfl : ld = ld' := Option.some.inj (he.symm.trans he')
  obtain ⟨e, hset⟩ := ListDescriptor.setupLinkage_null hb h.mem
  rw [hset]
  exact .error e

/-! ## The allocator -/

namespace Allocator

open Heap Exec

variable {a : Allocator} {base : ℕ} {size : UInt16} {pages : UInt8} {buffer64 stack : ℕ}

theorem allocateFrom_frame (a : Allocator) (p : ℕ) :
    (a.allocateFrom p).Ensures fun r ↦ Frame a.heap r.2.heap :=
  .skip fun b ↦ .bind (b.allocate_frame a.heap) fun _ hf ↦ .pure hf

theorem addListTo_frame (a : Allocator) (p list : ℕ) :
    (a.addListTo p list).Ensures fun a' ↦ Frame a.heap a'.heap :=
  .skip fun b ↦ .bind (b.addList_frame a.heap list) fun _ hf ↦ .pure hf

theorem constructBuffer_frame (a : Allocator) (p : ℕ) (b : Buffer) :
    (a.constructBuffer p b).Ensures fun a' ↦ Frame a.heap a'.heap :=
  .ite (fun _ ↦ .error _) fun _ ↦ .ok (Frame.refl _)

theorem addBuffer_frame (a : Allocator) (p : ℕ) :
    (a.addBuffer p).Ensures fun a' ↦ Frame a.heap a'.heap :=
  .skip fun _ ↦ .pure (Frame.refl _)

theorem addListDescriptor_frame (a : Allocator) (list : ℕ) :
    (a.addListDescriptor list).Ensures fun a' ↦ Frame a.heap a'.heap := by
  refine .skip fun ld ↦ .skip fun buf ↦ .ite (fun _ ↦ .pure (Frame.refl _)) fun _ ↦ ?_
  exact a.addListTo_frame buf list

/-- **`NewBuffer` writes no byte of memory.** -/
theorem newBuffer_frame (a : Allocator) (size : UInt16) :
    (a.newBuffer size).Ensures fun r ↦ Frame a.heap r.2.heap := by
  refine .skip fun e ↦ .ite (fun _ ↦ .pure (Frame.refl _)) fun _ ↦ ?_
  refine Frame.comp (a.allocateFrom_frame a.buffer64) fun r ↦ ?_
  refine Frame.comp (r.2.constructBuffer_frame r.1 _) fun a₂ ↦ ?_
  exact .bind (a₂.addBuffer_frame r.1) fun _ hf ↦ .pure hf

/-- **`AllocateObject` writes no byte of memory.** -/
theorem allocateObject_frame (a : Allocator) (bytes : ℕ) :
    (a.allocateObject bytes).Ensures fun r ↦ Frame a.heap r.2.heap := by
  refine .skip fun buf ↦ .ite (fun _ ↦ a.allocateFrom_frame buf) fun _ ↦ ?_
  exact Frame.comp (a.newBuffer_frame _) fun r ↦ r.2.allocateFrom_frame r.1

/-- One slab was added, and nothing was written outside its pages. -/
structure Adds (h h' : Heap) (d base pages : ℕ) : Prop where
  /-- Bytes that are not in the slab are what they were. -/
  mem : ∀ x, ¬(base ≤ x ∧ x < base + 0x1000 * pages) → h'.mem x = h.mem x
  /-- Its descriptor is new, and the others are where they were. -/
  region : h'.region = Function.update h.region d (some (base, pages))

/-- **`NewListDescriptor` writes into the pages of its slab only.** -/
theorem newListDescriptor_adds (hc : (ListDescriptor.new 0 base size pages).InSpace)
    (hlinks : (ListDescriptor.new 0 base size pages).LinksInside) (a : Allocator) :
    (a.newListDescriptor base size pages).Ensures fun r ↦
      Adds a.heap r.2.heap r.1 base pages.toNat := by
  refine .bind (a.allocateFrom_frame a.buffer64) fun ⟨list, a₁⟩ hf₁ ↦ ?_
  set new := ListDescriptor.new list base size pages with hnew
  have hmade : (a₁.constructList list new).Ensures fun a₂ ↦
      list ≠ 0 ∧ a₂.heap = a₁.heap.put list new :=
    .ite (fun _ ↦ .error _) fun hlist ↦ .ok ⟨hlist, rfl⟩
  refine .bind hmade fun a₂ ⟨hlist, ha₂⟩ ↦ ?_
  refine .bind (P := fun h ↦ Adds a₁.heap h list base pages.toNat) ?_ fun h₂ hadds ↦ ?_
  · rw [ha₂, Heap.setupLinkage_put hlist]
    refine .bind (ListDescriptor.setupLinkage_inside (x := list) hc hlinks _) fun r hr ↦ .ok ?_
    refine ⟨hr.1, funext fun x ↦ ?_⟩
    by_cases hx : x = list
    · subst hx
      rw [Function.update_self, Heap.region, Heap.descs_setSlab_self, Option.map_some, hr.2]
    · rw [Function.update_of_ne hx, Heap.region, Heap.descs_setSlab_of_ne _ _ _ hx, Heap.region]
  · refine .bind (addListDescriptor_frame _ list) fun a₃ hf₃ ↦ .pure ⟨fun x hx ↦ ?_, ?_⟩
    · have hm₁ : a₁.heap.mem = a.heap.mem := hf₁.mem
      have hm₃ : a₃.heap.mem = h₂.mem := hf₃.mem
      rw [hm₃, hadds.mem x hx, hm₁]
    · have hr₁ : a₁.heap.region = a.heap.region := hf₁.region
      have hr₃ : a₃.heap.region = h₂.region := hf₃.region
      rw [hr₃, hadds.region, hr₁]

/-- **`Init` writes into the page it was given only.** -/
theorem init_frame (h : PageApart buffer64 stack base) (mem : Memory) (uninitialised : Buffer) :
    ((Allocator.new mem buffer64).init stack base uninitialised).Ensures fun a ↦
      ∀ x, ¬(base ≤ x ∧ x < base + 0x1000) → a.heap.mem x = mem x := by
  have hne : stack ≠ base := fun h0 ↦ h.stack.2 (by have := h.lt; omega)
  have hnew : ListDescriptor.new stack base 64 1 = ⟨base, 0, stack, stack, 64, 64, 0, 1⟩ := rfl
  have hc : (ListDescriptor.new stack base 64 1).InSpace := by
    rw [hnew]
    exact ⟨h.base_ne, by simpa [ListDescriptor.linked] using h.lt⟩
  have hlinks : (ListDescriptor.new stack base 64 1).LinksInside := by
    rw [hnew]
    simp [ListDescriptor.LinksInside, ListDescriptor.linked]
  have hinside := ListDescriptor.setupLinkage_inside hc hlinks mem
  obtain ⟨m, hset, -⟩ := setupLinkage_firstPage h.base_ne h.lt stack mem
  have hm := (hinside _ hset).1
  rw [Inv.init_eq_initAt h]
  refine .bind (P := fun bs ↦ bs = (Allocator.new mem buffer64).buffers.put buffer64
    (Buffer.new buffer64 64)) ?_ fun bs hbs ↦ ?_
  · refine .bind (P := fun b ↦ b = Buffer.new buffer64 0) ?_ fun b hb ↦ .pure ?_
    · intro b hb
      have hnew : (Allocator.new mem buffer64).buffers buffer64 = some (Buffer.new buffer64 0) :=
        if_pos rfl
      have hderef := Buffers.deref_eq h.buffer64.1 hnew
      exact (Except.ok.inj (hderef.symm.trans hb)).symm
    · subst hb
      rfl
  · subst hbs
    have hb64 := Buffers.deref_eq h.buffer64.1 (Buffers.put_self
      (Allocator.new mem buffer64).buffers buffer64 (Buffer.new buffer64 64))
    have hspec := initialiseLists_spec (a := { Allocator.new mem buffer64 with
        buffers := (Allocator.new mem buffer64).buffers.put buffer64 (Buffer.new buffer64 64) })
      hb64 rfl rfl h.stack.1 h.base_ne hne hset
    rw [hspec, Exec.ok_bind]
    refine .bind (allocateFrom_frame _ _) fun r hf ↦ .bind (constructBuffer_frame _ _ _)
      fun a hf' ↦ .pure fun x hx ↦ ?_
    have hmem : a.heap.mem = m := hf'.mem.trans hf.mem
    rw [← hm x hx, ← hmem]

/-! ### No page -/

/-- A slab at null is not set up, -/
theorem newListDescriptor_null (a : Allocator) (size : UInt16) (pages : UInt8) :
    (a.newListDescriptor 0 size pages).Ensures fun _ ↦ False := by
  refine .skip fun ⟨list, a₁⟩ ↦ .bind (P := fun a₂ ↦ a₂.heap.descs list =
    some (.new list 0 size pages)) ?_ fun a₂ he ↦ ?_
  · exact .ite (fun _ ↦ .error _) fun _ ↦ .ok (if_pos rfl)
  · exact .bind (Heap.setupLinkage_null he rfl) fun _ h ↦ h.elim

/-- nor is the heap. -/
theorem init_null (a : Allocator) (stack : ℕ) (uninitialised : Buffer) :
    (a.init stack 0 uninitialised).Ensures fun _ ↦ False := by
  have hlists : ∀ a : Allocator, (a.initialiseLists stack 0).Ensures fun _ ↦ False := fun a ↦ by
    have he : (a.heap.put stack (.new stack 0 64 1)).descs stack =
        some (.new stack 0 64 1) := if_pos rfl
    exact .bind (Heap.setupLinkage_null he rfl) fun _ h ↦ h.elim
  have hat : (a.initAt stack 0 uninitialised).Ensures fun _ ↦ False :=
    .skip fun _ ↦ .bind (hlists _) fun _ h ↦ h.elim
  exact .bind hat fun _ h ↦ h.elim

end Allocator

end Chisaka.Slab
