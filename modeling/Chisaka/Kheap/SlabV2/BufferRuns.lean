import Chisaka.Kheap.SlabV2.Buffer
import Chisaka.Kheap.SlabV2.ListDescriptorRuns

/-!
# Runs of a buffer of the second version

A buffer to which descriptors are added, and which then allocates and deallocates.  `added` is the
abstract list of its descriptors, in the order in which they were added, and `CallSound` says what
every call should do in terms of it.

No run gets as far as a first descriptor (`Unstarted` is an invariant), because `AddList` is called
on the null head.  So a call is sound if it is right for a buffer without descriptors, and
`bufferCall_sound_iff` says which calls are.
-/

set_option autoImplicit false

namespace Chisaka.Slab.V2

open Bytes ListDescriptor

/-- What happens to a buffer. -/
inductive BufferCall
  | addList (list : ℕ)
  | allocate
  | deallocate (obj : ℕ)
  | empty
  | full
  | ownsObject (pobj : ℕ)

/-- What a call answers. -/
inductive Answer
  | done
  | address (p : ℕ)
  | truth (b : Bool)
  deriving DecidableEq, Repr

/-- A buffer, and what has happened to it. -/
structure BufferRun where
  /-- The buffer. -/
  buffer : Buffer
  /-- Memory and descriptors. -/
  heap : Heap
  /-- The descriptors that were added, in order. -/
  added : List ℕ
  /-- The addresses that were handed out and not returned. -/
  live : List ℕ

namespace BufferRun

/-- A call, its answer, and the state it leaves. -/
def step (u : NullReference) (s : BufferRun) : BufferCall → Exec (Answer × BufferRun)
  | .addList list => do
    let (buffer, heap) ← s.buffer.addList s.heap list
    return (.done, ⟨buffer, heap, s.added ++ [list], s.live⟩)
  | .allocate => do
    let (p, buffer, heap) ← s.buffer.allocate u s.heap
    return (.address p, ⟨buffer, heap, s.added, if p = 0 then s.live else p :: s.live⟩)
  | .deallocate obj => do
    let (buffer, heap) ← s.buffer.deallocate u s.heap obj
    return (.done, ⟨buffer, heap, s.added, s.live.erase obj⟩)
  | .empty => do
    let b ← s.buffer.empty u s.heap
    return (.truth b, s)
  | .full => do
    let b ← s.buffer.full u s.heap
    return (.truth b, s)
  | .ownsObject pobj => do
    let b ← s.buffer.ownsObject u s.heap pobj
    return (.truth b, s)

/-- The descriptor at `d` owns `a`. -/
def Owns (s : BufferRun) (d a : ℕ) : Prop := ∃ ld, s.heap.descs d = some ld ∧ ld.ownsObject a

/-- A set-up descriptor of the buffer's size that was not added, of a page apart from those of the
added ones. -/
structure Fresh (s : BufferRun) (d : ℕ) : Prop where
  /-- It is an object. -/
  ne : d ≠ 0
  /-- It was not added. -/
  not_added : d ∉ s.added
  /-- It was constructed and linked, nothing has touched its page since, and the pages of the added
  descriptors are elsewhere. -/
  linked : ∃ base size mem mem' ld, size.toNat = s.buffer.bufferSize ∧
    linkedDescriptor mem d base size = .ok (mem', ld) ∧ s.heap.descs d = some ld ∧
    (∀ x, base ≤ x → x < base + pageSize → s.heap.mem x = mem' x) ∧
    ∀ e ∈ s.added, ∀ le, s.heap.descs e = some le →
      base + pageSize ≤ le.baseAddress ∨ le.baseAddress + pageSize ≤ base

/-- The contract of the callers: descriptors are added once, and an address that is returned is
live, or owned by no descriptor. -/
def Enabled (s : BufferRun) : BufferCall → Prop
  | .addList list => s.Fresh list
  | .deallocate obj => obj ∈ s.live ∨ ∀ d ∈ s.added, ¬s.Owns d obj
  | _ => True

/-- The first added descriptor that has space. -/
def firstWithSpace (s : BufferRun) : Option ℕ :=
  s.added.find? fun d ↦ (s.heap.descs d).any (·.hasSpace)

/-- All added descriptors satisfy `test`. -/
def All (s : BufferRun) (test : ListDescriptor → Bool) : Prop :=
  ∀ d ∈ s.added, ∃ ld, s.heap.descs d = some ld ∧ test ld

/-- **What a call should do.** -/
def CallSound (u : NullReference) (s : BufferRun) : BufferCall → Prop
  -- the buffer owns the descriptor afterwards
  | .addList list => ∃ s' b, s.step u (.addList list) = .ok (.done, s') ∧
      s'.buffer.ownsList u s'.heap list = .ok (true, b)
  -- one slot of the first descriptor that has space is taken, and nothing else is touched
  | .allocate => ∃ p s', s.step u .allocate = .ok (.address p, s') ∧
      match s.firstWithSpace with
      | some d => p ≠ 0 ∧ s.heap.allocate d = .ok (p, s'.heap)
      | none => p = 0 ∧ s'.heap = s.heap
  -- the owner takes the object back, and where there is none nothing is touched
  | .deallocate obj => ∃ s', s.step u (.deallocate obj) = .ok (.done, s') ∧
      (∀ d ∈ s.added, s.Owns d obj → s.heap.deallocate d obj = .ok s'.heap) ∧
      ((∀ d ∈ s.added, ¬s.Owns d obj) → s'.heap = s.heap)
  | .empty => ∃ b, s.step u .empty = .ok (.truth b, s) ∧ (b = true ↔ s.All (·.empty))
  | .full => ∃ b, s.step u .full = .ok (.truth b, s) ∧ (b = true ↔ s.All (·.full))
  | .ownsObject pobj => ∃ b, s.step u (.ownsObject pobj) = .ok (.truth b, s) ∧
      (b = true ↔ ∃ d ∈ s.added, s.Owns d pobj)

/-- No descriptor has been added, and the head is null. -/
def Unstarted (s : BufferRun) : Prop := s.buffer.lists = 0 ∧ s.added = []

end BufferRun

/-- `Buffer{size}`, and what may happen to it. -/
def bufferMachine (u : NullReference) (size : UInt16) : Machine BufferRun BufferCall Answer where
  init s := s.buffer = Buffer.new size ∧ s.added = [] ∧ s.live = []
  enabled := BufferRun.Enabled
  step := BufferRun.step u

/-- The calls that do what they should: `Allocate`, and where a reference to the target of a null
pointer can be bound, everything but `AddList`. -/
def Harmless (u : NullReference) : BufferCall → Prop
  | .addList _ => False
  | .allocate => True
  | _ => u = .binds

namespace BufferRun

variable {u : NullReference} {s s' : BufferRun} {k : BufferCall} {r : Answer}

/-- A call that is not harmless stops the program. -/
theorem Unstarted.step_fault (h : s.Unstarted) (hk : ¬Harmless u k) :
    ∃ e, s.step u k = .error e := by
  have hb := h.1
  cases k with
  | addList list =>
    obtain ⟨e, he⟩ := Buffer.addList_null hb s.heap list
    exact ⟨e, by simp [step, he]⟩
  | allocate => exact absurd trivial hk
  | deallocate obj =>
    cases u with
    | stops => exact ⟨.nullDeref, by simp [step, Buffer.deallocate_stops hb]⟩
    | binds => exact absurd rfl hk
  | empty =>
    cases u with
    | stops => exact ⟨.nullDeref, by simp [step, Buffer.empty, Buffer.query_stops hb]⟩
    | binds => exact absurd rfl hk
  | full =>
    cases u with
    | stops => exact ⟨.nullDeref, by simp [step, Buffer.full, Buffer.query_stops hb]⟩
    | binds => exact absurd rfl hk
  | ownsObject pobj =>
    cases u with
    | stops => exact ⟨.nullDeref, by simp [step, Buffer.ownsObject, Buffer.query_stops hb]⟩
    | binds => exact absurd rfl hk

/-- A harmless call does what it should. -/
theorem Unstarted.callSound (h : s.Unstarted) (hk : Harmless u k) : s.CallSound u k := by
  obtain ⟨hb, hadded⟩ := h
  have hbinds : ¬(s.buffer.lists = 0 ∧ NullReference.binds = .stops) := by simp
  cases k with
  | addList list => exact hk.elim
  | allocate =>
    have hnone : s.firstWithSpace = none := by simp [firstWithSpace, hadded]
    refine ⟨0, s, by simp [step, Buffer.allocate_null hb], ?_⟩
    rw [hnone]
    exact ⟨rfl, rfl⟩
  | deallocate obj =>
    obtain rfl : u = .binds := hk
    refine ⟨⟨s.buffer.countOp, s.heap, s.added, s.live.erase obj⟩,
      by rw [step, Buffer.deallocate_eq hbinds]; rfl, ?_, fun _ ↦ rfl⟩
    simp [hadded]
  | empty =>
    obtain rfl : u = .binds := hk
    refine ⟨true, by rw [step, Buffer.empty, Buffer.query_eq hbinds]; rfl, ?_⟩
    simp [All, hadded]
  | full =>
    obtain rfl : u = .binds := hk
    refine ⟨true, by rw [step, Buffer.full, Buffer.query_eq hbinds]; rfl, ?_⟩
    simp [All, hadded]
  | ownsObject pobj =>
    obtain rfl : u = .binds := hk
    refine ⟨false, by rw [step, Buffer.ownsObject, Buffer.query_eq hbinds]; rfl, ?_⟩
    simp [hadded]

/-- A call that does what it should returns. -/
theorem CallSound.returns (h : s.CallSound u k) : ∃ r s', s.step u k = .ok (r, s') := by
  cases k with
  | addList list =>
    obtain ⟨s', -, hs, -⟩ := h
    exact ⟨_, s', hs⟩
  | allocate =>
    obtain ⟨p, s', hs, -⟩ := h
    exact ⟨_, s', hs⟩
  | deallocate obj =>
    obtain ⟨s', hs, -⟩ := h
    exact ⟨_, s', hs⟩
  | empty =>
    obtain ⟨b, hs, -⟩ := h
    exact ⟨_, s, hs⟩
  | full =>
    obtain ⟨b, hs, -⟩ := h
    exact ⟨_, s, hs⟩
  | ownsObject pobj =>
    obtain ⟨b, hs, -⟩ := h
    exact ⟨_, s, hs⟩

/-- The step lemma: a call that returns adds no descriptor. -/
theorem Unstarted.step (h : s.Unstarted) (hs : s.step u k = .ok (r, s')) : s'.Unstarted := by
  by_cases hk : Harmless u k
  · obtain ⟨hb, hadded⟩ := h
    have hbinds : u = .binds → ¬(s.buffer.lists = 0 ∧ u = .stops) := by
      rintro rfl
      simp
    cases k with
    | addList list => exact hk.elim
    | allocate =>
      rw [BufferRun.step, Buffer.allocate_null hb] at hs
      cases hs
      exact ⟨hb, hadded⟩
    | deallocate obj =>
      rw [BufferRun.step, Buffer.deallocate_eq (hbinds hk)] at hs
      cases hs
      exact ⟨hb, hadded⟩
    | empty =>
      rw [BufferRun.step, Buffer.empty, Buffer.query_eq (hbinds hk)] at hs
      cases hs
      exact ⟨hb, hadded⟩
    | full =>
      rw [BufferRun.step, Buffer.full, Buffer.query_eq (hbinds hk)] at hs
      cases hs
      exact ⟨hb, hadded⟩
    | ownsObject pobj =>
      rw [BufferRun.step, Buffer.ownsObject, Buffer.query_eq (hbinds hk)] at hs
      cases hs
      exact ⟨hb, hadded⟩
  · obtain ⟨e, he⟩ := h.step_fault hk
    rw [he] at hs
    cases hs

/-- **No run adds a descriptor.** -/
theorem unstarted_of_reach {size : UInt16} (hs : (bufferMachine u size).Reach s) :
    s.Unstarted := by
  refine Machine.Reach.induct (fun s h ↦ ?_) (fun s k r s' h _ hstep ↦ h.step hstep) hs
  obtain ⟨hb, hadded, -⟩ := h
  exact ⟨by rw [hb]; rfl, hadded⟩

end BufferRun

open BufferRun

/-- **Exactly the harmless calls do what they should.** -/
theorem bufferCall_sound_iff (u : NullReference) (size : UInt16) (s : BufferRun) (k : BufferCall)
    (hs : (bufferMachine u size).Reach s) (_ : s.Enabled k) : s.CallSound u k ↔ Harmless u k := by
  refine ⟨fun h ↦ ?_, (unstarted_of_reach hs).callSound⟩
  by_contra hk
  obtain ⟨e, he⟩ := (unstarted_of_reach hs).step_fault hk
  obtain ⟨r, s', hstep⟩ := h.returns
  rw [he] at hstep
  cases hstep

/-- A buffer of size 64 at the start. -/
def newRun (heap : Heap) : BufferRun := ⟨Buffer.new 64, heap, [], []⟩

theorem bufferCall_sound_new : (newRun ⟨fun _ ↦ 0, fun _ ↦ none⟩).CallSound .binds .full ↔
    Harmless .binds .full :=
  bufferCall_sound_iff .binds 64 _ .full (.init ⟨rfl, rfl, rfl⟩) trivial

/-- A buffer of size 64 and a linked descriptor at `0x2000` of the page at `0x1000`: adding the
descriptor follows the null head. -/
theorem addList_not_sound :
    (¬∀ (u : NullReference) (size : UInt16) (s : BufferRun) (k : BufferCall),
      (bufferMachine u size).Reach s → s.Enabled k → s.CallSound u k) ∧
    ∃ heap, (newRun heap).Enabled (.addList 0x2000) ∧ ∀ u,
      (bufferMachine u 64).Reach (newRun heap) ∧
      (newRun heap).step u (.addList 0x2000) = .error .nullDeref := by
  have hn : 64 * (64 : UInt16).toNat = pageSize := rfl
  obtain ⟨mem', hlinked, -⟩ := linkedDescriptor_spec (show 0x1000 ≠ 0 by decide) (by decide)
    (by decide) (by decide) hn (fun _ ↦ 0) 0x2000
  have hnew : ∀ heap u, (bufferMachine u 64).Reach (newRun heap) := fun heap u ↦
    .init ⟨rfl, rfl, rfl⟩
  let ld := afterAllocations 0x2000 0x1000 64 0
  let heap : Heap := ⟨mem', fun x ↦ if x = 0x2000 then some ld else none⟩
  have hfresh : (newRun heap).Fresh 0x2000 := by
    refine ⟨by decide, List.not_mem_nil, 0x1000, 64, _, mem', ld, rfl, hlinked, rfl,
      fun _ _ _ ↦ rfl, ?_⟩
    simp [newRun]
  have hfault : ∀ u, (newRun heap).step u (.addList 0x2000) = .error .nullDeref := fun u ↦ by
    have hderef : (newRun heap).heap.deref 0x2000 = .ok ld := rfl
    rw [step, Buffer.addList_null_of_size rfl hderef rfl]
    rfl
  refine ⟨fun h ↦ ?_, heap, hfresh, fun u ↦ ⟨hnew heap u, hfault u⟩⟩
  obtain ⟨r, s', hs⟩ := (h .binds 64 _ (.addList 0x2000) (hnew heap _) hfresh).returns
  rw [hfault] at hs
  cases hs

end Chisaka.Slab.V2
