import Chisaka.Kheap.SlabV2.ListDescriptor

/-!
# Buffers, second version

A `Buffer` owns the slabs of one size.  Their descriptors are to be on one ring, whose head is
`m_lists`, and every method goes over that ring with `for(ListDescriptor& l: *m_lists)`.

Such a loop binds a reference to `*m_lists`, and `m_lists` may be null.  The language gives that no
meaning: a checked build stops there, and a plain one compares two null iterators and goes on.
`NullReference` says which it is, and everything about buffers is proved for both.

`begin` and `end` are both the head, so with a head in place `forLists` makes no round either
(`forLists_eq`): no descriptor is ever looked at.
-/

set_option autoImplicit false

namespace Chisaka.Slab.V2

open ListDescriptor

/-- What binding a reference to the target of a null pointer does. -/
inductive NullReference
  /-- The program stops. -/
  | stops
  /-- The program goes on, with a reference that it must not use. -/
  | binds
  deriving DecidableEq, Repr

/-- The reference that a range-based `for` over `*lists` binds. -/
def bindLists (u : NullReference) (lists : ℕ) : Exec Unit :=
  if lists = 0 ∧ u = .stops then .error .nullDeref else .ok ()

/-- One round of a range-based `for` over `*lists`, over what the loop assigns to and the iterator.
The loop ends with `.inl` at its `end()`, which is `lists`, and with `.inr` at a `return`.  The
iterator is a pointer, and its increment adds the size of a descriptor. -/
def forListsBody {σ ρ : Type} (lists : ℕ) (body : σ → ℕ → Exec (σ ⊕ ρ)) :
    σ × ℕ → Exec ((σ × ℕ) ⊕ (σ ⊕ ρ))
  | (s, it) => do
    if it = lists then
      return .inr (.inl s)
    match ← body s it with
    | .inl s => return .inl (s, it + sizeofListDescriptor)
    | .inr r => return .inr (.inr r)

/-- `for(ListDescriptor& l: *lists)`. -/
def forLists {σ ρ : Type} (u : NullReference) (lists : ℕ) (body : σ → ℕ → Exec (σ ⊕ ρ)) (s : σ) :
    Exec (σ ⊕ ρ) := do
  bindLists u lists
  Loop.exec (forListsBody lists body) (s, lists)

/-- `v2::Buffer`. -/
structure Buffer where
  /-- `m_lists`. -/
  lists : ℕ
  /-- `m_bufferSize`, 16 bits. -/
  bufferSize : ℕ
  /-- `m_options`, 8 bits. -/
  options : ℕ
  /-- `m_opCount`, 8 bits. -/
  opCount : ℕ
  deriving DecidableEq, Repr

namespace Buffer

/-- `Buffer(bufferSize)`. -/
def new (bufferSize : UInt16) : Buffer :=
  { lists := 0
    bufferSize := bufferSize.toNat
    options := 0
    opCount := 0 }

/-- `m_opCount++`. -/
def countOp (b : Buffer) : Buffer := { b with opCount := (b.opCount + 1) % 2 ^ 8 }

/-- A loop over the descriptors that returns `!answer` at the first one that fails `test`, and
`answer` at the end. -/
def query (u : NullReference) (b : Buffer) (h : Heap) (test : ListDescriptor → Bool)
    (answer : Bool) : Exec Bool := do
  let found ← forLists u b.lists (fun (_ : Unit) it ↦ do
    let l ← h.deref it
    if test l then return .inl () else return .inr ()) ()
  match found with
  | .inl _ => return answer
  | .inr _ => return !answer

/-- `Empty`. -/
def empty (u : NullReference) (b : Buffer) (h : Heap) : Exec Bool := b.query u h (·.empty) true

/-- `Full`. -/
def full (u : NullReference) (b : Buffer) (h : Heap) : Exec Bool := b.query u h (·.full) true

/-- `OwnsObject`. -/
def ownsObject (u : NullReference) (b : Buffer) (h : Heap) (pobj : ℕ) : Exec Bool :=
  b.query u h (fun l ↦ !l.ownsObject pobj) false

/-- `AddList`. -/
def addList (b : Buffer) (h : Heap) (list : ℕ) : Exec (Buffer × Heap) := do
  let l ← h.deref list
  kassert (b.bufferSize = l.bufferSize)
  let b := b.countOp
  let h ← h.addList b.lists list
  return (b, h)

/-- `OwnsList`.  A descriptor of the buffer's own size is not looked for. -/
def ownsList (u : NullReference) (b : Buffer) (h : Heap) (list : ℕ) : Exec (Bool × Buffer) := do
  let l ← h.deref list
  if b.bufferSize = l.bufferSize then
    return (false, b)
  let found ← forLists u b.lists (fun (_ : Unit) it ↦
    if it = list then return .inr () else return .inl ()) ()
  match found with
  | .inl _ => return (false, b.countOp)
  | .inr _ => return (true, b)

/-- `Allocate`.  The loop has no `break`. -/
def allocate (u : NullReference) (b : Buffer) (h : Heap) : Exec (ℕ × Buffer × Heap) := do
  if b.lists = 0 then
    return (0, b, h)
  let r ← forLists u b.lists (fun (s : ℕ × Heap) it ↦ do
    let l ← s.2.deref it
    if l.hasSpace then
      let s ← s.2.allocate it
      return .inl s
    else return .inl s : ℕ × Heap → ℕ → Exec ((ℕ × Heap) ⊕ Empty)) (0, h)
  match r with
  | .inl (alloc, h) => return (alloc, b.countOp, h)
  | .inr r => nomatch r

/-- `Deallocate`.  The loop has no `break`. -/
def deallocate (u : NullReference) (b : Buffer) (h : Heap) (obj : ℕ) : Exec (Buffer × Heap) := do
  let r ← forLists u b.lists (fun (h : Heap) it ↦ do
    let l ← h.deref it
    if l.ownsObject obj then
      let h ← h.deallocate it obj
      return .inl h
    else return .inl h : Heap → ℕ → Exec (Heap ⊕ Empty)) h
  match r with
  | .inl h => return (b.countOp, h)
  | .inr r => nomatch r

end Buffer

/-! ## What the loops do -/

section Loops

variable {u : NullReference} {lists : ℕ}

theorem bindLists_of (h : ¬(lists = 0 ∧ u = .stops)) : bindLists u lists = .ok () := if_neg h

/-- **A loop over the descriptors makes no round.** -/
theorem forLists_eq {σ ρ : Type} (h : ¬(lists = 0 ∧ u = .stops)) (body : σ → ℕ → Exec (σ ⊕ ρ))
    (s : σ) : forLists u lists body s = .ok (.inl s) := by
  rw [forLists, bindLists_of h, Exec.ok_bind]
  exact Loop.exec_inr (by simp [forListsBody])

/-- Or it does not begin. -/
theorem forLists_stops {σ ρ : Type} (body : σ → ℕ → Exec (σ ⊕ ρ)) (s : σ) :
    forLists .stops 0 body s = .error .nullDeref := rfl

end Loops

namespace Buffer

variable {u : NullReference} {b : Buffer}

/-- A query answers what it would for a buffer without descriptors. -/
theorem query_eq (hb : ¬(b.lists = 0 ∧ u = .stops)) (h : Heap) (test : ListDescriptor → Bool)
    (answer : Bool) : b.query u h test answer = .ok answer := by
  rw [query, forLists_eq hb]
  rfl

theorem query_stops (hb : b.lists = 0) (h : Heap) (test : ListDescriptor → Bool)
    (answer : Bool) : b.query .stops h test answer = .error .nullDeref := by
  rw [query, hb, forLists_stops]
  rfl

theorem allocate_null (hb : b.lists = 0) (h : Heap) : b.allocate u h = .ok (0, b, h) := by
  simp [allocate, hb]

/-- `Deallocate` counts, and nothing else. -/
theorem deallocate_eq (hb : ¬(b.lists = 0 ∧ u = .stops)) (h : Heap) (obj : ℕ) :
    b.deallocate u h obj = .ok (b.countOp, h) := by
  rw [deallocate, forLists_eq hb]
  rfl

theorem deallocate_stops (hb : b.lists = 0) (h : Heap) (obj : ℕ) :
    b.deallocate .stops h obj = .error .nullDeref := by
  rw [deallocate, hb, forLists_stops]
  rfl

theorem addList_null_of_size (hb : b.lists = 0) {h : Heap} {list : ℕ} {l : ListDescriptor}
    (hl : h.deref list = .ok l) (hsize : b.bufferSize = l.bufferSize) :
    b.addList h list = .error .nullDeref := by
  have hnull : h.addList 0 list = .error .nullDeref := by simp [Heap.addList, hl]
  simp [addList, hl, kassert, hsize, countOp, hb, hnull]

/-- **The first descriptor cannot be added**: `AddList` is called on the null head. -/
theorem addList_null (hb : b.lists = 0) (h : Heap) (list : ℕ) :
    ∃ e, b.addList h list = .error e := by
  cases hl : h.deref list with
  | error e => exact ⟨e, by simp [addList, hl]⟩
  | ok l =>
    by_cases hsize : b.bufferSize = l.bufferSize
    · exact ⟨.nullDeref, addList_null_of_size hb hl hsize⟩
    · exact ⟨.assertFailed, by simp [addList, hl, kassert, hsize]⟩

end Buffer

end Chisaka.Slab.V2
