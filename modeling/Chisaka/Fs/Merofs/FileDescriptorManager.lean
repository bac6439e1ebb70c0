import Mathlib.Logic.Function.Basic
import Chisaka.Lib.Machine
import Chisaka.Types

/-!
# File descriptors

`FileDescriptorTable` keeps file descriptors in chunks of 32 entries, linked from `m_root`.  An
entry is free if it holds the null descriptor 0.  `Allocate` looks for a chunk that is not full and
stores the index of its first free entry there, as the new descriptor.

The first entry of the first chunk has index 0, so that what is stored there is null again: the
entry stays free, every `Allocate` finds it, and no chunk ever fills up, as `used` is never counted.
`Blank.allocate` is this step, and `stepSound_iff` what it means for runs.
-/

set_option autoImplicit false

namespace Chisaka.Merofs

/-- `NULLFD`. -/
def nullFd : UInt8 := 0

/-- `FileDescriptor`. -/
structure FileDescriptor where
  /-- `m_fd`. -/
  fd : UInt8 := nullFd
  deriving DecidableEq, Repr

/-- `IsNull`. -/
def FileDescriptor.isNull (d : FileDescriptor) : Bool := d.fd = nullFd

/-! ## Chunks -/

/-- `TableChunk::entries`. -/
def entries : ℕ := 32

/-- `TableChunk`. -/
structure TableChunk where
  /-- `next`. -/
  next : ℕ := 0
  /-- `used`. -/
  used : UInt8 := 0
  /-- `table`. -/
  table : ℕ → FileDescriptor := fun _ ↦ {}

namespace TableChunk

/-- `Full`. -/
def full (c : TableChunk) : Bool := c.used.toNat = entries

/-- `NextFree`: the first free entry, or 0. -/
def nextFree (c : TableChunk) : ℕ :=
  ((List.range entries).find? fun i ↦ (c.table i).isNull).getD 0

end TableChunk

/-! ## The table -/

/-- A pointer to an entry: the chunk, and the index in it. -/
structure EntryPtr where
  /-- The address of the chunk. -/
  chunk : ℕ
  /-- The index. -/
  index : ℕ
  deriving DecidableEq, Repr

/-- `FileDescriptorTable`, with the chunks in the heap. -/
structure FileDescriptorTable where
  /-- `m_root`. -/
  root : ℕ
  /-- The chunks. -/
  chunks : ℕ → Option TableChunk

namespace FileDescriptorTable

/-- The chunk that a pointer points to. -/
def deref (t : FileDescriptorTable) (p : ℕ) : Exec TableChunk :=
  if p = 0 then .error .nullDeref else (t.chunks p).elim (.error .dangling) .ok

/-- The table after a chunk has changed. -/
def setChunk (t : FileDescriptorTable) (p : ℕ) (c : TableChunk) : FileDescriptorTable :=
  { t with chunks := Function.update t.chunks p (some c) }

/-- The table with a new chunk at `p`, where the heap has put it. -/
def newChunk (t : FileDescriptorTable) (p : ℕ) : Exec FileDescriptorTable :=
  if p = 0 then .error .nullDeref else .ok (t.setChunk p {})

/-- The constructor: the first chunk, where the heap has put it. -/
def new (p : ℕ) : Exec FileDescriptorTable := newChunk ⟨p, fun _ ↦ none⟩ p

/-- `Entry(index)` of a chunk. -/
def entry (t : FileDescriptorTable) (p index : ℕ) : Exec EntryPtr := do
  let _ ← t.deref p
  if index < entries then return ⟨p, index⟩ else throw .dangling

/-- The descriptor in an entry. -/
def read (t : FileDescriptorTable) (e : EntryPtr) : Exec FileDescriptor := do
  let c ← t.deref e.chunk
  return c.table e.index

/-- Store a descriptor in an entry. -/
def write (t : FileDescriptorTable) (e : EntryPtr) (d : FileDescriptor) :
    Exec FileDescriptorTable := do
  let c ← t.deref e.chunk
  return t.setChunk e.chunk { c with table := Function.update c.table e.index d }

/-- The entry that `Get` and `Remove` look up for `fd`. -/
def entryOf (t : FileDescriptorTable) (fd : UInt8) : Exec EntryPtr := do
  if entries < fd.toNat then
    let c ← t.deref t.root
    t.entry c.next (fd.toNat - entries)
  else t.entry t.root fd.toNat

/-- `Get(fd)`. -/
def get (t : FileDescriptorTable) (fd : UInt8) : Exec EntryPtr := t.entryOf fd

/-- `Remove(fd)`. -/
def remove (t : FileDescriptorTable) (fd : UInt8) : Exec FileDescriptorTable := do
  let e ← t.entryOf fd
  t.write e { fd := nullFd }

/-- The loop of `AllocateChunk`.  When it has linked the new chunk it does not stop: `parent` is
not null, and it goes on from there. -/
def allocateChunkBody (fresh : ℕ) :
    FileDescriptorTable × ℕ → Exec ((FileDescriptorTable × ℕ) ⊕ FileDescriptorTable)
  | (t, parent) =>
    if parent ≠ 0 then do
      let c ← t.deref parent
      if c.next ≠ 0 then return .inl (t, c.next)
      else return .inl (t.setChunk parent { c with next := fresh }, parent)
    else return .inr t

/-- `AllocateChunk`, when the heap puts the chunk at `fresh`. -/
def allocateChunk (t : FileDescriptorTable) (fresh : ℕ) : Exec FileDescriptorTable := do
  let t ← t.newChunk fresh
  Loop.exec (allocateChunkBody fresh) (t, t.root)

/-- Store the index of the first free entry of a chunk in that entry. -/
def take (t : FileDescriptorTable) (p : ℕ) : Exec (EntryPtr × FileDescriptorTable) := do
  let c ← t.deref p
  let freeindex := c.nextFree
  let e ← t.entry p freeindex
  let t ← t.write e ⟨UInt8.ofNat freeindex⟩
  return (e, t)

/-- The loop of `Allocate` over the chunks.  It ends with the chunk that is not full, or null. -/
def findChunkBody (t : FileDescriptorTable) (tableIndexer : ℕ) : Exec (ℕ ⊕ ℕ) :=
  if tableIndexer ≠ 0 then do
    let c ← t.deref tableIndexer
    if c.full then return .inl c.next else return .inr tableIndexer
  else return .inr 0

/-- `Allocate`.  If there has to be a new chunk, the heap puts it at `fresh`. -/
def allocate (t : FileDescriptorTable) (fresh : ℕ) : Exec (EntryPtr × FileDescriptorTable) := do
  let p ← Loop.exec t.findChunkBody t.root
  if p ≠ 0 then t.take p
  else
    let t ← t.allocateChunk fresh
    t.take fresh

end FileDescriptorTable

/-! ## Runs -/

/-- A descriptor that was handed out: where it is, and the value it had then. -/
structure Opened where
  /-- The entry that `Allocate` returned. -/
  entry : EntryPtr
  /-- Its `Get()`. -/
  fd : UInt8
  deriving DecidableEq, Repr

/-- The calls of the clients. -/
inductive FdCall
  | allocate (fresh : ℕ)
  | remove (fd : UInt8)

/-- The table, and the descriptors that are open. -/
structure FdRun where
  /-- The table. -/
  table : FileDescriptorTable
  /-- What was allocated and not removed. -/
  opened : List Opened

/-- A call, and what it does to the open descriptors. -/
def FdRun.step (s : FdRun) : FdCall → Exec (Option Opened × FdRun)
  | .allocate fresh => do
    let (e, t) ← s.table.allocate fresh
    let d ← t.read e
    return (some ⟨e, d.fd⟩, ⟨t, ⟨e, d.fd⟩ :: s.opened⟩)
  | .remove fd => do
    let t ← s.table.remove fd
    return (none, ⟨t, s.opened.eraseP fun d ↦ d.fd = fd⟩)

/-- Clients remove only what is open. -/
def FdRun.Enabled (s : FdRun) : FdCall → Prop
  | .allocate _ => True
  | .remove fd => ∃ d ∈ s.opened, d.fd = fd

/-- The table and its clients. -/
def fdMachine : Machine FdRun FdCall (Option Opened) where
  init s := s.opened = [] ∧ ∃ p, FileDescriptorTable.new p = .ok s.table
  enabled := FdRun.Enabled
  step := FdRun.step

/-! ## What the table is for -/

/-- The open descriptors are where they were, with the values they had; they are found by their
values; and a chunk is full exactly when all its entries are open. -/
structure OpenSound (s : FdRun) : Prop where
  /-- Open descriptors keep their values. -/
  value : ∀ d ∈ s.opened, s.table.read d.entry = .ok ⟨d.fd⟩
  /-- `Get(fd)` finds them. -/
  get : ∀ d ∈ s.opened, s.table.get d.fd = .ok d.entry
  /-- `Full()` counts them. -/
  full : ∀ p c, s.table.chunks p = some c →
    (c.full = true ↔ ∀ i < entries, ∃ d ∈ s.opened, d.entry = ⟨p, i⟩)

/-- A call leaves the open descriptors alone, and a descriptor that it allocates is not null and
not one that is open. -/
def StepSound (s : FdRun) (r : Option Opened) (s' : FdRun) : Prop :=
  OpenSound s' ∧ ∀ d, r = some d → d.fd ≠ nullFd ∧ ∀ d' ∈ s.opened, d'.fd ≠ d.fd

/-! ## What it does -/

/-- The first chunk is as new, and whatever is open is the null descriptor in its first entry. -/
structure Blank (s : FdRun) : Prop where
  /-- There is a first chunk. -/
  root : s.table.root ≠ 0
  /-- It is the only one, and all its entries are null. -/
  chunks : s.table.chunks = Function.update (fun _ ↦ none) s.table.root (some {})
  /-- What is open. -/
  opened : ∀ d ∈ s.opened, d = ⟨⟨s.table.root, 0⟩, nullFd⟩

namespace Blank

variable {s : FdRun}

theorem deref (h : Blank s) : s.table.deref s.table.root = .ok {} := by
  rw [FileDescriptorTable.deref, if_neg h.root, h.chunks, Function.update_self]
  rfl

theorem entry (h : Blank s) : s.table.entry s.table.root 0 = .ok ⟨s.table.root, 0⟩ := by
  rw [FileDescriptorTable.entry, h.deref]
  rfl

/-- The null descriptor is looked up in the first entry. -/
theorem entryOf_null (h : Blank s) : s.table.entryOf nullFd = .ok ⟨s.table.root, 0⟩ := by
  rw [FileDescriptorTable.entryOf, if_neg (by decide)]
  exact h.entry

/-- Storing null in the first entry changes nothing. -/
theorem write (h : Blank s) : s.table.write ⟨s.table.root, 0⟩ ⟨nullFd⟩ = .ok s.table := by
  have hset : s.table.setChunk s.table.root { table := Function.update (fun _ ↦ {}) 0 ⟨nullFd⟩ }
      = s.table := by
    rw [FileDescriptorTable.setChunk, Function.update_eq_self_iff.mpr rfl]
    exact congrArg _ (Function.update_eq_self_iff.mpr (by rw [h.chunks, Function.update_self]))
  rw [FileDescriptorTable.write, h.deref]
  exact congrArg _ hset

theorem read (h : Blank s) : s.table.read ⟨s.table.root, 0⟩ = .ok ⟨nullFd⟩ := by
  rw [FileDescriptorTable.read, h.deref]
  rfl

/-- **`Allocate` hands out the null descriptor in the first entry, and leaves the table as it
was.** -/
theorem allocate (h : Blank s) (fresh : ℕ) :
    s.table.allocate fresh = .ok (⟨s.table.root, 0⟩, s.table) := by
  have hfind : Loop.exec s.table.findChunkBody s.table.root = .ok s.table.root := by
    refine Loop.exec_inr ?_
    rw [FileDescriptorTable.findChunkBody, if_pos h.root, h.deref]
    rfl
  have hfree : TableChunk.nextFree {} = 0 := by decide
  have htake : s.table.take s.table.root = .ok (⟨s.table.root, 0⟩, s.table) := by
    have hw : s.table.write ⟨s.table.root, 0⟩ ⟨UInt8.ofNat 0⟩ = .ok s.table := h.write
    rw [FileDescriptorTable.take, h.deref]
    simp only [Exec.ok_bind, hfree, h.entry, hw, Exec.pure_eq]
  rw [FileDescriptorTable.allocate, hfind]
  simp only [Exec.ok_bind, if_pos h.root, htake]

theorem step_allocate (h : Blank s) (fresh : ℕ) : s.step (.allocate fresh)
    = .ok (some ⟨⟨s.table.root, 0⟩, nullFd⟩,
      ⟨s.table, ⟨⟨s.table.root, 0⟩, nullFd⟩ :: s.opened⟩) := by
  simp only [FdRun.step, h.allocate fresh, Exec.ok_bind, h.read, Exec.pure_eq]

/-- Removing an open descriptor leaves the table as it was. -/
theorem step_remove (h : Blank s) {fd : UInt8} (hk : s.Enabled (.remove fd)) :
    s.step (.remove fd) = .ok (none, ⟨s.table, s.opened.eraseP fun d ↦ d.fd = fd⟩) := by
  obtain ⟨d, hd, rfl⟩ := hk
  have hfd : d.fd = nullFd := by rw [h.opened d hd]
  simp only [FdRun.step, FileDescriptorTable.remove, hfd, h.entryOf_null, Exec.ok_bind, h.write,
    Exec.pure_eq]

/-- As far as the open descriptors go, all is well: the null descriptor is where it is looked up,
and the chunk is neither full nor are all its entries open. -/
theorem openSound (h : Blank s) : OpenSound s where
  value d hd := by
    rw [h.opened d hd]
    exact h.read
  get d hd := by
    rw [h.opened d hd]
    exact h.entryOf_null
  full p c hc := by
    rw [h.chunks] at hc
    by_cases hp : p = s.table.root
    · rw [hp, Function.update_self] at hc
      cases hc
      refine iff_of_false (by decide) fun hall ↦ ?_
      obtain ⟨d, hd, he⟩ := hall 1 (by decide)
      rw [h.opened d hd] at he
      cases he
    · rw [Function.update_of_ne hp] at hc
      cases hc

end Blank

theorem blank_of_init {s : FdRun} (h : fdMachine.init s) : Blank s := by
  obtain ⟨hopen, p, hp⟩ := h
  rw [FileDescriptorTable.new, FileDescriptorTable.newChunk] at hp
  split at hp
  · cases hp
  · rename_i hp0
    have ht := (Except.ok.inj hp).symm
    refine ⟨?_, ?_, fun d hd ↦ ?_⟩
    · rw [ht]
      exact hp0
    · rw [ht]
      rfl
    · rw [hopen] at hd
      exact absurd hd List.not_mem_nil

/-- **The table never leaves its first state.** -/
theorem keeps_blank : fdMachine.Keeps Blank where
  init _ := blank_of_init
  step s k h hk := by
    cases k with
    | allocate fresh =>
      refine ⟨_, _, h.step_allocate fresh, h.root, h.chunks, fun d hd ↦ ?_⟩
      rcases List.mem_cons.mp hd with rfl | hd
      · rfl
      · exact h.opened d hd
    | remove fd =>
      exact ⟨_, _, h.step_remove hk, h.root, h.chunks,
        fun d hd ↦ h.opened d (List.mem_of_mem_eraseP hd)⟩

/-- **Every call of every run returns, and what it does is sound exactly when it is no
`Allocate`.** -/
theorem stepSound_iff (s : FdRun) (hs : fdMachine.Reach s) (k : FdCall) (hk : s.Enabled k) :
    ∃ r s', s.step k = .ok (r, s') ∧ (StepSound s r s' ↔ ∀ fresh, k ≠ .allocate fresh) := by
  have h := keeps_blank.reach hs
  cases k with
  | allocate fresh =>
    refine ⟨_, _, h.step_allocate fresh, iff_of_false (fun hsound ↦ ?_) fun hne ↦ hne fresh rfl⟩
    exact (hsound.2 _ rfl).1 rfl
  | remove fd =>
    have hblank : Blank ⟨s.table, s.opened.eraseP fun d ↦ d.fd = fd⟩ :=
      ⟨h.root, h.chunks, fun d hd ↦ h.opened d (List.mem_of_mem_eraseP hd)⟩
    exact ⟨_, _, h.step_remove hk, iff_of_true ⟨hblank.openSound, fun d hd ↦ by cases hd⟩
      fun fresh he ↦ by cases he⟩

/-- A table whose first chunk lies at 0x1000. -/
def newTable : FdRun := ⟨⟨0x1000, Function.update (fun _ ↦ none) 0x1000 (some {})⟩, []⟩

theorem reach_newTable : fdMachine.Reach newTable := .init ⟨rfl, 0x1000, rfl⟩

theorem stepSound_iff_newTable : ∃ r s', newTable.step (.allocate 0x2000) = .ok (r, s') ∧
    (StepSound newTable r s' ↔ ∀ fresh, FdCall.allocate 0x2000 ≠ .allocate fresh) :=
  stepSound_iff newTable reach_newTable (.allocate 0x2000) trivial

/-- **The first `Allocate` returns the null descriptor.** -/
theorem not_stepSound_newTable : ¬∀ s, fdMachine.Reach s → ∀ k, s.Enabled k →
    ∀ r s', s.step k = .ok (r, s') → StepSound s r s' := by
  intro h
  have hblank := keeps_blank.reach reach_newTable
  have hsound := h newTable reach_newTable (.allocate 0x2000) trivial _ _
    (hblank.step_allocate 0x2000)
  exact (hsound.2 _ rfl).1 rfl

end Chisaka.Merofs
