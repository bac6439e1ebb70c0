import Mathlib.Logic.Function.Basic
import Chisaka.Lib.Machine

/-!
# The fixed-size process table

`PTable` keeps up to 20 processes in an array, and the id of a process is its index.  An id has 8
bits and nothing checks it: an access is `m_procs[id]`, whatever `id` is.  `Aii::Array` is not part
of the kernel, so what an access outside the array does is not known; here it is
`Fault.dangling`, and to say that a call returns is to say that all its accesses are inside.

There are two such accesses.  `NextFreeId` answers 255 if no entry is free, and `AllocateProcess`
goes on to write entry 255.  `DeallocateProcess` turns away the ids *greater* than 20, so that it
writes entry 20.  `InBounds` excludes the two calls; `processTable_sound_iff` says that it excludes
nothing else, and that a run of the other calls is a run of `familySpec`, the map from the ids
that are taken to the parents.
-/

set_option autoImplicit false

namespace Chisaka.PTbl

/-- `PTable::ENTRIES`. -/
def entries : ℕ := 20

/-- `PTable::ProcessType`. -/
structure ProcessType where
  /-- `parent_id`. -/
  parentId : UInt8
  /-- `present`. -/
  present : Bool
  deriving DecidableEq, Repr

/-- `PTable`. -/
structure PTable where
  /-- `m_procs`. -/
  procs : Fin entries → ProcessType

/-- What `NextFreeId` answers if there is none: −1, in 8 bits. -/
def noId : UInt8 := -1

namespace PTable

/-- The index in `m_procs` of an id. -/
def index (id : UInt8) : Exec (Fin entries) :=
  if h : id.toNat < entries then .ok ⟨id.toNat, h⟩ else .error .dangling

/-- `Process(id)`. -/
def process (t : PTable) (id : UInt8) : Exec ProcessType := do
  let i ← index id
  return t.procs i

/-- The table with another entry at `i`. -/
def set (t : PTable) (i : Fin entries) (p : ProcessType) : PTable :=
  ⟨Function.update t.procs i p⟩

/-- Assign to a member of `Process(id)`. -/
def assign (t : PTable) (id : UInt8) (f : ProcessType → ProcessType) : Exec PTable := do
  let i ← index id
  return t.set i (f (t.procs i))

/-- `NextFreeId`. -/
def nextFreeId (t : PTable) : Exec UInt8 := do
  let i ← (List.range entries).findM? fun i ↦ do
    let p ← t.process (UInt8.ofNat i)
    return !p.present
  return i.elim noId UInt8.ofNat

/-- `AllocateProcess`. -/
def allocateProcess (t : PTable) (parent : UInt8) : Exec (UInt8 × PTable) := do
  let freeid ← t.nextFreeId
  let t ← t.assign freeid fun p ↦ { p with present := true }
  let t ← t.assign freeid fun p ↦ { p with parentId := parent }
  return (freeid, t)

/-- `DeallocateProcess`. -/
def deallocateProcess (t : PTable) (id : UInt8) : Exec PTable :=
  if entries < id.toNat then .ok t else t.assign id fun p ↦ { p with present := false }

/-! ## What the two calls do -/

section Calls

variable {t : PTable}

/-- The entries are all in use. -/
def Full (t : PTable) : Prop := ∀ i, (t.procs i).present = true

instance (t : PTable) : Decidable t.Full := inferInstanceAs (Decidable (∀ _, _))

/-- An index is not changed by its conversion to an id. -/
@[simp] theorem toNat_ofNat (i : Fin entries) : (UInt8.ofNat i).toNat = i.val := by
  have hi : i.val < 20 := i.isLt
  rw [UInt8.toNat_ofNat']
  exact Nat.mod_eq_of_lt (by omega)

theorem index_ofNat (i : Fin entries) : index (UInt8.ofNat i) = .ok i := by
  rw [index, dif_pos (by rw [toNat_ofNat]; exact i.isLt)]
  exact congrArg Except.ok (Fin.ext (toNat_ofNat i))

theorem index_of_le {id : UInt8} (h : entries ≤ id.toNat) : index id = .error .dangling :=
  dif_neg (by omega)

@[simp] theorem set_procs_self (i : Fin entries) (p : ProcessType) : (t.set i p).procs i = p :=
  Function.update_self ..

theorem set_procs_of_ne {i j : Fin entries} (p : ProcessType) (h : j ≠ i) :
    (t.set i p).procs j = t.procs j := Function.update_of_ne h ..

@[simp] theorem set_set (i : Fin entries) (p q : ProcessType) :
    (t.set i p).set i q = t.set i q := congrArg mk (Function.update_idem ..)

theorem assign_ofNat (i : Fin entries) (f : ProcessType → ProcessType) :
    t.assign (UInt8.ofNat i) f = .ok (t.set i (f (t.procs i))) := by
  rw [assign, index_ofNat]
  rfl

theorem assign_of_le {id : UInt8} (h : entries ≤ id.toNat) (f : ProcessType → ProcessType) :
    t.assign id f = .error .dangling := by
  rw [assign, index_of_le h]
  rfl

/-- The entry with this index is free. -/
def free (t : PTable) (i : ℕ) : Bool :=
  if h : i < entries then !(t.procs ⟨i, h⟩).present else false

@[simp] theorem free_val (i : Fin entries) : t.free i.val = !(t.procs i).present := dif_pos i.isLt

/-- The search reads the entries in order, and only those of the table. -/
theorem nextFreeId_eq (t : PTable) :
    t.nextFreeId = .ok (((List.range entries).find? t.free).elim noId UInt8.ofNat) := by
  have hread : ∀ i ∈ List.range entries, (do
      let p ← t.process (UInt8.ofNat i)
      return !p.present : Exec Bool) = .ok (t.free i) := by
    intro i hi
    have hlt : i < entries := List.mem_range.mp hi
    have hidx : index (UInt8.ofNat i) = .ok ⟨i, hlt⟩ := index_ofNat ⟨i, hlt⟩
    rw [process, hidx, free, dif_pos hlt]
    rfl
  rw [nextFreeId, Exec.findM?_eq hread]
  rfl

theorem nextFreeId_of_full (h : t.Full) : t.nextFreeId = .ok noId := by
  have hnone : (List.range entries).find? t.free = none := by
    refine List.find?_eq_none.mpr fun i hi ↦ ?_
    rw [free, dif_pos (List.mem_range.mp hi), h]
    exact Bool.false_ne_true
  rw [nextFreeId_eq, hnone]
  rfl

/-- The first free entry is found. -/
theorem nextFreeId_of_not_full (h : ¬t.Full) : ∃ i : Fin entries,
    t.nextFreeId = .ok (UInt8.ofNat i) ∧ (t.procs i).present = false ∧
      ∀ j < i, (t.procs j).present = true := by
  obtain ⟨j, hj⟩ : ∃ j, (t.procs j).present = false := by
    simpa [Full] using h
  have hsome : ((List.range entries).find? t.free).isSome :=
    List.find?_isSome.mpr ⟨j.val, List.mem_range.mpr j.isLt, by rw [free_val, hj]; rfl⟩
  obtain ⟨i, hi⟩ := Option.isSome_iff_exists.mp hsome
  obtain ⟨hfree, hlt, hbefore⟩ := List.find?_range_eq_some.mp hi
  obtain ⟨i, rfl⟩ : ∃ i' : Fin entries, i'.val = i := ⟨⟨i, List.mem_range.mp hlt⟩, rfl⟩
  refine ⟨i, by rw [nextFreeId_eq, hi]; rfl, by simpa using hfree, fun k hk ↦ ?_⟩
  simpa using hbefore k hk

/-- With no entry free, entry 255 is written. -/
theorem allocateProcess_of_full (h : t.Full) (parent : UInt8) :
    t.allocateProcess parent = .error .dangling := by
  rw [allocateProcess, nextFreeId_of_full h, Exec.ok_bind, assign_of_le (by decide)]
  rfl

theorem allocateProcess_of_not_full (h : ¬t.Full) (parent : UInt8) : ∃ i : Fin entries,
    t.allocateProcess parent = .ok (UInt8.ofNat i, t.set i ⟨parent, true⟩) ∧
      (t.procs i).present = false ∧ ∀ j < i, (t.procs j).present = true := by
  obtain ⟨i, hi, hfree⟩ := nextFreeId_of_not_full h
  refine ⟨i, ?_, hfree⟩
  rw [allocateProcess, hi, Exec.ok_bind, assign_ofNat, Exec.ok_bind, assign_ofNat, Exec.ok_bind]
  simp only [set_procs_self, set_set]
  rfl

theorem deallocateProcess_ofNat (i : Fin entries) :
    t.deallocateProcess (UInt8.ofNat i) = .ok (t.set i { t.procs i with present := false }) := by
  have hi : (UInt8.ofNat i).toNat < entries := by
    rw [toNat_ofNat]
    exact i.isLt
  rw [deallocateProcess, if_neg (by omega), assign_ofNat]

theorem deallocateProcess_of_gt {id : UInt8} (h : entries < id.toNat) :
    t.deallocateProcess id = .ok t := if_pos h

/-- The one id that is neither turned away nor an entry. -/
theorem deallocateProcess_of_eq {id : UInt8} (h : id.toNat = entries) :
    t.deallocateProcess id = .error .dangling := by
  rw [deallocateProcess, if_neg (by omega), assign_of_le (by omega)]

end Calls

end PTable

/-! ## Runs -/

/-- A call of the table. -/
inductive Call
  /-- `AllocateProcess(parent)`. -/
  | allocate (parent : UInt8)
  /-- `DeallocateProcess(id)`. -/
  | deallocate (id : UInt8)
  deriving DecidableEq, Repr

namespace PTable

/-- A call, with the id it returns. -/
def step (t : PTable) : Call → Exec (Option UInt8 × PTable)
  | .allocate parent => do
    let (id, t) ← t.allocateProcess parent
    return (some id, t)
  | .deallocate id => do
    let t ← t.deallocateProcess id
    return (none, t)

/-- No process is present. -/
def Blank (t : PTable) : Prop := ∀ i, (t.procs i).present = false

end PTable

/-- The table, called again and again with any ids. -/
def processTable : Machine PTable Call (Option UInt8) where
  init := PTable.Blank
  enabled _ _ := True
  step := PTable.step

@[simp] theorem processTable_step : processTable.step = PTable.step := rfl

namespace PTable

/-- What a call has to answer and to leave.  An allocation takes one entry that was free, or fails;
a deallocation clears the entry named, if it is one. -/
def Answer (t : PTable) : Call → Option UInt8 → PTable → Prop
  | .allocate parent, r, t' =>
    if t.Full then r = some noId ∧ t' = t
    else ∃ i, (t.procs i).present = false ∧ r = some (UInt8.ofNat i) ∧ t' = t.set i ⟨parent, true⟩
  | .deallocate id, r, t' => r = none ∧ ∀ i, t'.procs i =
    if i.val = id.toNat then { t.procs i with present := false } else t.procs i

/-- The call makes no access outside the array, and does what it has to. -/
def CallSound (t : PTable) (k : Call) : Prop := ∃ r t', t.step k = .ok (r, t') ∧ t.Answer k r t'

/-- An allocation finds an entry, and a deallocation is not of id 20. -/
def InBounds (t : PTable) : Call → Prop
  | .allocate _ => ¬t.Full
  | .deallocate id => id.toNat ≠ entries

/-- **Step lemma.** -/
theorem callSound_iff (t : PTable) (k : Call) : t.CallSound k ↔ t.InBounds k := by
  cases k with
  | allocate parent =>
    constructor
    · rintro ⟨r, t', hs, -⟩ hfull
      rw [step, allocateProcess_of_full hfull] at hs
      cases hs
    · intro hfree
      obtain ⟨i, hs, hi, -⟩ := allocateProcess_of_not_full hfree parent
      refine ⟨some (UInt8.ofNat i), t.set i ⟨parent, true⟩, by rw [step, hs]; rfl, ?_⟩
      rw [Answer, if_neg hfree]
      exact ⟨i, hi, rfl, rfl⟩
  | deallocate id =>
    constructor
    · rintro ⟨r, t', hs, -⟩ hid
      rw [step, deallocateProcess_of_eq hid] at hs
      cases hs
    · intro (hid : id.toNat ≠ entries)
      rcases Nat.lt_or_gt_of_ne hid with hlt | hgt
      · -- an entry
        obtain ⟨i, rfl⟩ : ∃ i : Fin entries, id = UInt8.ofNat i :=
          ⟨⟨id.toNat, hlt⟩, UInt8.ofNat_toNat.symm⟩
        refine ⟨none, _, by rw [step, deallocateProcess_ofNat]; rfl, rfl, fun j ↦ ?_⟩
        by_cases hj : j = i
        · subst hj
          rw [set_procs_self, if_pos (toNat_ofNat j).symm]
        · rw [set_procs_of_ne _ hj, if_neg fun h ↦ hj (Fin.ext (h.trans (toNat_ofNat i)))]
      · refine ⟨none, t, by rw [step, deallocateProcess_of_gt hgt]; rfl, rfl, fun j ↦ ?_⟩
        rw [if_neg fun h ↦ ?_]
        have := j.isLt
        omega

/-! ### The processes that are present -/

/-- The processes that are present, with their parents. -/
def family (t : PTable) (i : Fin entries) : Option UInt8 :=
  if (t.procs i).present then some (t.procs i).parentId else none

end PTable

/-- What the table is for: a map from ids to parents, in which an allocation takes an id that is
not there and a deallocation drops one. -/
def familySpec : Spec (Fin entries → Option UInt8) Call (Option UInt8) where
  init a := ∀ i, a i = none
  step a k r a' := match k with
    | .allocate parent =>
      (∃ i, a i = none ∧ r = some (UInt8.ofNat i) ∧ a' = Function.update a i (some parent)) ∨
        (∀ i, a i ≠ none) ∧ r = some noId ∧ a' = a
    | .deallocate id => r = none ∧ ∀ i, a' i = if i.val = id.toNat then none else a i

namespace PTable

variable {t t' : PTable} {r : Option UInt8} {k : Call}

theorem family_eq_none {i : Fin entries} : t.family i = none ↔ (t.procs i).present = false := by
  rw [family]
  cases (t.procs i).present <;> simp

theorem family_set (i : Fin entries) (parent : UInt8) :
    (t.set i ⟨parent, true⟩).family = Function.update t.family i (some parent) := by
  funext j
  by_cases hj : j = i
  · subst hj
    rw [Function.update_self, family, set_procs_self]
    rfl
  · rw [Function.update_of_ne hj, family, family, set_procs_of_ne _ hj]

/-- **A sound call is a step of the map.** -/
theorem Answer.family_step (h : t.Answer k r t') : familySpec.step t.family k r t'.family := by
  cases k with
  | allocate parent =>
    rw [Answer] at h
    split at h
    next hfull =>
      obtain ⟨rfl, rfl⟩ := h
      refine .inr ⟨fun i hi ↦ ?_, rfl, rfl⟩
      rw [family_eq_none, hfull i] at hi
      cases hi
    next =>
      obtain ⟨i, hi, rfl, rfl⟩ := h
      exact .inl ⟨i, family_eq_none.mpr hi, rfl, family_set i parent⟩
  | deallocate id =>
    obtain ⟨rfl, ht'⟩ := h
    refine ⟨rfl, fun i ↦ ?_⟩
    rw [family, ht' i]
    split <;> rfl

/-- A table that starts empty simulates the map, as long as no call leaves the array. -/
theorem simulates_familySpec :
    (processTable.restrict PTable.InBounds).Simulates familySpec fun t a ↦ t.family = a where
  init t h := ⟨t.family, fun i ↦ family_eq_none.mpr (h i), rfl⟩
  step := by
    rintro t _ k rfl ⟨-, hk⟩
    obtain ⟨r, t', hs, hans⟩ := (callSound_iff t k).mpr hk
    exact ⟨r, t', t'.family, hs, hans.family_step, rfl⟩

end PTable

open PTable

/-- **A call does what it has to exactly if it stays inside the array**, and a run of such calls
is a run of the map from ids to parents. -/
theorem processTable_sound_iff {calls : List (Call × Option UInt8)} {t : PTable}
    (h : (processTable.restrict InBounds).Trace calls t) :
    familySpec.Trace calls t.family ∧ ∀ k, t.CallSound k ↔ t.InBounds k := by
  obtain ⟨a, ha, rfl⟩ := simulates_familySpec.trace h
  exact ⟨ha, callSound_iff t⟩

/-- A table whose first `n` entries are present. -/
def tableOf (n : ℕ) : PTable := ⟨fun i ↦ ⟨0, i.val < n⟩⟩

/-- Allocations fill the table from the front. -/
theorem step_tableOf {n : ℕ} (hn : n < entries) :
    (tableOf n).step (.allocate 0) = .ok (some (UInt8.ofNat n), tableOf (n + 1)) := by
  have hfree : ¬(tableOf n).Full := fun h ↦ absurd (h ⟨n, hn⟩) (by simp [tableOf])
  obtain ⟨i, hs, hi, hbefore⟩ := allocateProcess_of_not_full hfree 0
  have hle : n ≤ i.val := by simpa [tableOf] using hi
  obtain rfl : i = ⟨n, hn⟩ := by
    refine Fin.ext (Nat.le_antisymm (Nat.le_of_not_lt fun hlt ↦ ?_) hle)
    simpa [tableOf] using hbefore ⟨n, hn⟩ hlt
  have hset : (tableOf n).set ⟨n, hn⟩ ⟨0, true⟩ = tableOf (n + 1) := by
    refine congrArg PTable.mk (funext fun j ↦ ?_)
    by_cases hj : j = ⟨n, hn⟩
    · subst hj
      simp [tableOf]
    · have hne : j.val ≠ n := fun h ↦ hj (Fin.ext h)
      have hiff : j.val < n ↔ j.val < n + 1 := by omega
      simp [tableOf, Function.update_of_ne hj, hiff]
  rw [step, hs, hset]
  rfl

theorem reach_tableOf {n : ℕ} (hn : n ≤ entries) : processTable.Reach (tableOf n) := by
  induction n with
  | zero => exact .init fun i ↦ rfl
  | succ n ih =>
    exact .step (ih (Nat.le_of_succ_le hn)) trivial (processTable_step ▸ step_tableOf hn)

/-- After one allocation. -/
theorem processTable_sound_first :
    familySpec.Trace [(.allocate 0, some 0)] (tableOf 1).family ∧
      ∀ k, (tableOf 1).CallSound k ↔ (tableOf 1).InBounds k :=
  processTable_sound_iff (.step (.init fun _ ↦ rfl)
    ⟨trivial, show ¬(tableOf 0).Full by decide⟩ (step_tableOf (by decide)))

/-- The id 20 is neither an entry nor turned away, and in a full table the failure is not
noticed. -/
theorem processTable_not_sound :
    (¬∀ t, processTable.Reach t → ∀ k, t.CallSound k) ∧
    processTable.Reach (tableOf 0) ∧ (tableOf 0).step (.deallocate 20) = .error .dangling ∧
    processTable.Reach (tableOf 20) ∧ (tableOf 20).step (.allocate 0) = .error .dangling := by
  have hdealloc : (tableOf 0).step (.deallocate 20) = .error .dangling := rfl
  have hempty : processTable.Reach (tableOf 0) := reach_tableOf (Nat.zero_le entries)
  refine ⟨fun h ↦ ?_, hempty, hdealloc, reach_tableOf (n := 20) (by decide), rfl⟩
  obtain ⟨r, t', hs, -⟩ := h _ hempty (.deallocate 20)
  rw [hdealloc] at hs
  cases hs

end Chisaka.PTbl
