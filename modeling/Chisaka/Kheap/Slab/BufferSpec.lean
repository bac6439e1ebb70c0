import Mathlib.Data.List.Perm.Subperm
import Chisaka.Kheap.Slab.BufferRings

/-!
# What `Allocate` and `Deallocate` of a buffer do

`Allocate` takes from one descriptor, the head of the partial ring or else the head of the free
ring, and `Deallocate` returns to one, the first of the partial and then of the full ring that
contains the object.  Each does to that slab what the slab's own method does, and then puts the
descriptor where it belongs: `Sorted.allocate_spec` and `Sorted.deallocate_spec`.  In particular the
loop of `AddToPartial` ends in its first round, since what is on the partial ring has space.
-/

set_option autoImplicit false

namespace Chisaka.Slab

open Bytes

/-! ## What the methods of a slab leave alone -/

namespace ListDescriptor

variable {ld ld' : ListDescriptor} {mem mem' : Memory} {a : ℕ}

theorem kind_eq_fullLists : ld.kind = .fullLists ↔ ld.totalBuffers = ld.buffersUsed := by
  by_cases h₁ : ld.totalBuffers = ld.buffersUsed <;> by_cases h₂ : ld.buffersUsed = 0 <;>
    simp [kind, full, empty, h₁, h₂]

theorem kind_eq_freeLists :
    ld.kind = .freeLists ↔ ld.totalBuffers ≠ ld.buffersUsed ∧ ld.buffersUsed = 0 := by
  by_cases h₁ : ld.totalBuffers = ld.buffersUsed <;> by_cases h₂ : ld.buffersUsed = 0 <;>
    simp [kind, full, empty, h₁, h₂]

theorem kind_eq_partialLists :
    ld.kind = .partialLists ↔ ld.totalBuffers ≠ ld.buffersUsed ∧ ld.buffersUsed ≠ 0 := by
  have h₁ := @kind_eq_fullLists ld
  have h₂ := @kind_eq_freeLists ld
  cases hk : ld.kind <;> simp_all

/-- An allocation from a slab with space, whatever is in memory. -/
theorem allocate_revises (ha : ld.allocate mem = .ok (a, ld'))
    (hlt : ld.buffersUsed < ld.totalBuffers) (htotal : ld.totalBuffers < 2 ^ 16) :
    a ≠ 0 ∧ ld.Revises ld' ∧ ld'.buffersUsed = ld.buffersUsed + 1 := by
  have hmod : (ld.buffersUsed + 1) % 2 ^ 16 = ld.buffersUsed + 1 := Nat.mod_eq_of_lt (by omega)
  simp only [allocate, if_neg (Nat.ne_of_lt hlt), hmod] at ha
  obtain ⟨next, hload, heq⟩ := Exec.bind_eq_ok.mp ha
  simp only [Exec.pure_eq, Except.ok.injEq, Prod.mk.injEq] at heq
  obtain ⟨rfl, rfl⟩ := heq
  refine ⟨fun h0 ↦ ?_, ⟨rfl, hlt⟩, rfl⟩
  simp [h0, load] at hload

/-- A deallocation, whatever is in memory. -/
theorem deallocate_revises (ha : ld.deallocate mem a = .ok (mem', ld'))
    (hrange : ld.objectInRange a) (hle : ld.buffersUsed ≤ ld.totalBuffers) :
    ld.Revises ld' ∧ ld'.buffersUsed = ld.buffersUsed - 1 := by
  have hle' : ld.buffersUsed - 1 ≤ ld.totalBuffers := by omega
  simp only [deallocate, hrange, not_true_eq_false, false_or] at ha
  split at ha
  · rename_i hused
    obtain ⟨-, rfl⟩ : mem = mem' ∧ ld = ld' := by simpa using ha
    exact ⟨⟨rfl, hle⟩, by omega⟩
  · split at ha
    · obtain ⟨m, -, heq⟩ := Exec.bind_eq_ok.mp ha
      simp only [Exec.pure_eq, Except.ok.injEq, Prod.mk.injEq] at heq
      obtain ⟨-, rfl⟩ := heq
      exact ⟨⟨rfl, hle'⟩, rfl⟩
    · obtain ⟨⟨prev, current⟩, -, heq⟩ := Exec.bind_eq_ok.mp ha
      split at heq
      · obtain ⟨m, -, heq⟩ := Exec.bind_eq_ok.mp heq
        simp only [Exec.pure_eq, Except.ok.injEq, Prod.mk.injEq] at heq
        obtain ⟨-, rfl⟩ := heq
        exact ⟨⟨rfl, hle'⟩, rfl⟩
      · obtain ⟨m, -, heq⟩ := Exec.bind_eq_ok.mp heq
        obtain ⟨m', -, heq⟩ := Exec.bind_eq_ok.mp heq
        simp only [Exec.pure_eq, Except.ok.injEq, Prod.mk.injEq] at heq
        obtain ⟨-, rfl⟩ := heq
        exact ⟨⟨rfl, hle'⟩, rfl⟩

end ListDescriptor

variable {b b' : Buffer} {h h' h₁ : Heap} {a d x : ℕ} {k : ListKind} {L : ListKind → List ℕ}
  {ld ld' : ListDescriptor} {m : Memory}

/-- Counting an operation does not disturb the rings. -/
theorem Resorted.countOp (hres : Resorted b L h₁ b' h') : Resorted b L h₁ b'.countOp h' := by
  obtain ⟨L', hs, hmem⟩ := hres.sorted
  exact ⟨hres.slabs, hres.links, hres.cls.trans b'.sameClass_countOp, L',
    hs.of_heads (Buffer.head_countOp b') rfl, hmem⟩

namespace Heap

theorem allocate_eq (hd : d ≠ 0) (he : h.descs d = some ld) :
    h.allocate d = (ld.allocate h.mem >>= fun r ↦ pure (r.1, h.setSlab d h.mem r.2)) := by
  simp only [allocate, deref, if_neg hd, he, Exec.ok_bind]
  rfl

theorem deallocate_eq (hd : d ≠ 0) (he : h.descs d = some ld) :
    h.deallocate d a = (ld.deallocate h.mem a >>= fun r ↦ pure (h.setSlab d r.1 r.2)) := by
  simp only [deallocate, deref, if_neg hd, he, Exec.ok_bind]
  rfl

theorem deref_setSlab (hd : d ≠ 0) (m : Memory) (ld : ListDescriptor) :
    (h.setSlab d m ld).deref d = .ok ld :=
  deref_eq hd (descs_setSlab_self h d m ld)

end Heap

/-! ## `Allocate` -/

/-- A round of the loop of `AddToPartial` that gets a slot.  The two ways to move a descriptor that
is full now are one. -/
theorem Buffer.addToPartialBody_eq (hd : d ≠ 0) (he : h.descs d = some ld)
    (hspace : ld.hasSpace = true) (hall : ld.allocate h.mem = .ok (a, ld')) :
    b.addToPartialBody h d =
      if ld'.full then
        (moveEntry .partialLists b (h.setSlab d h.mem ld') d >>= fun r ↦ .ok (.inr (a, r)))
      else .ok (.inr (a, b, h.setSlab d h.mem ld')) := by
  have hderef : h.deref d = .ok ld := Heap.deref_eq hd he
  by_cases hfull : ld'.full = true
  · by_cases hfirst : d = b.partialLists
    · have hhead : d = b.head .partialLists := hfirst
      simp [addToPartialBody, hderef, hspace, Heap.allocate_eq hd he, hall, Heap.deref_setSlab hd,
        hfull, ← hfirst, movePartialHead, moveEntry, hd, ← hhead]
    · simp [addToPartialBody, hderef, hspace, Heap.allocate_eq hd he, hall, Heap.deref_setSlab hd,
        hfull, hfirst, movePartialEntry]
  · simp [addToPartialBody, hderef, hspace, Heap.allocate_eq hd he, hall, Heap.deref_setSlab hd,
      hfull]

/-- `Allocate` of a buffer with a partial slab that stays one. -/
theorem Buffer.allocate_of_hasSpace (hd : b.partialLists ≠ 0)
    (he : h.descs b.partialLists = some ld) (hspace : ld.hasSpace = true)
    (hall : ld.allocate h.mem = .ok (a, ld')) (hfull : ld'.full = false) (ha : a ≠ 0) :
    b.allocate h = .ok (a, b.countOp, h.setSlab b.partialLists h.mem ld') := by
  have hbody : b.addToPartialBody h b.partialLists
      = .ok (.inr (a, b, h.setSlab b.partialLists h.mem ld')) := by
    rw [addToPartialBody_eq hd he hspace hall, if_neg (Bool.eq_false_iff.mp hfull)]
  simp [allocate, addToPartial, hd, Loop.exec_inr hbody, ha]

namespace Sorted

/-- `Allocate` of a buffer all of whose slabs are full. -/
theorem allocate_full (hs : Sorted b h L) (hL : L .partialLists ++ L .freeLists = []) :
    b.allocate h = .ok (0, b, h) := by
  obtain ⟨hp, hf⟩ := List.append_eq_nil_iff.mp hL
  have hp0 : b.partialLists = 0 := by
    have hhead := hs.head .partialLists
    rwa [hp] at hhead
  have hf0 : b.freeLists = 0 := by
    have hhead := hs.head .freeLists
    rwa [hf] at hhead
  simp [Buffer.allocate, hp0, hf0]

/-- `AddToPartial` takes from the head of the ring. -/
theorem addToPartial_spec {l : List ℕ} (hs : Sorted b h L) (hL : L .partialLists = d :: l)
    (he : h.descs d = some ld) :
    (∀ e, ld.allocate h.mem = .error e → b.addToPartial h = .error e) ∧
      ∀ ld', ld.allocate h.mem = .ok (a, ld') → ∃ b' h', b.addToPartial h = .ok (a, b', h') ∧
        Resorted b L (h.setSlab d h.mem ld') b' h' := by
  have hd : d ∈ L .partialLists := hL ▸ List.mem_cons_self
  obtain ⟨hd0, -⟩ := (hs.desc _ d hd).1
  obtain ⟨ld₀, he₀, hkind, hle, htotal⟩ := hs.kind _ d hd
  obtain rfl : ld₀ = ld := Option.some.inj (he₀.symm.trans he)
  rw [ListDescriptor.kind_eq_partialLists] at hkind
  have hhead : b.partialLists = d := by
    have hhead := hs.head .partialLists
    rwa [hL] at hhead
  have hderef : h.deref d = .ok ld₀ := Heap.deref_eq hd0 he
  have hlt : ld₀.buffersUsed < ld₀.totalBuffers := by omega
  have hspace : ld₀.hasSpace := by simp [ListDescriptor.hasSpace, hlt]
  refine ⟨fun e hall ↦ ?_, fun ld' hall ↦ ?_⟩
  · have hbody : Buffer.addToPartialBody b h d = .error e := by
      simp [Buffer.addToPartialBody, hderef, hspace, Heap.allocate_eq hd0 he, hall]
    simp [Buffer.addToPartial, hhead, hd0, Loop.exec_error hbody]
  · obtain ⟨-, hrev, hused⟩ := ListDescriptor.allocate_revises hall hlt htotal
    have htot : ld'.totalBuffers = ld₀.totalBuffers := by rw [hrev.1]
    have hround := Buffer.addToPartialBody_eq (b := b) hd0 he hspace hall
    have hf : ld'.full = true ↔ ld'.kind = .fullLists := by
      rw [ListDescriptor.kind_eq_fullLists, ListDescriptor.full, decide_eq_true_iff]
    by_cases hfull : ld'.kind = .fullLists
    · -- the last buffer of the slab
      obtain ⟨b', h', hmove, hres⟩ :=
        hs.moveEntry_resorted hd he hrev h.mem (by rw [hfull]; decide)
      rw [if_pos (hf.mpr hfull), hmove, Exec.ok_bind] at hround
      exact ⟨b', h', by simp [Buffer.addToPartial, hhead, hd0, Loop.exec_inr hround], hres⟩
    · have hkind' : ld'.kind = .partialLists := by
        rw [ListDescriptor.kind_eq_fullLists] at hfull
        rw [ListDescriptor.kind_eq_partialLists]
        omega
      rw [if_neg (mt hf.mp hfull)] at hround
      exact ⟨b, _, by simp [Buffer.addToPartial, hhead, hd0, Loop.exec_inr hround],
        hs.resorted_of_kind hd he hrev h.mem hkind'⟩

/-- `AddToFree` takes from the head of the ring. -/
theorem addToFree_spec {l : List ℕ} (hs : Sorted b h L) (hL : L .freeLists = d :: l)
    (he : h.descs d = some ld) :
    (∀ e, ld.allocate h.mem = .error e → b.addToFree h = .error e) ∧
      ∀ ld', ld.allocate h.mem = .ok (a, ld') → ∃ b' h', b.addToFree h = .ok (a, b', h') ∧
        Resorted b L (h.setSlab d h.mem ld') b' h' := by
  have hd : d ∈ L .freeLists := hL ▸ List.mem_cons_self
  obtain ⟨hd0, -⟩ := (hs.desc _ d hd).1
  obtain ⟨ld₀, he₀, hkind, hle, htotal⟩ := hs.kind _ d hd
  obtain rfl : ld₀ = ld := Option.some.inj (he₀.symm.trans he)
  rw [ListDescriptor.kind_eq_freeLists] at hkind
  have hhead : b.freeLists = d := by
    have hhead := hs.head .freeLists
    rwa [hL] at hhead
  refine ⟨fun e hall ↦ ?_, fun ld' hall ↦ ?_⟩
  · simp [Buffer.addToFree, hhead, hd0, Heap.allocate_eq hd0 he, hall]
  · obtain ⟨-, hrev, hused⟩ := ListDescriptor.allocate_revises hall (by omega) htotal
    have hne : ld'.kind ≠ .freeLists := by
      rw [Ne, ListDescriptor.kind_eq_freeLists]
      omega
    obtain ⟨b', h', hmove, hres⟩ := hs.moveHead_resorted hL he hrev h.mem hne
    refine ⟨b', h', ?_, hres⟩
    simp [Buffer.addToFree, hhead, hd0, Heap.allocate_eq hd0 he, hall, Buffer.moveFreeHead, hmove]

/-- **`Allocate` of a buffer is `Allocate` of the first slab with space**, which is then put where
it belongs. -/
theorem allocate_spec {l : List ℕ} (hs : Sorted b h L)
    (hL : L .partialLists ++ L .freeLists = d :: l) :
    ∃ ld, h.descs d = some ld ∧ ld.buffersUsed < ld.totalBuffers ∧
      (∀ e, ld.allocate h.mem = .error e → b.allocate h = .error e) ∧
      ∀ a ld', ld.allocate h.mem = .ok (a, ld') → ∃ b' h', b.allocate h = .ok (a, b', h') ∧
        Resorted b L (h.setSlab d h.mem ld') b' h' := by
  cases hp : L .partialLists with
  | cons x l' =>
    obtain ⟨rfl, -⟩ : x = d ∧ _ := by simpa [hp] using hL
    have hx : x ∈ L .partialLists := hp ▸ List.mem_cons_self
    obtain ⟨ld, he, hkind, hle, htotal⟩ := hs.kind _ x hx
    rw [ListDescriptor.kind_eq_partialLists] at hkind
    have hx0 : b.partialLists ≠ 0 := (hs.head_ne_zero (k := .partialLists)).mpr (by simp [hp])
    have hlt : ld.buffersUsed < ld.totalBuffers := by omega
    refine ⟨ld, he, hlt, fun e hall ↦ ?_, fun a ld' hall ↦ ?_⟩
    · have hadd := (hs.addToPartial_spec (a := 0) hp he).1 e hall
      simp [Buffer.allocate, hx0, hadd]
    · obtain ⟨b', h', hadd, hres⟩ := (hs.addToPartial_spec hp he).2 ld' hall
      have ha := (ListDescriptor.allocate_revises hall hlt htotal).1
      exact ⟨b'.countOp, h', by simp [Buffer.allocate, hx0, hadd, ha], hres.countOp⟩
  | nil =>
    rw [hp, List.nil_append] at hL
    have hd : d ∈ L .freeLists := hL ▸ List.mem_cons_self
    obtain ⟨ld, he, hkind, hle, htotal⟩ := hs.kind _ d hd
    rw [ListDescriptor.kind_eq_freeLists] at hkind
    have hp0 : b.partialLists = 0 := by
      have hhead := hs.head .partialLists
      rwa [hp] at hhead
    have hf0 : b.freeLists ≠ 0 := (hs.head_ne_zero (k := .freeLists)).mpr (by simp [hL])
    have hlt : ld.buffersUsed < ld.totalBuffers := by omega
    refine ⟨ld, he, hlt, fun e hall ↦ ?_, fun a ld' hall ↦ ?_⟩
    · have hadd := (hs.addToFree_spec (a := 0) hL he).1 e hall
      simp [Buffer.allocate, hp0, hf0, hadd]
    · obtain ⟨b', h', hadd, hres⟩ := (hs.addToFree_spec hL he).2 ld' hall
      have ha := (ListDescriptor.allocate_revises hall hlt htotal).1
      exact ⟨b'.countOp, h', by simp [Buffer.allocate, hp0, hf0, hadd, ha], hres.countOp⟩

end Sorted

/-! ## `Deallocate` -/

/-- The slab of a descriptor contains the object. -/
def Heap.contains (h : Heap) (a d : ℕ) : Bool := (h.descs d).any fun ld ↦ ld.objectInRange a

namespace Rings

/-- A ring has no more members than there are addresses. -/
theorem length_le (hr : Rings b h L) (k : ListKind) : (L k).length ≤ Loop.rounds := by
  have hsub : L k ⊆ List.range (2 ^ 64) := fun d hd ↦ List.mem_range.mpr (hr.desc k d hd).1.2
  have hle := (List.subperm_of_subset (hr.ring k).nodup hsub).length_le
  rwa [List.length_range] at hle

/-- **The loop over a ring** finds the first descriptor that contains the object. -/
theorem deallocIn_eq (hr : Rings b h L) (leaves : ListDescriptor → Bool) (a : ℕ) :
    Buffer.deallocIn k leaves b h a =
      ((L k).find? (h.contains a)).elim (.ok (false, b, h))
        fun d ↦ Buffer.deallocFrom k leaves b h d a := by
  cases hL : L k with
  | nil =>
    have hhead : b.head k = 0 := by rw [hr.head, hL]; rfl
    simp [Buffer.deallocIn, hhead]
  | cons x S =>
    have hhead : b.head k = x := by rw [hr.head, hL, List.headD_cons]
    have hx0 : x ≠ 0 := (hr.desc k x (hL ▸ List.mem_cons_self)).1.1
    have hlen : S.length < Loop.rounds := by
      have hle := hr.length_le k
      rw [hL, List.length_cons] at hle
      omega
    have hbody : ∀ d ∈ x :: S, ∃ ld, h.descs d = some ld ∧ h.deref d = .ok ld ∧
        h.next d = ld.nextList := fun d hd ↦ by
      obtain ⟨⟨hd0, -⟩, ld, he, -⟩ := hr.desc k d (hL ▸ hd)
      exact ⟨ld, he, Heap.deref_eq hd0 he, Heap.next_eq he⟩
    have hwalk : Loop.run (Buffer.deallocBody k leaves b h a) Loop.rounds x =
        ((x :: S).find? (h.contains a)).elim (.ok (false, b, h))
          fun d ↦ Buffer.deallocFrom k leaves b h d a := by
      refine (hL ▸ hr.ring k).run_walk (fun d hd hp ↦ ?_) (fun d hd hp ↦ ?_) hlen
      · obtain ⟨ld, he, hderef, -⟩ := hbody d hd
        have hin : ld.objectInRange a = true := by simpa [Heap.contains, he] using hp
        simp [Buffer.deallocBody, hderef, hin]
      · obtain ⟨ld, he, hderef, hnext⟩ := hbody d hd
        have hin : ld.objectInRange a = false := by simpa [Heap.contains, he] using hp
        by_cases hend : ld.nextList = x <;>
          simp [Buffer.deallocBody, hderef, hin, hnext, hhead, hend]
    simpa [Buffer.deallocIn, hhead, hx0, Loop.exec] using hwalk

end Rings

namespace Sorted

/-- Returning an object to a descriptor: it stays on its ring exactly if it still belongs there. -/
theorem deallocFrom_spec (hs : Sorted b h L) (hd : d ∈ L k) (he : h.descs d = some ld)
    (hin : ld.objectInRange a) (leaves : ListDescriptor → Bool)
    (hleaves : ∀ ld', ld.Revises ld' → ld'.buffersUsed = ld.buffersUsed - 1 →
      (leaves ld' = true ↔ ld'.kind ≠ k)) :
    (∀ e, ld.deallocate h.mem a = .error e →
      Buffer.deallocFrom k leaves b h d a = .error e) ∧
      ∀ m ld', ld.deallocate h.mem a = .ok (m, ld') →
        ∃ b' h', Buffer.deallocFrom k leaves b h d a = .ok (true, b', h') ∧
          Resorted b L (h.setSlab d m ld') b' h' := by
  obtain ⟨hd0, -⟩ := (hs.desc _ d hd).1
  obtain ⟨ld₀, he₀, -, hle, -⟩ := hs.kind _ d hd
  obtain rfl : ld₀ = ld := Option.some.inj (he₀.symm.trans he)
  refine ⟨fun e hall ↦ ?_, fun m ld' hall ↦ ?_⟩
  · simp [Buffer.deallocFrom, Heap.deallocate_eq hd0 he, hall]
  · obtain ⟨hrev, hused⟩ := ListDescriptor.deallocate_revises hall hin hle
    have hl := hleaves ld' hrev hused
    by_cases hk : ld'.kind = k
    · have hstay : leaves ld' = false := by simpa [hk] using hl
      refine ⟨b, _, ?_, hs.resorted_of_kind hd he hrev m hk⟩
      simp [Buffer.deallocFrom, Heap.deallocate_eq hd0 he, hall, Heap.deref_setSlab hd0, hstay]
    · obtain ⟨b', h', hmove, hres⟩ := hs.moveEntry_resorted hd he hrev m hk
      refine ⟨b', h', ?_, hres⟩
      simp [Buffer.deallocFrom, Heap.deallocate_eq hd0 he, hall, Heap.deref_setSlab hd0,
        hl.mpr hk, hmove]

/-- `Deallocate` of an object that no slab with live buffers contains. -/
theorem deallocate_none (hs : Sorted b h L)
    (hfind : (L .partialLists ++ L .fullLists).find? (h.contains a) = none) :
    b.deallocate h a = .ok (b, h) := by
  rw [List.find?_append, Option.or_eq_none_iff] at hfind
  have hp : b.deallocPartial h a = .ok (false, b, h) := by
    rw [Buffer.deallocPartial, hs.deallocIn_eq, hfind.1, Option.elim_none]
  have hf : b.deallocFull h a = .ok (false, b, h) := by
    rw [Buffer.deallocFull, hs.deallocIn_eq, hfind.2, Option.elim_none]
  simp [Buffer.deallocate, hp, hf]

/-- **`Deallocate` of a buffer is `Deallocate` of the first slab that contains the object**, which
is then put where it belongs. -/
theorem deallocate_spec (hs : Sorted b h L)
    (hfind : (L .partialLists ++ L .fullLists).find? (h.contains a) = some d) :
    ∃ ld, h.descs d = some ld ∧ ld.objectInRange a ∧ ld.buffersUsed ≤ ld.totalBuffers ∧
      (∀ e, ld.deallocate h.mem a = .error e → b.deallocate h a = .error e) ∧
      ∀ m ld', ld.deallocate h.mem a = .ok (m, ld') → ∃ b' h', b.deallocate h a = .ok (b', h') ∧
        Resorted b L (h.setSlab d m ld') b' h' := by
  have hcontains := List.find?_some hfind
  cases hp : (L .partialLists).find? (h.contains a) with
  | some x =>
    -- on the partial ring
    obtain rfl : x = d := by simpa [List.find?_append, hp] using hfind
    have hx := List.mem_of_find?_eq_some hp
    obtain ⟨ld, he, hkind, hle, -⟩ := hs.kind _ x hx
    have hin : ld.objectInRange a := by simpa [Heap.contains, he] using hcontains
    rw [ListDescriptor.kind_eq_partialLists] at hkind
    have hfrom := hs.deallocFrom_spec hx he hin (fun l ↦ l.empty)
      fun ld' hrev hused ↦ by
        have htotal : ld'.totalBuffers = ld.totalBuffers := by rw [hrev.1]
        rw [Ne, ListDescriptor.kind_eq_partialLists, ListDescriptor.empty, decide_eq_true_iff]
        omega
    have hpart : b.deallocPartial h a =
        Buffer.deallocFrom .partialLists (fun l ↦ l.empty) b h x a := by
      rw [Buffer.deallocPartial, hs.deallocIn_eq, hp]
      rfl
    refine ⟨ld, he, hin, hle, fun e hall ↦ ?_, fun m ld' hall ↦ ?_⟩
    · simp [Buffer.deallocate, hpart, hfrom.1 e hall]
    · obtain ⟨b', h', hok, hres⟩ := hfrom.2 m ld' hall
      exact ⟨b', h', by simp [Buffer.deallocate, hpart, hok], hres⟩
  | none =>
    have hp0 : b.deallocPartial h a = .ok (false, b, h) := by
      rw [Buffer.deallocPartial, hs.deallocIn_eq, hp]
      rfl
    have hf : (L .fullLists).find? (h.contains a) = some d := by
      simpa [List.find?_append, hp] using hfind
    have hd := List.mem_of_find?_eq_some hf
    obtain ⟨ld, he, hkind, hle, -⟩ := hs.kind _ d hd
    have hin : ld.objectInRange a := by simpa [Heap.contains, he] using hcontains
    have hfrom := hs.deallocFrom_spec hd he hin (fun l ↦ !l.full)
      fun ld' _ _ ↦ by
        rw [Ne, ListDescriptor.kind_eq_fullLists, ListDescriptor.full]
        simp
    have hfull : b.deallocFull h a =
        Buffer.deallocFrom .fullLists (fun l ↦ !l.full) b h d a := by
      rw [Buffer.deallocFull, hs.deallocIn_eq, hf]
      rfl
    refine ⟨ld, he, hin, hle, fun e hall ↦ ?_, fun m ld' hall ↦ ?_⟩
    · simp [Buffer.deallocate, hp0, hfull, hfrom.1 e hall]
    · obtain ⟨b', h', hok, hres⟩ := hfrom.2 m ld' hall
      exact ⟨b', h', by simp [Buffer.deallocate, hp0, hfull, hok], hres⟩

end Sorted

end Chisaka.Slab
