import Chisaka.Lib.Machine
import Chisaka.Kheap.Slab.RingLaws

/-!
# Descriptors that were taken out of a ring

`Remove` and `Extract` link the neighbours of a descriptor to each other, and leave its own links as
they are: they still point at the neighbours it had.  `ExtractSelf` and the destructor write through
these links, and so does `AddList` of a descriptor that is not alone.

`detachedMachine` is a ring from which `entry` was taken out, edited afterwards by its members.
`detached_harmless_iff` says when a method of `entry` leaves the links of the members alone:

* `ExtractSelf` and the destructor do so if a former neighbour that is a member is still linked to
  the other one;
* `AddList` does so if the former predecessor is no member.
-/

set_option autoImplicit false

namespace Chisaka.Slab

/-! ## The ring that is left -/

/-- A ring, read from `x` on. -/
def readFrom (L : List ℕ) (x : ℕ) : List ℕ := L.dropWhile (· ≠ x) ++ L.takeWhile (· ≠ x)

theorem exists_readFrom {L : List ℕ} {x : ℕ} (hx : x ∈ L) :
    ∃ P S, L = P ++ x :: S ∧ readFrom L x = x :: S ++ P := by
  obtain ⟨P, S, rfl, hP⟩ := List.eq_append_cons_of_mem hx
  have hne : ∀ d ∈ P, decide (d ≠ x) = true := fun d hd ↦ decide_eq_true fun he ↦ hP (he ▸ hd)
  refine ⟨P, S, rfl, ?_⟩
  rw [readFrom, List.dropWhile_append_of_pos hne, List.takeWhile_append_of_pos hne]
  simp

theorem erase_middle {P S : List ℕ} {x : ℕ} (h : (P ++ x :: S).Nodup) :
    (P ++ x :: S).erase x = P ++ S := by
  have hx : x ∉ P ++ S := (List.nodup_cons.mp (List.nodup_middle.mp h)).1
  rw [List.erase_append_right _ fun hP ↦ hx (List.mem_append_left S hP), List.erase_cons_head]

theorem mem_readFrom {L : List ℕ} {x y : ℕ} (hx : x ∈ L) : y ∈ readFrom L x ↔ y ∈ L := by
  obtain ⟨P, S, hL, hread⟩ := exists_readFrom hx
  rw [hread, hL, List.mem_append, List.mem_append, or_comm]

/-- A ring of descriptors, and one that was taken out of it. -/
structure Detached where
  /-- The descriptors. -/
  heap : Heap
  /-- The members of the ring that is left. -/
  ring : List ℕ
  /-- The descriptor that was taken out. -/
  entry : ℕ

/-- What the members of the ring are asked to do. -/
inductive RingCall
  | addList (this src : ℕ)
  | extract (this entry : ℕ)
  | extractSelf (this : ℕ)

/-- What the descriptor that was taken out is asked to do. -/
inductive EntryCall
  | destroy
  | extractSelf
  | addList (src : ℕ)

instance (h : Heap) (x y : ℕ) : Decidable (h.SameSize x y) := inferInstanceAs (Decidable (_ = _))

namespace Detached

/-- A descriptor that is no member and was not taken out. -/
def Fresh (s : Detached) (y : ℕ) : Prop := s.heap.Live y ∧ y ∉ s.ring ∧ y ≠ s.entry

/-- Members call the methods; what they add is fresh, and what they extract is a member. -/
def Enabled (s : Detached) : RingCall → Prop
  | .addList this src => this ∈ s.ring ∧ s.Fresh src
  | .extract this entry => this ∈ s.ring ∧ entry ∈ s.ring
  | .extractSelf this => this ∈ s.ring

/-- A call, and the ring it leaves.  A member that is alone stays so. -/
def step (s : Detached) : RingCall → Exec (Unit × Detached)
  | .addList this src => do
    let h ← s.heap.addList this src
    return ((), { s with
      heap := h
      ring := if s.heap.SameSize this src then src :: readFrom s.ring this else s.ring })
  | .extract this entry => do
    let (_, h) ← s.heap.extract this entry
    return ((), { s with
      heap := h
      ring := if this = entry then s.ring else (readFrom s.ring this).erase entry })
  | .extractSelf this => do
    let h ← s.heap.extractSelf this
    return ((), { s with
      heap := h
      ring := if s.ring = [this] then s.ring else s.ring.erase this })

/-- A method of the descriptor that was taken out. -/
def act (s : Detached) : EntryCall → Exec Heap
  | .destroy => s.heap.destroy s.entry
  | .extractSelf => s.heap.extractSelf s.entry
  | .addList src => s.heap.addList s.entry src

/-- It adds fresh descriptors only. -/
def Allowed (s : Detached) : EntryCall → Prop
  | .destroy => True
  | .extractSelf => True
  | .addList src => s.Fresh src

/-- The method returns, and every member has the links it had. -/
def Harmless (s : Detached) (k : EntryCall) : Prop :=
  ∃ h', s.act k = .ok h' ∧ ∀ d ∈ s.ring, h'.next d = s.heap.next d ∧ h'.prev d = s.heap.prev d

/-- The former neighbours of `entry`, as far as they are members, are linked to each other. -/
def StillAdjacent (s : Detached) : Prop :=
  (s.heap.prev s.entry ∈ s.ring → s.heap.next (s.heap.prev s.entry) = s.heap.next s.entry) ∧
    (s.heap.next s.entry ∈ s.ring → s.heap.prev (s.heap.next s.entry) = s.heap.prev s.entry)

/-- The method finds what the links of `entry` point at in order. -/
def Safe (s : Detached) : EntryCall → Prop
  | .destroy => s.StillAdjacent
  | .extractSelf => s.StillAdjacent
  | .addList src => s.heap.SameSize s.entry src → s.heap.prev s.entry ∉ s.ring

end Detached

/-- Any ring of at least two, after `Remove` or `Extract`, and what its members do then. -/
def detachedMachine : Machine Detached RingCall Unit where
  init s := ∃ h x L M, ListDescriptor.ops.Ring h (x :: L ++ s.entry :: M) ∧ s.ring = x :: L ++ M ∧
    (h.remove x s.entry = .ok s.heap ∨ ∃ r, h.extract x s.entry = .ok (r, s.heap))
  enabled := Detached.Enabled
  step := Detached.step

/-! ## The invariant -/

namespace Detached

variable {s s' : Detached} {h' : Heap} {R S : List ℕ} {x y : ℕ} {k : RingCall}

/-- What holds of the ring and of the descriptor that was taken out. -/
structure Inv (s : Detached) : Prop where
  /-- The members are on a ring. -/
  ring : LinkRing s.heap.next s.heap.prev s.ring
  /-- They are alive. -/
  live : ∀ d ∈ s.ring, s.heap.Live d
  /-- The descriptor is none of them, -/
  notMem : s.entry ∉ s.ring
  /-- but it is alive, -/
  entry : s.heap.Live s.entry
  /-- and points at another descriptor with its one link -/
  next : s.heap.Live (s.heap.next s.entry) ∧ s.heap.next s.entry ≠ s.entry
  /-- and with its other one. -/
  prev : s.heap.Live (s.heap.prev s.entry)

/-- The links of `entry` are left alone. -/
structure SameEntry (s s' : Detached) : Prop where
  /-- It is the same descriptor. -/
  entry : s'.entry = s.entry
  /-- Its one link, -/
  next : s'.heap.next s.entry = s.heap.next s.entry
  /-- and its other one. -/
  prev : s'.heap.prev s.entry = s.heap.prev s.entry

/-- **What keeps the invariant**: the links of `entry` are left alone. -/
theorem Inv.of_frame (hi : s.Inv) (hs : Heap.SameSlabs s.heap h') (hl : Heap.LinksOnly S s.heap h')
    (he : s.entry ∉ S) (hring : LinkRing h'.next h'.prev R) (hlive : ∀ d ∈ R, s.heap.Live d)
    (hR : s.entry ∉ R) :
    Inv { s with heap := h', ring := R } ∧ s.SameEntry { s with heap := h', ring := R } := by
  obtain ⟨hn, hp⟩ := hl s.entry he
  refine ⟨⟨hring, fun d hd ↦ hs.live.mpr (hlive d hd), hR, hs.live.mpr hi.entry, ?_, ?_⟩,
    ⟨rfl, hn, hp⟩⟩
  · show h'.Live (h'.next s.entry) ∧ h'.next s.entry ≠ s.entry
    rw [hn]
    exact ⟨hs.live.mpr hi.next.1, hi.next.2⟩
  · show h'.Live (h'.prev s.entry)
    rw [hp]
    exact hs.live.mpr hi.prev

theorem inv_of_init (h0 : detachedMachine.init s) : s.Inv := by
  obtain ⟨h, x, L, M, hr, hring, hout⟩ := h0
  obtain ⟨h₁, hext, hs, hring', hl⟩ := Heap.extract_spec hr.ring hr.live
  obtain rfl : h₁ = s.heap := by
    rcases hout with hrem | ⟨r, hext'⟩
    · exact Except.ok.inj ((Heap.remove_of_extract hext).symm.trans hrem)
    · exact (Prod.mk.inj (Except.ok.inj (hext.symm.trans hext'))).2
  have hnot : s.entry ∉ x :: L ++ M := hr.ring.notMem_middle
  obtain ⟨hn, hp⟩ := hr.ring.neighbours_mem (List.cons_ne_nil x (L ++ M))
  have hlive : ∀ d ∈ x :: L ++ M, s.heap.Live d := fun d hd ↦ hs.live.mpr
    (hr.live d (List.mem_append_cons_of_mem hd))
  -- the links of the descriptor are those it had
  obtain ⟨hn', hp'⟩ := hl s.entry hnot
  refine ⟨hring ▸ hring', hring ▸ hlive, hring ▸ hnot, hs.live.mpr (hr.live _ (by simp)), ?_, ?_⟩
  · rw [hn']
    exact ⟨hlive _ hn, fun h0 ↦ hnot (h0 ▸ hn)⟩
  · rw [hp']
    exact hlive _ hp

theorem Inv.step_addList (hi : s.Inv) (hx : x ∈ s.ring) (hy : s.Fresh y) :
    ∃ s', s.step (.addList x y) = .ok ((), s') ∧ s'.Inv ∧ s.SameEntry s' := by
  obtain ⟨hylive, hyR, hye⟩ := hy
  obtain ⟨P, T, hL, hread⟩ := exists_readFrom hx
  have hring : LinkRing s.heap.next s.heap.prev (x :: T ++ P) := (hL ▸ hi.ring).rotate
  have hmem : ∀ d, d ∈ x :: T ++ P ↔ d ∈ s.ring := fun d ↦ hread ▸ mem_readFrom hx
  have hlive : ∀ d ∈ x :: T ++ P, s.heap.Live d := fun d hd ↦ hi.live d ((hmem d).mp hd)
  by_cases hsize : s.heap.SameSize x y
  · obtain ⟨h', hadd, hs, hring', hl⟩ :=
      Heap.addList_spec hring hlive hylive (mt (hmem y).mp hyR) hsize
    refine ⟨{ s with heap := h', ring := y :: readFrom s.ring x }, ?_, ?_⟩
    · simp only [Detached.step, hadd, Exec.ok_bind, if_pos hsize, Exec.pure_eq]
    · have hout : s.entry ∉ y :: readFrom s.ring x := by
        rw [List.mem_cons, mem_readFrom hx]
        exact not_or.mpr ⟨fun he ↦ hye he.symm, hi.notMem⟩
      rw [hread] at hout ⊢
      refine hi.of_frame hs hl hout hring'.rotate (fun d hd ↦ ?_) hout
      exact (List.mem_cons.mp hd).elim (fun he ↦ he ▸ hylive) (hlive d)
  · refine ⟨s, ?_, hi, rfl, rfl, rfl⟩
    have hkept : s.heap.addList x y = .ok s.heap :=
      Heap.addList_refused (hi.live x hx) hylive hsize
    simp only [Detached.step, hkept, Exec.ok_bind, if_neg hsize, Exec.pure_eq]

theorem Inv.step_extract (hi : s.Inv) (hx : x ∈ s.ring) (hy : y ∈ s.ring) :
    ∃ s', s.step (.extract x y) = .ok ((), s') ∧ s'.Inv ∧ s.SameEntry s' := by
  by_cases hxy : x = y
  · refine ⟨s, ?_, hi, rfl, rfl, rfl⟩
    simp only [Detached.step, Heap.extract, if_pos hxy, Exec.pure_eq, Exec.ok_bind]
  · -- the ring read from the member that is asked
    obtain ⟨P, T, hL, hread⟩ := exists_readFrom hx
    obtain ⟨M, N, hM⟩ : ∃ M N, T ++ P = M ++ y :: N := by
      refine List.append_of_mem ?_
      rw [← mem_readFrom hx, hread] at hy
      exact (List.mem_cons.mp hy).resolve_left fun he ↦ hxy he.symm
    have hread' : readFrom s.ring x = x :: M ++ y :: N := hread.trans (congrArg (List.cons x) hM)
    have hring : LinkRing s.heap.next s.heap.prev (x :: M ++ y :: N) :=
      hread' ▸ hread ▸ (hL ▸ hi.ring).rotate
    have hmem : ∀ d, d ∈ x :: M ++ y :: N ↔ d ∈ s.ring := fun d ↦ hread' ▸ mem_readFrom hx
    have hsub : ∀ d ∈ x :: M ++ N, d ∈ s.ring := fun d hd ↦
      (hmem d).mp (List.mem_append_cons_of_mem hd)
    obtain ⟨h', hext, hs, hring', hl⟩ :=
      Heap.extract_spec hring fun d hd ↦ hi.live d ((hmem d).mp hd)
    have hout : s.entry ∉ x :: M ++ N := fun hd ↦ hi.notMem (hsub _ hd)
    refine ⟨{ s with heap := h', ring := x :: M ++ N }, ?_,
      hi.of_frame hs hl hout hring' (fun d hd ↦ hi.live d (hsub d hd)) hout⟩
    simp only [Detached.step, hext, Exec.ok_bind, if_neg hxy, Exec.pure_eq, hread',
      erase_middle hring.nodup]

theorem Inv.step_extractSelf (hi : s.Inv) (hx : x ∈ s.ring) :
    ∃ s', s.step (.extractSelf x) = .ok ((), s') ∧ s'.Inv ∧ s.SameEntry s' := by
  obtain ⟨P, T, hL⟩ := List.append_of_mem hx
  have hring : LinkRing s.heap.next s.heap.prev (P ++ x :: T) := hL ▸ hi.ring
  have hlive : ∀ d ∈ P ++ x :: T, s.heap.Live d := hL ▸ hi.live
  have hnot : s.entry ∉ P ++ x :: T := hL ▸ hi.notMem
  obtain ⟨h', hext, hs, hring', halone, hl⟩ := Heap.extractSelf_mem hring hlive
  have hsub : ∀ d ∈ P ++ T, d ∈ P ++ x :: T := fun _ ↦ List.mem_append_cons_of_mem
  by_cases hone : s.ring = [x]
  · refine ⟨{ s with heap := h', ring := [x] }, ?_, hi.of_frame hs hl hnot halone
      (fun d hd ↦ hi.live d (hone ▸ hd)) (hone ▸ hi.notMem)⟩
    simp only [Detached.step, hext, Exec.ok_bind, hone, if_true, Exec.pure_eq]
  · refine ⟨{ s with heap := h', ring := P ++ T }, ?_, hi.of_frame hs hl hnot hring'
      (fun d hd ↦ hlive d (hsub d hd)) fun hd ↦ hnot (hsub _ hd)⟩
    simp only [Detached.step, hext, Exec.ok_bind, if_neg hone, Exec.pure_eq]
    rw [hL, erase_middle hring.nodup]

/-- **No call of a member faults, and each keeps the invariant.** -/
theorem keeps_inv : detachedMachine.Keeps Inv where
  init _ h0 := inv_of_init h0
  step s k hi hk := by
    cases k with
    | addList this src =>
      obtain ⟨s', hs, hi', -⟩ := hi.step_addList hk.1 hk.2
      exact ⟨(), s', hs, hi'⟩
    | extract this entry =>
      obtain ⟨s', hs, hi', -⟩ := hi.step_extract hk.1 hk.2
      exact ⟨(), s', hs, hi'⟩
    | extractSelf this =>
      obtain ⟨s', hs, hi', -⟩ := hi.step_extractSelf hk
      exact ⟨(), s', hs, hi'⟩

/-! ## What the methods of `entry` do to the members -/

/-- A link that is assigned is the one that was there, unless it is nobody's. -/
theorem update_kept_iff {f : ℕ → ℕ} {a b : ℕ} :
    (∀ d ∈ R, Function.update f a b d = f d) ↔ (a ∈ R → f a = b) := by
  constructor
  · intro h ha
    rw [← h a ha, Function.update_self]
  · intro h d hd
    by_cases hda : d = a
    · rw [hda, Function.update_self, h (hda ▸ hd)]
    · rw [Function.update_of_ne hda]

theorem Inv.ne_entry (hi : s.Inv) {d : ℕ} (hd : d ∈ s.ring) : d ≠ s.entry :=
  fun he ↦ hi.notMem (he ▸ hd)

/-- What `ExtractSelf` leaves of the links of the members. -/
theorem Inv.extractSelf_kept (hi : s.Inv) : ∃ h', s.heap.extractSelf s.entry = .ok h' ∧
    ((∀ d ∈ s.ring, h'.next d = s.heap.next d ∧ h'.prev d = s.heap.prev d) ↔ s.StillAdjacent) := by
  obtain ⟨h', hext, -, -, hn, hp⟩ :=
    Heap.extractSelf_links hi.entry hi.next.1 hi.prev fun he ↦ hi.next.2 he.1
  refine ⟨h', hext, ?_⟩
  rw [StillAdjacent, ← update_kept_iff, ← update_kept_iff, ← forall₂_and]
  refine forall₂_congr fun d hd ↦ ?_
  rw [hn, hp, Function.update_of_ne (hi.ne_entry hd), Function.update_of_ne (hi.ne_entry hd)]

/-- A method that returns is harmless if it keeps the links. -/
theorem harmless_iff_of_ok {c : EntryCall} (ha : s.act c = .ok h') : s.Harmless c ↔
    ∀ d ∈ s.ring, h'.next d = s.heap.next d ∧ h'.prev d = s.heap.prev d := by
  constructor
  · rintro ⟨h₁, hact, hkept⟩
    obtain rfl := Except.ok.inj (ha.symm.trans hact)
    exact hkept
  · exact fun hkept ↦ ⟨h', ha, hkept⟩

theorem Inv.destroy_iff (hi : s.Inv) : s.Harmless .destroy ↔ s.StillAdjacent := by
  obtain ⟨h', hext, hkept⟩ := hi.extractSelf_kept
  have hact : s.act .destroy = .ok (h'.kill s.entry) := by
    simp only [act, Heap.destroy, hext, Exec.ok_bind, Exec.pure_eq]
  rw [harmless_iff_of_ok hact, ← hkept]
  refine forall₂_congr fun d hd ↦ ?_
  rw [Heap.next_kill h' (hi.ne_entry hd), Heap.prev_kill h' (hi.ne_entry hd)]

theorem Inv.addList_iff (hi : s.Inv) (hy : s.Fresh y) : s.Harmless (.addList y) ↔
    (s.heap.SameSize s.entry y → s.heap.prev s.entry ∉ s.ring) := by
  obtain ⟨hylive, hyR, hye⟩ := hy
  by_cases hsize : s.heap.SameSize s.entry y
  · obtain ⟨h', hadd, -, -, hn, hp⟩ :=
      Heap.addList_links hi.entry hi.prev hylive hye.symm hsize
    rw [harmless_iff_of_ok (c := .addList y) hadd, forall_prop_of_true hsize]
    have hne : ∀ d ∈ s.ring, d ≠ y := fun d hd he ↦ hyR (he ▸ hd)
    constructor
    · -- the former predecessor would point at what was added
      intro hkept hpR
      have hnext := (hkept _ hpR).1
      rw [hn, Function.update_self] at hnext
      exact hyR (hnext ▸ hi.ring.next_mem hpR)
    · intro hpR d hd
      have hdp : d ≠ s.heap.prev s.entry := fun he ↦ hpR (he ▸ hd)
      rw [hn, hp, Function.update_of_ne hdp, Function.update_of_ne (hne d hd),
        Function.update_of_ne (hi.ne_entry hd), Function.update_of_ne (hne d hd)]
      exact ⟨rfl, rfl⟩
  · have hkept : s.act (.addList y) = .ok s.heap := Heap.addList_refused hi.entry hylive hsize
    rw [harmless_iff_of_ok hkept]
    exact iff_of_true (fun _ _ ↦ ⟨rfl, rfl⟩) fun hsize' ↦ absurd hsize' hsize

theorem Inv.harmless_iff (hi : s.Inv) {c : EntryCall} (hc : s.Allowed c) :
    s.Harmless c ↔ s.Safe c := by
  cases c with
  | destroy => exact hi.destroy_iff
  | extractSelf =>
    obtain ⟨h', hext, hkept⟩ := hi.extractSelf_kept
    exact (harmless_iff_of_ok (c := .extractSelf) hext).trans hkept
  | addList src => exact hi.addList_iff hc

end Detached

open Detached

/-- **When a descriptor that was taken out is detached**: after any run of the ring that is left,
the methods of `entry` keep the links of the members exactly if they find its own links in order. -/
theorem detached_harmless_iff {s : Detached} (hs : detachedMachine.Reach s) {c : EntryCall}
    (hc : s.Allowed c) : s.Harmless c ↔ s.Safe c :=
  (Detached.keeps_inv.reach hs).harmless_iff hc

/-! ## A ring of two -/

/-- A ring of the descriptors at 64 and 128, and one at 192 that is alone. -/
def pairHeap : Heap where
  mem _ := 0
  descs d :=
    if d = 64 then some ⟨0x1000, 0, 128, 128, 64, 64, 0, 1⟩
    else if d = 128 then some ⟨0x2000, 0, 64, 64, 64, 64, 0, 1⟩
    else if d = 192 then some ⟨0x3000, 0, 192, 192, 64, 64, 0, 1⟩
    else none

/-- The second descriptor was taken out, and the first one is alone. -/
theorem exists_detached : ∃ s, detachedMachine.init s ∧ s.entry = 128 ∧ s.ring = [64] ∧
    s.heap.next 128 = 64 ∧ s.heap.prev 128 = 64 ∧ s.Fresh 192 ∧ s.heap.SameSize 64 192 := by
  have hring : ListDescriptor.ops.Ring pairHeap (64 :: [] ++ 128 :: []) := by
    refine ⟨⟨by decide, Linked.cons_cons.mpr ⟨⟨rfl, rfl⟩, Linked.cons_cons.mpr
      ⟨⟨rfl, rfl⟩, Linked.singleton⟩⟩⟩, fun d hd ↦ ?_⟩
    have hd' : d = 64 ∨ d = 128 := by simpa using hd
    rcases hd' with rfl | rfl
    · exact ⟨by decide, _, rfl⟩
    · exact ⟨by decide, _, rfl⟩
  obtain ⟨h', hext, hs, hring', hl⟩ := Heap.extract_spec hring.ring hring.live
  obtain ⟨hn, hp⟩ := hl 128 (by decide)
  have h192 : h'.Live 192 := hs.live.mpr ⟨by decide, _, rfl⟩
  refine ⟨⟨h', [64], 128⟩, ⟨pairHeap, 64, [], [], hring, rfl, .inr ⟨_, hext⟩⟩, rfl, rfl, hn, hp,
    ⟨h192, show 192 ∉ [64] by decide, show 192 ≠ 128 by decide⟩, ?_⟩
  show (h'.descs 64).map _ = (h'.descs 192).map _
  rw [hs.desc (show pairHeap.descs 64 = some _ from rfl),
    hs.desc (show pairHeap.descs 192 = some _ from rfl)]
  rfl

/-- Then the first one adds the third. -/
theorem exists_added : ∃ s, detachedMachine.Reach s ∧ s.entry = 128 ∧ s.ring = [192, 64] ∧
    s.heap.next 128 = 64 ∧ s.heap.prev 128 = 64 ∧ s.heap.next 64 = 192 := by
  obtain ⟨s, h0, he, hring, hn, hp, hfresh, hsize⟩ := exists_detached
  have hi := inv_of_init h0
  have h64 : 64 ∈ s.ring := hring ▸ List.mem_singleton_self 64
  have hself : s.heap.prev 64 = 64 := (LinkRing.singleton_iff.mp (hring ▸ hi.ring)).2
  obtain ⟨h', hadd, -, hl, hn', -⟩ := Heap.addList_links (hi.live 64 h64)
    (hself.symm ▸ hi.live 64 h64) hfresh.1 (by decide) hsize
  have hstep : s.step (.addList 64 192)
      = .ok ((), { s with heap := h', ring := 192 :: readFrom s.ring 64 }) := by
    simp only [step, hadd, Exec.ok_bind, if_pos hsize, Exec.pure_eq]
  have hk : detachedMachine.enabled s (.addList 64 192) := ⟨h64, hfresh⟩
  obtain ⟨hn128, hp128⟩ := hl 128 (by rw [hself]; decide)
  refine ⟨_, (Machine.Reach.init h0).step hk hstep, he, ?_, hn128.trans hn, hp128.trans hp, ?_⟩
  · rw [hring]
    rfl
  · show h'.next 64 = 192
    rw [hn', hself, Function.update_self]

/-- Destroying the second descriptor does no harm when the third one has left again. -/
theorem detached_harmless_pair : ∃ s, detachedMachine.Reach s ∧ s.Harmless .destroy := by
  obtain ⟨s, hs, he, hring, hn, hp, -⟩ := exists_added
  have h192 : 192 ∈ s.ring := hring ▸ List.mem_cons_self
  have hk : detachedMachine.enabled s (.extractSelf 192) := h192
  obtain ⟨s', hstep, hi', hsame⟩ := (Detached.keeps_inv.reach hs).step_extractSelf h192
  have hring' : s'.ring = [64] := by
    obtain ⟨h', -, hs'⟩ := Exec.bind_eq_ok.mp hstep
    cases hs'
    show (if s.ring = [192] then s.ring else s.ring.erase 192) = [64]
    rw [hring]
    decide
  refine ⟨s', hs.step hk hstep,
    (detached_harmless_iff (hs.step hk hstep) (c := .destroy) trivial).mpr ?_⟩
  -- the first descriptor is alone again, and the second one still points at it
  have hself := LinkRing.singleton_iff.mp (hring' ▸ hi'.ring)
  have hn' : s'.heap.next 128 = 64 := (he ▸ hsame.next).trans hn
  have hp' : s'.heap.prev 128 = 64 := (he ▸ hsame.prev).trans hp
  show s'.StillAdjacent
  rw [StillAdjacent, hsame.entry, he, hn', hp']
  exact ⟨fun _ ↦ hself.1, fun _ ↦ hself.2⟩

/-- **A descriptor that is added in between is lost** when the second one is destroyed. -/
theorem not_harmless_pair :
    ¬∀ s, detachedMachine.Reach s → ∀ c, s.Allowed c → s.Harmless c := by
  intro hall
  obtain ⟨s, hs, he, hring, hn, hp, hnext⟩ := exists_added
  have hadj := (Detached.keeps_inv.reach hs).destroy_iff.mp (hall s hs .destroy trivial)
  -- the first descriptor points at the added one, and no longer at itself
  have h1 := hadj.1
  rw [he, hn, hp, hnext, hring] at h1
  exact absurd (h1 (by decide)) (by decide)

end Chisaka.Slab
