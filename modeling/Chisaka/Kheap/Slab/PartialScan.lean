import Chisaka.Kheap.Slab.BufferSpec
import Chisaka.Kheap.Slab.ListDescriptorSpec

/-!
# The scan of the partial ring

As long as nobody but the buffer allocates from its slabs, what is on the partial ring has space,
and `AddToPartial` takes from the head.  Clients may also allocate from a descriptor directly, so
that the ring holds full ones as well, and then the loop is to look for the first with space.

The step of the loop is `it = m_partialLists->next()`, not `it->next()`: from any descriptor it goes
to the second one of the ring (`addToPartialBody_full`).  `takesFirst_iff` says when this is enough.
It is if the ring has one descriptor only, or if one of the first two has space.  In every other
ring, whether a descriptor further on has space or none has, the loop does not end
(`Mixed.run_diverges`).
-/

set_option autoImplicit false

namespace Chisaka.Slab

open Bytes Chain ListDescriptor

/-! ## What it should do -/

namespace Heap

/-- `HasSpace` of the descriptor at an address. -/
def hasSpace (h : Heap) (d : ℕ) : Bool := (h.descs d).any ListDescriptor.hasSpace

/-- `a` is a slot of the descriptor at `d`, and not live. -/
def FreeSlot (h : Heap) (d a : ℕ) : Prop :=
  ∃ ld, h.descs d = some ld ∧ a ∈ ld.slots ∧ ∀ live e, Chained h.mem ld live e → a ∉ live

end Heap

/-- The rings of a buffer, where the descriptors of the partial one may be full, or empty. -/
structure Mixed (b : Buffer) (h : Heap) (L : ListKind → List ℕ) : Prop extends Rings b h L where
  /-- There is a descriptor. -/
  ne_nil : L .partialLists ≠ []
  /-- The slabs are in order, whatever is live in them. -/
  slab : ∀ d ∈ L .partialLists, ∃ ld live e, h.descs d = some ld ∧ Chained h.mem ld live e

/-- **What `AddToPartial` should do** on a ring: it returns a slot of the first descriptor that has
space, and null if there is none. -/
def TakesFirst (b : Buffer) (h : Heap) (ring : List ℕ) : Prop :=
  ∃ a b' h', b.addToPartial h = .ok (a, b', h') ∧
    (∀ d, ring.find? h.hasSpace = some d → h.FreeSlot d a) ∧
    (a = 0 ↔ ∀ d ∈ ring, h.hasSpace d = false)

/-- The scan gets to a descriptor that decides it: one of the first two has space, or there is no
second one. -/
def Reached (h : Heap) (ring : List ℕ) : Prop :=
  ring.length = 1 ∨ ∃ d ∈ ring.take 2, h.hasSpace d = true

variable {b : Buffer} {h : Heap} {a d x y : ℕ} {k : ListKind} {L : ListKind → List ℕ} {S : List ℕ}
  {ld ld' : ListDescriptor}

/-! ## A round -/

theorem Heap.hasSpace_eq (he : h.descs d = some ld) : h.hasSpace d = ld.hasSpace := by
  rw [Heap.hasSpace, he, Option.any_some]

namespace Rings

/-- Moving a descriptor to another ring returns. -/
theorem moveEntry_returns (hr : Rings b h L) (hd : d ∈ L k) (he : h.descs d = some ld)
    (hk : ld.kind ≠ k) : ∃ r, Buffer.moveEntry k b h d = .ok r := by
  obtain ⟨b₁, h₁, hmove, hout⟩ := hr.takeOut hd he hk
  obtain ⟨haddr, ld₀, he₀, hsize⟩ := hr.desc k d hd
  have hnot : d ∉ members (without L k d) := fun hmem ↦ by
    obtain ⟨k', hk'⟩ := mem_members.mp hmem
    exact ((hr.mem_without hd).mp hk').2 rfl
  obtain ⟨b', h', hadd, -⟩ := hout.rings.addList hnot haddr (hout.slabs.desc he₀)
    (hsize.trans hout.cls.bufferSize.symm)
  exact ⟨(b', h'), hmove.trans hadd⟩

end Rings

namespace Mixed

theorem partialLists_eq (hm : Mixed b h L) (hL : L .partialLists = x :: S) :
    b.partialLists = x := by
  have hhead := hm.head .partialLists
  rwa [hL] at hhead

/-- **A descriptor with space**: the round takes a slot, and puts the descriptor where it belongs.
-/
theorem addToPartialBody_space (hm : Mixed b h L) (hd : d ∈ L .partialLists)
    (hspace : h.hasSpace d = true) : ∃ a b' h',
      Buffer.addToPartialBody b h d = .ok (.inr (a, b', h')) ∧ h.FreeSlot d a ∧ a ≠ 0 := by
  obtain ⟨ld, live, e, he, hch⟩ := hm.slab d hd
  obtain ⟨hd0, -⟩ := (hm.desc _ d hd).1
  have hhas : ld.hasSpace = true := Heap.hasSpace_eq he ▸ hspace
  have hlt : ld.buffersUsed < ld.totalBuffers := of_decide_eq_true hhas
  obtain ⟨a, rest, ld', -, hfree, hall, -⟩ := hch.allocate (Nat.ne_of_lt hlt)
  obtain ⟨ha0, hrev, -⟩ := ListDescriptor.allocate_revises hall hlt hch.sized.total_lt
  have hslot : h.FreeSlot d a := by
    have hmem : a ∈ ld.free live := hfree ▸ List.mem_cons_self
    refine ⟨ld, he, (mem_free.mp hmem).1, fun live' e' hch' ↦ ?_⟩
    -- the slot does not depend on the list of those that are live
    obtain ⟨a', _, _, _, hfree', hall', -⟩ := hch'.allocate (Nat.ne_of_lt hlt)
    obtain ⟨rfl, -⟩ := Prod.mk.inj (Except.ok.inj (hall.symm.trans hall'))
    exact (mem_free.mp (hfree' ▸ List.mem_cons_self)).2
  have hround := Buffer.addToPartialBody_eq (b := b) hd0 he hhas hall
  by_cases hfull : ld'.full = true
  · have hkind : ld'.kind ≠ .partialLists := by
      rw [ListDescriptor.kind, if_pos hfull]
      decide
    obtain ⟨⟨b', h'⟩, hmove⟩ := (hm.toRings.setSlab he hrev h.mem).moveEntry_returns hd
      (Heap.descs_setSlab_self h d h.mem ld') hkind
    rw [if_pos hfull, hmove, Exec.ok_bind] at hround
    exact ⟨a, b', h', hround, hslot, ha0⟩
  · rw [if_neg hfull] at hround
    exact ⟨a, b, h.setSlab d h.mem ld', hround, hslot, ha0⟩

/-- **A descriptor without space**: the next round looks at the second descriptor of the ring,
whichever this one is. -/
theorem addToPartialBody_full (hm : Mixed b h L) (hL : L .partialLists = x :: S)
    (hd : d ∈ L .partialLists) (hspace : h.hasSpace d = false) :
    Buffer.addToPartialBody b h d =
      .ok (if h.next x ≠ x then .inl (h.next x) else .inr (0, b, h)) := by
  obtain ⟨ld, he, hderef⟩ := (hm.live hd).deref
  obtain ⟨first, hef, hfirst⟩ := (hm.live (k := .partialLists) (hL ▸ List.mem_cons_self)).deref
  have hnot : ld.hasSpace = false := Heap.hasSpace_eq he ▸ hspace
  rw [Heap.next_eq hef]
  by_cases hend : first.nextList = x
  · simp [Buffer.addToPartialBody, hderef, hnot, hm.partialLists_eq hL, hfirst, hend]
  · simp [Buffer.addToPartialBody, hderef, hnot, hm.partialLists_eq hL, hfirst, hend]

/-! ## The loop -/

theorem addToPartial_eq (hm : Mixed b h L) (hL : L .partialLists = x :: S) :
    b.addToPartial h = Loop.run (Buffer.addToPartialBody b h) Loop.rounds x := by
  have hx : x ≠ 0 := (hm.desc .partialLists x (hL ▸ List.mem_cons_self)).1.1
  rw [Buffer.addToPartial, hm.partialLists_eq hL, if_neg hx, Loop.exec]

/-- The second descriptor is another one. -/
theorem next_ne (hm : Mixed b h L) (hL : L .partialLists = x :: y :: S) :
    h.next x = y ∧ y ≠ x := by
  have hring := hL ▸ hm.ring .partialLists
  exact ⟨hring.next_head.1, fun he ↦ (List.nodup_cons.mp hring.nodup).1 (he ▸ List.mem_cons_self)⟩

/-- **If the first two descriptors have no space, the loop does not end**, however many others there
are. -/
theorem run_diverges (hm : Mixed b h L) (hL : L .partialLists = x :: y :: S)
    (hx : h.hasSpace x = false) (hy : h.hasSpace y = false) (n : ℕ) :
    Loop.run (Buffer.addToPartialBody b h) n x = .error .diverges := by
  obtain ⟨hnext, hne⟩ := hm.next_ne hL
  -- the cursor stays among the two
  refine Loop.run_diverges (fun it ↦ it = x ∨ it = y) (fun it hit ↦ ⟨y, ?_, .inr rfl⟩) n (.inl rfl)
  have hmem : it ∈ L .partialLists := by
    rw [hL]
    rcases hit with rfl | rfl
    · exact List.mem_cons_self
    · exact List.mem_cons_of_mem x List.mem_cons_self
  have hfull : h.hasSpace it = false := by
    rcases hit with rfl | rfl
    · exact hx
    · exact hy
  rw [hm.addToPartialBody_full hL hmem hfull, hnext, if_pos hne]

/-- The scan takes a slot in the round that looks at the first descriptor with space. -/
theorem takesFirst_of_round (hm : Mixed b h L) (hfind : (L .partialLists).find? h.hasSpace = some d)
    (hround : ∀ r, Buffer.addToPartialBody b h d = .ok (.inr r) → b.addToPartial h = .ok r) :
    TakesFirst b h (L .partialLists) := by
  have hd := List.mem_of_find?_eq_some hfind
  have hspace := List.find?_some hfind
  obtain ⟨a, b', h', hbody, hslot, ha0⟩ := hm.addToPartialBody_space hd hspace
  refine ⟨a, b', h', hround _ hbody, fun d' hd' ↦ ?_, iff_of_false ha0 fun hall ↦ ?_⟩
  · obtain rfl := Option.some.inj (hfind.symm.trans hd')
    exact hslot
  · rw [hall d hd] at hspace
    cases hspace

/-- **When the scan finds the first descriptor with space**, and otherwise null. -/
theorem takesFirst_iff (hm : Mixed b h L) :
    TakesFirst b h (L .partialLists) ↔ Reached h (L .partialLists) := by
  obtain ⟨x, S, hL⟩ := List.exists_cons_of_ne_nil hm.ne_nil
  have hrun := hm.addToPartial_eq hL
  cases hx : h.hasSpace x with
  | true =>
    -- the head
    refine iff_of_true (hm.takesFirst_of_round (d := x) ?_ fun r hbody ↦ ?_)
      (.inr ⟨x, by simp [hL], hx⟩)
    · rw [hL, List.find?_cons_of_pos hx]
    · rw [hrun, Loop.rounds_eq, Loop.run_inr hbody]
  | false =>
    have hnot : ¬h.hasSpace x = true := by simp [hx]
    have hfull := hm.addToPartialBody_full hL (hL ▸ List.mem_cons_self) hx
    cases S with
    | nil =>
      -- there is no other
      have hself : h.next x = x := (LinkRing.singleton_iff.mp (hL ▸ hm.ring .partialLists)).1
      rw [hself, if_neg (not_not_intro rfl)] at hfull
      refine iff_of_true ⟨0, b, h, ?_, fun d hd ↦ ?_, iff_of_true rfl fun d hd ↦ ?_⟩
        (.inl (by rw [hL, List.length_singleton]))
      · rw [hrun, Loop.rounds_eq, Loop.run_inr hfull]
      · rw [hL, List.find?_cons_of_neg hnot] at hd
        cases hd
      · rw [hL, List.mem_singleton] at hd
        rw [hd, hx]
    | cons y S =>
      obtain ⟨hnext, hne⟩ := hm.next_ne hL
      rw [hnext, if_pos hne] at hfull
      cases hy : h.hasSpace y with
      | true =>
        -- the second one
        refine iff_of_true (hm.takesFirst_of_round (d := y) ?_ fun r hbody ↦ ?_)
          (.inr ⟨y, by simp [hL], hy⟩)
        · rw [hL, List.find?_cons_of_neg hnot, List.find?_cons_of_pos hy]
        · rw [hrun, Loop.rounds_eq, Loop.run_inl hfull]
          exact Loop.run_inr hbody _
      | false =>
        -- neither of them
        refine iff_of_false ?_ ?_
        · rintro ⟨a, b', h', hok, -⟩
          rw [hrun, hm.run_diverges hL hx hy] at hok
          cases hok
        · rintro (hlen | ⟨d, hd, hspace⟩)
          · rw [hL] at hlen
            cases hlen
          · have hd' : d = x ∨ d = y := by simpa [hL] using hd
            rcases hd' with rfl | rfl
            · exact hnot hspace
            · simp [hy] at hspace

end Mixed

/-! ## Two full descriptors in front -/

/-- Three descriptors of two slots each.  The first two are full. -/
def fullInFront : Heap where
  mem := fun _ ↦ 0
  descs := fun d ↦
    if d = 64 then some ⟨0x1000, 0, 128, 192, 2048, 2, 2, 1⟩
    else if d = 128 then some ⟨0x2000, 0, 192, 64, 2048, 2, 2, 1⟩
    else if d = 192 then some ⟨0x3000, 0x3800, 64, 128, 2048, 2, 1, 1⟩
    else none

/-- Their buffer. -/
def fullInFrontBuffer : Buffer := { Buffer.new 8 2048 with partialLists := 64 }

/-- Their ring. -/
def fullInFrontRings : ListKind → List ℕ
  | .partialLists => [64, 128, 192]
  | _ => []

theorem mixed_fullInFront : Mixed fullInFrontBuffer fullInFront fullInFrontRings := by
  have hmem : ∀ k d, d ∈ fullInFrontRings k → k = .partialLists ∧ (d = 64 ∨ d = 128 ∨ d = 192) := by
    rintro (_ | _ | _) d hd <;> simp_all [fullInFrontRings]
  refine ⟨⟨fun k ↦ ?_, fun k ↦ ?_, fun k k' d hd hd' ↦ ?_, fun k d hd ↦ ?_⟩, by decide,
    fun d hd ↦ ?_⟩
  · cases k <;> rfl
  · cases k with
    | partialLists =>
      refine LinkRing.cons_iff.mpr ⟨by decide, ?_⟩
      exact Linked.cons_cons.mpr ⟨⟨rfl, rfl⟩, Linked.cons_cons.mpr ⟨⟨rfl, rfl⟩,
        Linked.cons_cons.mpr ⟨⟨rfl, rfl⟩, Linked.singleton⟩⟩⟩
    | freeLists => exact LinkRing.nil
    | fullLists => exact LinkRing.nil
  · rw [(hmem k d hd).1, (hmem k' d hd').1]
  · obtain ⟨-, rfl | rfl | rfl⟩ := hmem k d hd <;> exact ⟨by decide, _, rfl, rfl⟩
  · obtain ⟨-, rfl | rfl | rfl⟩ := hmem _ d hd
    · exact ⟨_, [0x1000, 0x1800], 0, rfl, ⟨by decide, by decide, by decide, by decide, by decide⟩,
        by decide, by decide, by decide, rfl, by decide, by decide⟩
    · exact ⟨_, [0x2000, 0x2800], 0, rfl, ⟨by decide, by decide, by decide, by decide, by decide⟩,
        by decide, by decide, by decide, rfl, by decide, by decide⟩
    · exact ⟨_, [0x3000], 0, rfl, ⟨by decide, by decide, by decide, by decide, by decide⟩,
        by decide, by decide, by decide, ⟨rfl, rfl⟩, by decide, by decide⟩

/-- The condition for the three. -/
theorem takesFirst_iff_fullInFront :
    TakesFirst fullInFrontBuffer fullInFront [64, 128, 192] ↔
      Reached fullInFront [64, 128, 192] := Mixed.takesFirst_iff mixed_fullInFront

/-- **The third descriptor has space**, and the scan does not end. -/
theorem not_takesFirst_fullInFront : Mixed fullInFrontBuffer fullInFront fullInFrontRings ∧
    [64, 128, 192].find? fullInFront.hasSpace = some 192 ∧
    fullInFrontBuffer.addToPartial fullInFront = .error .diverges ∧
    ¬TakesFirst fullInFrontBuffer fullInFront [64, 128, 192] := by
  have hdiv : fullInFrontBuffer.addToPartial fullInFront = .error .diverges := by
    rw [mixed_fullInFront.addToPartial_eq rfl]
    exact mixed_fullInFront.run_diverges rfl rfl rfl _
  refine ⟨mixed_fullInFront, rfl, hdiv, ?_⟩
  rintro ⟨a, b', h', hok, -⟩
  rw [hdiv] at hok
  cases hok

end Chisaka.Slab
