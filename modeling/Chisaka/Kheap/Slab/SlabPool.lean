import Chisaka.Kheap.Slab.ListDescriptorRuns
import Chisaka.Kheap.Slab.BufferSpec

/-!
# Slabs that share a memory

Several slabs in disjoint regions of one memory, and the addresses that are live in any of them.
`Slabs` says that each of them, with the addresses that are live in it, is `Chained`.

An allocation from one slab, a deallocation, and a write into a live buffer leave the other slabs as
they are: whatever they write lies in one region.  Links between descriptors do not matter here, and
nothing is said about who keeps the descriptors.
-/

set_option autoImplicit false

namespace Chisaka.Slab

open Bytes Chain ListDescriptor

variable {h h' : Heap} {a d x : ℕ} {ld ld' : ListDescriptor} {added live : List ℕ} {m : Memory}

/-- The live addresses in the region of a descriptor. -/
def liveIn (h : Heap) (live : List ℕ) (d : ℕ) : List ℕ := live.filter fun a ↦ h.contains a d

/-- A byte that clients may write: one outside all slabs, or one of a live buffer. -/
def Writable (h : Heap) (added live : List ℕ) (x : ℕ) : Prop :=
  (∀ d ∈ added, h.contains x d = false) ∨
    ∃ d ∈ added, ∃ ld, h.descs d = some ld ∧ ∃ a ∈ liveIn h live d, a ≤ x ∧ x < a + ld.bufferSize

/-- **Slabs in disjoint regions, and the addresses that are live in them.** -/
structure Slabs (h : Heap) (added live : List ℕ) : Prop where
  /-- Every slab is chained. -/
  chained : ∀ d ∈ added, ∃ ld e, h.descs d = some ld ∧ Chained h.mem ld (liveIn h live d) e
  /-- The regions are disjoint. -/
  disjoint : ∀ d ∈ added, ∀ d' ∈ added, ∀ x, h.contains x d → h.contains x d' → d = d'
  /-- What is live lies in one of the regions. -/
  owned : ∀ a ∈ live, ∃ d ∈ added, h.contains a d
  /-- Nothing is handed out twice. -/
  nodup : live.Nodup

/-! ## Regions -/

theorem contains_eq (he : h.descs d = some ld) : h.contains a d = ld.objectInRange a := by
  simp [Heap.contains, he]

theorem Heap.SameSlabs.symm (hs : Heap.SameSlabs h h') : Heap.SameSlabs h' h :=
  ⟨hs.mem.symm, hs.slab.symm⟩

theorem Heap.SameSlabs.contains (hs : Heap.SameSlabs h h') : h'.contains a d = h.contains a d := by
  cases he : h.descs d with
  | some ld => rw [contains_eq he, contains_eq (hs.desc he)]; rfl
  | none =>
    cases he' : h'.descs d with
    | none => rw [Heap.contains, Heap.contains, he, he']
    | some ld =>
      have hsome := hs.symm.desc he'
      rw [he] at hsome
      cases hsome

theorem contains_setSlab (he : h.descs d = some ld) (hrev : ld.Revises ld') :
    (h.setSlab d m ld').contains a x = h.contains a x := by
  by_cases hx : x = d
  · subst hx
    rw [contains_eq he, contains_eq (Heap.descs_setSlab_self h x m ld'), hrev.1]
    rfl
  · rw [Heap.contains, Heap.contains, Heap.descs_setSlab_of_ne h m ld' hx]

theorem liveIn_setSlab (he : h.descs d = some ld) (hrev : ld.Revises ld') :
    liveIn (h.setSlab d m ld') live x = liveIn h live x :=
  List.filter_congr fun _ _ ↦ contains_setSlab he hrev

theorem mem_liveIn : a ∈ liveIn h live d ↔ a ∈ live ∧ h.contains a d := by
  rw [liveIn, List.mem_filter]

/-- A buffer lies in the region of its descriptor. -/
theorem contains_of_mem_slots (he : h.descs d = some ld) (hs : ld.Sized) (ha : a ∈ ld.slots)
    (hx : a ≤ x) (hxa : x < a + ld.bufferSize) : h.contains x d := by
  have h1 := hs.bounds ha
  have h2 := hs.fits
  rw [contains_eq he, ListDescriptor.objectInRange, hs.limit_eq, decide_eq_true_eq]
  omega

namespace Slabs

/-- The slabs after links have changed. -/
theorem of_sameSlabs (hs : Slabs h added live) (hh : Heap.SameSlabs h h') :
    Slabs h' added live := by
  have hlive : ∀ d, liveIn h' live d = liveIn h live d := fun d ↦
    List.filter_congr fun a _ ↦ hh.contains
  refine ⟨fun d hd ↦ ?_, fun d hd d' hd' x ↦ ?_, fun a ha ↦ ?_, hs.nodup⟩
  · obtain ⟨ld, e, he, hch⟩ := hs.chained d hd
    refine ⟨_, e, hh.desc he, ?_⟩
    rw [hlive, hh.mem]
    exact hch.of_links _ _
  · rw [hh.contains, hh.contains]
    exact hs.disjoint d hd d' hd' x
  · obtain ⟨d, hd, hc⟩ := hs.owned a ha
    exact ⟨d, hd, hh.contains.trans hc⟩

/-- One slab has changed, and nothing in the regions of the others. -/
theorem of_setSlab {live' : List ℕ} {e : ℕ} (hs : Slabs h added live)
    (he : h.descs d = some ld) (hrev : ld.Revises ld')
    (hch : Chained m ld' (liveIn h live' d) e) (hnd : live'.Nodup)
    (hlive : ∀ x ∈ added, x ≠ d → liveIn h live' x = liveIn h live x)
    (hown : ∀ a ∈ live', ∃ x ∈ added, h.contains a x)
    (hmem : ∀ x ∈ added, x ≠ d → ∀ ldx, h.descs x = some ldx → ∀ b ∈ ldx.free (liveIn h live x),
      readWord m b = readWord h.mem b) : Slabs (h.setSlab d m ld') added live' := by
  refine ⟨fun x hx ↦ ?_, fun x hx y hy z ↦ ?_, fun a ha ↦ ?_, hnd⟩
  · rw [liveIn_setSlab he hrev]
    by_cases hxd : x = d
    · subst hxd
      exact ⟨ld', e, Heap.descs_setSlab_self h x m ld', hch⟩
    · obtain ⟨ldx, ex, hex, hchx⟩ := hs.chained x hx
      refine ⟨ldx, ex, (Heap.descs_setSlab_of_ne h m ld' hxd).trans hex, ?_⟩
      rw [hlive x hx hxd]
      exact hchx.congr (hmem x hx hxd ldx hex)
  · rw [contains_setSlab he hrev, contains_setSlab he hrev]
    exact hs.disjoint x hx y hy z
  · obtain ⟨x, hx, hc⟩ := hown a ha
    exact ⟨x, hx, (contains_setSlab he hrev).trans hc⟩

/-- **An allocation from one of the slabs.** -/
theorem allocate (hs : Slabs h added live) (hd : d ∈ added) (he : h.descs d = some ld)
    (hne : ld.buffersUsed ≠ ld.totalBuffers) :
    ∃ a ld', ld.allocate h.mem = .ok (a, ld') ∧ a ∈ ld.slots ∧ a ∉ live ∧ a ≠ 0 ∧
      (ld.Revises ld' ∧ ld'.buffersUsed = ld.buffersUsed + 1) ∧
      Slabs (h.setSlab d h.mem ld') added (a :: live) := by
  obtain ⟨ld₀, e, he₀, hch⟩ := hs.chained d hd
  obtain rfl : ld₀ = ld := Option.some.inj (he₀.symm.trans he)
  obtain ⟨a, rest, ld', e', hfree, hal, hch', -, hld⟩ := hch.allocate hne
  obtain ⟨hslot, hnot⟩ := mem_free.mp (hfree ▸ List.mem_cons_self)
  have hin : h.contains a d := (contains_eq he).trans (hch.sized.objectInRange hslot)
  have hal' : a ∉ live := fun ha ↦ hnot (mem_liveIn.mpr ⟨ha, hin⟩)
  have hused : ld'.buffersUsed = ld₀.buffersUsed + 1 := by rw [hld]
  have hrev : ld₀.Revises ld' := by
    refine ⟨by rw [hused]; exact hld, ?_⟩
    have hlen := hch.length_eq
    rw [hfree, List.length_cons] at hlen
    omega
  have hcons : liveIn h (a :: live) d = a :: liveIn h live d := List.filter_cons_of_pos hin
  refine ⟨a, ld', hal, hslot, hal', hch.sized.pos hslot, ⟨hrev, hused⟩,
    hs.of_setSlab he hrev (hcons ▸ hch') (List.nodup_cons.mpr ⟨hal', hs.nodup⟩)
      (fun x hx hxd ↦ List.filter_cons_of_neg fun hc ↦ hxd (hs.disjoint x hx d hd a hc hin))
      (fun b hb ↦ ?_) fun _ _ _ _ _ _ _ ↦ rfl⟩
  rcases List.mem_cons.mp hb with rfl | hb
  · exact ⟨d, hd, hin⟩
  · exact hs.owned b hb

/-- **A deallocation of a live address.** -/
theorem deallocate (hs : Slabs h added live) (ha : a ∈ live) :
    ∃ d ∈ added, h.contains a d ∧ ∃ ld m ld', h.descs d = some ld ∧
      ld.deallocate h.mem a = .ok (m, ld') ∧
      (ld.Revises ld' ∧ ld'.buffersUsed + 1 = ld.buffersUsed) ∧
      Slabs (h.setSlab d m ld') added (live.erase a) := by
  obtain ⟨d, hd, hin⟩ := hs.owned a ha
  obtain ⟨ld, e, he, hch⟩ := hs.chained d hd
  have hl : a ∈ liveIn h live d := mem_liveIn.mpr ⟨ha, hin⟩
  obtain ⟨m, ld', hde, hch', hw, hld⟩ := hch.deallocate hl
  have hused : ld'.buffersUsed = ld.buffersUsed - 1 := by rw [hld]
  have hpos : 0 < ld.buffersUsed := by
    rw [hch.used]
    exact List.length_pos_of_mem hl
  have hle : ld.buffersUsed ≤ ld.totalBuffers := by
    have hlen := hch.length_eq
    omega
  have hrev : ld.Revises ld' := ⟨by rw [hused]; exact hld, by omega⟩
  have herase : ∀ x, liveIn h (live.erase a) x = (liveIn h live x).erase a := fun x ↦ by
    rw [liveIn, liveIn, hs.nodup.erase_eq_filter, (hs.nodup.filter _).erase_eq_filter,
      List.filter_comm]
  refine ⟨d, hd, hin, ld, m, ld', he, hde, ⟨hrev, by omega⟩,
    hs.of_setSlab he hrev (by rw [herase]; exact hch') (hs.nodup.erase a) (fun x hx hxd ↦ ?_)
      (fun b hb ↦ hs.owned b (List.mem_of_mem_erase hb)) fun x hx hxd ldx hex b hb ↦ ?_⟩
  · rw [herase, List.erase_of_not_mem]
    exact fun hax ↦ hxd (hs.disjoint x hx d hd a (mem_liveIn.mp hax).2 hin)
  · -- what was written lies in the region of `d`
    obtain ⟨ldx', ex, hex', hchx⟩ := hs.chained x hx
    obtain rfl : ldx' = ldx := Option.some.inj (hex'.symm.trans hex)
    have hbs := (mem_free.mp hb).1
    refine hw.readWord fun c hc ↦ ?_
    have hcs : c ∈ ld.slots := by
      rcases List.mem_cons.mp hc with rfl | hc
      · exact hch.sub c hl
      · exact (mem_free.mp hc).1
    have h1 := hchx.sized.size_le
    have h2 := hch.sized.size_le
    by_contra hover
    refine hxd (hs.disjoint x hx d hd (max b c) ?_ ?_)
    · exact contains_of_mem_slots hex hchx.sized hbs (le_max_left b c) (by omega)
    · exact contains_of_mem_slots he hch.sized hcs (le_max_right b c) (by omega)

/-- **Writes into live buffers**, and outside the slabs. -/
theorem write (hs : Slabs h added live) (hdescs : ∀ d ∈ added, h'.descs d = h.descs d)
    (hmem : ∀ x, ¬Writable h added live x → h'.mem x = h.mem x) : Slabs h' added live := by
  have hc : ∀ d ∈ added, ∀ x, h'.contains x d = h.contains x d := fun d hd x ↦ by
    rw [Heap.contains, Heap.contains, hdescs d hd]
  refine ⟨fun d hd ↦ ?_, fun d hd d' hd' x ↦ ?_, fun a ha ↦ ?_, hs.nodup⟩
  · obtain ⟨ld, e, he, hch⟩ := hs.chained d hd
    have hl : liveIn h' live d = liveIn h live d := List.filter_congr fun a _ ↦ hc d hd a
    refine ⟨ld, e, (hdescs d hd).trans he, ?_⟩
    rw [hl]
    refine hch.congr fun b hb ↦ readWord_congr fun x hbx hxb ↦ hmem x ?_
    obtain ⟨hbs, hbl⟩ := mem_free.mp hb
    have hsize := hch.sized.size_le
    have hin : h.contains x d := contains_of_mem_slots he hch.sized hbs hbx (by omega)
    rintro (hout | ⟨d', hd', ld', he', a, ha, hax, hxa⟩)
    · rw [hout d hd] at hin
      cases hin
    · obtain ⟨ld₁, e₁, he₁, hch₁⟩ := hs.chained d' hd'
      obtain rfl : ld₁ = ld' := Option.some.inj (he₁.symm.trans he')
      have has := hch₁.sub a ha
      obtain rfl : d = d' := hs.disjoint d hd d' hd' x hin
        (contains_of_mem_slots he₁ hch₁.sized has hax hxa)
      obtain rfl : ld₁ = ld := Option.some.inj (he₁.symm.trans he)
      have hdis := hch.sized.disjoint has hbs fun h0 ↦ hbl (h0 ▸ ha)
      omega
  · rw [hc d hd, hc d' hd']
    exact hs.disjoint d hd d' hd' x
  · obtain ⟨d, hd, hin⟩ := hs.owned a ha
    exact ⟨d, hd, (hc d hd a).trans hin⟩

/-- What is live in a slab is one of its buffers. -/
theorem mem_slots_of_live (hs : Slabs h added live) (hd : d ∈ added) (he : h.descs d = some ld)
    (ha : a ∈ live) (hin : h.contains a d) : ld.Sized ∧ a ∈ ld.slots := by
  obtain ⟨ld₀, e, he₀, hch⟩ := hs.chained d hd
  obtain rfl : ld₀ = ld := Option.some.inj (he₀.symm.trans he)
  exact ⟨hch.sized, hch.sub a (mem_liveIn.mpr ⟨ha, hin⟩)⟩

/-- **Live buffers do not overlap**, whatever slabs they lie in. -/
theorem live_disjoint {b d' : ℕ} (hs : Slabs h added live) (hd : d ∈ added)
    (he : h.descs d = some ld) (ha : a ∈ live) (hin : h.contains a d) (hd' : d' ∈ added)
    (he' : h.descs d' = some ld') (hb : b ∈ live) (hin' : h.contains b d') (hne : a ≠ b) :
    a + ld.bufferSize ≤ b ∨ b + ld'.bufferSize ≤ a := by
  obtain ⟨hsized, has⟩ := hs.mem_slots_of_live hd he ha hin
  obtain ⟨hsized', hbs⟩ := hs.mem_slots_of_live hd' he' hb hin'
  by_cases hdd : d = d'
  · subst hdd
    obtain rfl : ld = ld' := Option.some.inj (he.symm.trans he')
    exact hsized.disjoint has hbs hne
  · -- an overlap would lie in both regions
    by_contra hover
    have h1 := hsized.size_le
    have h2 := hsized'.size_le
    refine hdd (hs.disjoint d hd d' hd' (max a b) ?_ ?_)
    · exact contains_of_mem_slots he hsized has (le_max_left a b) (by omega)
    · exact contains_of_mem_slots he' hsized' hbs (le_max_right a b) (by omega)

theorem nil (h : Heap) : Slabs h [] [] := ⟨nofun, nofun, nofun, List.nodup_nil⟩

/-- **Another slab**, in a region of its own. -/
theorem cons {held : List ℕ} {e : ℕ} (hs : Slabs h added live) (he : h.descs d = some ld)
    (hch : Chained h.mem ld held e)
    (hdis : ∀ d' ∈ added, ∀ x, h.contains x d → h.contains x d' → False) :
    Slabs h (d :: added) (held ++ live) := by
  have hheld : ∀ a ∈ held, h.contains a d := fun a ha ↦
    (contains_eq he).trans (hch.sized.objectInRange (hch.sub a ha))
  have hnew : ∀ a ∈ live, ¬h.contains a d := fun a ha hc ↦ by
    obtain ⟨d', hd', hc'⟩ := hs.owned a ha
    exact hdis d' hd' a hc hc'
  refine ⟨fun x hx ↦ ?_, fun x hx y hy z hxz hyz ↦ ?_, fun a ha ↦ ?_, ?_⟩
  · rw [liveIn, List.filter_append]
    rcases List.mem_cons.mp hx with rfl | hx
    · refine ⟨ld, e, he, ?_⟩
      rw [List.filter_eq_self.mpr hheld, List.filter_eq_nil_iff.mpr hnew, List.append_nil]
      exact hch
    · obtain ⟨ldx, ex, hex, hchx⟩ := hs.chained x hx
      refine ⟨ldx, ex, hex, ?_⟩
      rw [List.filter_eq_nil_iff.mpr fun a ha hc ↦ hdis x hx a (hheld a ha) hc, List.nil_append]
      exact hchx
  · rcases List.mem_cons.mp hx with rfl | hxa
    · rcases List.mem_cons.mp hy with rfl | hya
      · rfl
      · exact (hdis y hya z hxz hyz).elim
    · rcases List.mem_cons.mp hy with rfl | hya
      · exact (hdis x hxa z hyz hxz).elim
      · exact hs.disjoint x hxa y hya z hxz hyz
  · rcases List.mem_append.mp ha with ha | ha
    · exact ⟨d, List.mem_cons_self, hheld a ha⟩
    · obtain ⟨x, hx, hc⟩ := hs.owned a ha
      exact ⟨x, List.mem_cons_of_mem d hx, hc⟩
  · exact List.nodup_append.mpr ⟨hch.nodup, hs.nodup, fun a ha b hb hab ↦
      hnew b hb (hab ▸ hheld a ha)⟩

end Slabs

end Chisaka.Slab
