import Mathlib.Data.List.GetD
import Mathlib.Data.List.Nodup
import Chisaka.Lib.Chain
import Chisaka.Fs.Merofs.FileDescriptorManager

/-!
# The chunks of the file descriptors

The chunks of a `FileDescriptorTable` are a chain (`Chained`), from `m_root` along the links and
ended by null.  A chain of `m` chunks has entries for the descriptors below `32 * m`.

* `finds_iff` says for which descriptors `Get` and `Remove` find their entry: they take one link at
  most, and none for 32, so it is those of the first chunk, and of the second all but the first.
* `appends_never` says that `AllocateChunk` appends to no chain: when it has linked the new chunk it
  goes on to that chunk and links it to itself, for ever (`allocateChunk_diverges`).
* `NumberOfChunks` counts links, which are one fewer than the chunks (`numberOfChunks_eq`).
-/

set_option autoImplicit false

namespace Chisaka.Merofs.FileDescriptorTable

/-! ## Chains of chunks -/

/-- The link of the chunk at an address. -/
def nextOf (t : FileDescriptorTable) (p : ℕ) : ℕ := (t.chunks p).elim 0 TableChunk.next

/-- The chunks of the table are those of `L`, in this order, and then there is null. -/
structure Chained (t : FileDescriptorTable) (L : List ℕ) : Prop where
  /-- The links lead through `L` to null. -/
  seg : Chain.Seg t.nextOf t.root L 0
  /-- No chunk is twice in the chain. -/
  nodup : L.Nodup
  /-- No chunk is null. -/
  ne_null : ∀ p ∈ L, p ≠ 0
  /-- The chunks are alive. -/
  live : ∀ p ∈ L, ∃ c, t.chunks p = some c

variable {t t' : FileDescriptorTable} {L : List ℕ} {p i fresh : ℕ} {fd fd' : UInt8}
  {c : TableChunk} {e : EntryPtr}

theorem deref_of_live (hp : p ≠ 0) (hc : t.chunks p = some c) : t.deref p = .ok c := by
  rw [deref, if_neg hp, hc]
  rfl

theorem nextOf_of_live (hc : t.chunks p = some c) : t.nextOf p = c.next := by
  rw [nextOf, hc]
  rfl

theorem setChunk_of_ne {q : ℕ} (hq : q ≠ p) : (t.setChunk p c).chunks q = t.chunks q :=
  Function.update_of_ne hq _ _

/-- A chunk of the chain can be followed, and its link is the one of the chain. -/
theorem Chained.deref (h : Chained t L) (hp : p ∈ L) :
    ∃ c, t.deref p = .ok c ∧ c.next = t.nextOf p := by
  obtain ⟨c, hc⟩ := h.live p hp
  exact ⟨c, deref_of_live (h.ne_null p hp) hc, (nextOf_of_live hc).symm⟩

/-- An entry of a chunk of the chain is there if its index is below 32. -/
theorem Chained.entry (h : Chained t L) (hp : p ∈ L) :
    t.entry p i = if i < entries then .ok ⟨p, i⟩ else .error .dangling := by
  obtain ⟨c, hc, -⟩ := h.deref hp
  rw [FileDescriptorTable.entry, hc]
  rfl

/-! ## Looking up a descriptor -/

/-- `Get` and `Remove` find an entry for `fd` in a chunk of the chain; they find the same one, and
`Get` finds it for no other descriptor that the chain has an entry for. -/
def Finds (t : FileDescriptorTable) (L : List ℕ) (fd : UInt8) : Prop :=
  ∃ e, t.get fd = .ok e ∧ e.chunk ∈ L ∧ e.index < entries ∧
    (∃ t', t.write e { fd := nullFd } = .ok t' ∧ t.remove fd = .ok t') ∧
    ∀ fd' : UInt8, fd'.toNat < entries * L.length → fd' ≠ fd → t.get fd' ≠ .ok e

/-- Where `fd` is looked up. -/
def place (L : List ℕ) (fd : UInt8) : EntryPtr :=
  if entries < fd.toNat then ⟨L.getD 1 0, fd.toNat - entries⟩ else ⟨L.getD 0 0, fd.toNat⟩

theorem place_mem (hfd : fd.toNat < entries * L.length) : (place L fd).chunk ∈ L := by
  rw [place]
  split
  · rename_i hlt
    have hlen : 1 < L.length := by
      rw [entries] at hlt hfd
      omega
    rw [List.getD_eq_getElem _ _ hlen]
    exact List.getElem_mem hlen
  · have hlen : 0 < L.length := Nat.pos_of_ne_zero fun h0 ↦ by simp [h0] at hfd
    rw [List.getD_eq_getElem _ _ hlen]
    exact List.getElem_mem hlen

/-- **At most one link is taken** to look up a descriptor. -/
theorem Chained.entryOf (h : Chained t L) (hfd : fd.toNat < entries * L.length) :
    t.entryOf fd = t.entry (place L fd).chunk (place L fd).index := by
  have hmem := place_mem hfd
  rw [FileDescriptorTable.entryOf]
  obtain - | ⟨r, l⟩ := L
  · cases hmem
  obtain ⟨hroot, hrest⟩ := h.seg
  rw [place] at hmem ⊢
  split
  · rename_i hlt
    obtain ⟨c, hc, hnext⟩ := h.deref (p := r) List.mem_cons_self
    rw [hroot, hc, Exec.ok_bind, hnext, hrest.head_eq]
    cases l <;> rfl
  · rw [hroot]
    rfl

/-- **A descriptor has an entry** when its index there is below 32. -/
theorem Chained.get_eq_ok (h : Chained t L) (hfd : fd.toNat < entries * L.length) :
    t.get fd = .ok e ↔ (fd.toNat ≠ entries ∧ fd.toNat < 2 * entries) ∧ e = place L fd := by
  have hindex : (place L fd).index < entries ↔ fd.toNat ≠ entries ∧ fd.toNat < 2 * entries := by
    rw [place, entries]
    split <;> simp only <;> omega
  rw [FileDescriptorTable.get, h.entryOf hfd, h.entry (place_mem hfd), ← hindex]
  split
  · rename_i hlt
    rw [Except.ok.injEq, and_iff_right hlt]
    exact eq_comm
  · rename_i hlt
    exact iff_of_false nofun fun he ↦ hlt he.1

/-- The first two chunks are different. -/
theorem Chained.first_ne_second (h : Chained t L) (hlen : 1 < L.length) :
    L.getD 1 0 ≠ L.getD 0 0 := by
  have hlen0 : 0 < L.length := Nat.zero_lt_of_lt hlen
  rw [List.getD_eq_getElem _ _ hlen, List.getD_eq_getElem _ _ hlen0]
  exact fun he ↦ absurd (h.nodup.getElem_inj_iff.mp he) (by decide)

/-- Different descriptors are looked up in different places. -/
theorem Chained.place_inj (h : Chained t L) (hfd : fd.toNat < entries * L.length)
    (hfd' : fd'.toNat < entries * L.length) (he : place L fd = place L fd') : fd = fd' := by
  refine UInt8.toNat_inj.mp ?_
  have hsecond : ∀ d : UInt8, d.toNat < entries * L.length → entries < d.toNat →
      1 < L.length := by
    intro d hd hlt
    rw [entries] at hd hlt
    omega
  rw [place, place] at he
  split at he <;> split at he <;> rename_i hlt hlt'
  · have := (EntryPtr.mk.inj he).2
    omega
  · exact absurd (EntryPtr.mk.inj he).1 (h.first_ne_second (hsecond fd hfd hlt))
  · exact absurd (EntryPtr.mk.inj he).1.symm (h.first_ne_second (hsecond fd' hfd' hlt'))
  · exact (EntryPtr.mk.inj he).2

/-- **A descriptor is found exactly when** it is not 32, and below 64. -/
theorem finds_iff (h : Chained t L) (hfd : fd.toNat < entries * L.length) :
    Finds t L fd ↔ fd.toNat ≠ entries ∧ fd.toNat < 2 * entries := by
  constructor
  · rintro ⟨e, he, -⟩
    exact ((h.get_eq_ok hfd).mp he).1
  · intro hok
    have hmem := place_mem hfd
    have hget : t.get fd = .ok (place L fd) := (h.get_eq_ok hfd).mpr ⟨hok, rfl⟩
    have hindex : (place L fd).index < entries := by
      rw [place, entries] at *
      split <;> simp only <;> omega
    obtain ⟨c, hc, -⟩ := h.deref hmem
    have hwrite : t.write (place L fd) { fd := nullFd } = .ok (t.setChunk (place L fd).chunk
        { c with table := Function.update c.table (place L fd).index { fd := nullFd } }) := by
      rw [FileDescriptorTable.write, hc]
      rfl
    refine ⟨place L fd, hget, hmem, hindex, ⟨_, hwrite, ?_⟩, fun fd' hfd' hne he' ↦ ?_⟩
    · rw [FileDescriptorTable.remove, show t.entryOf fd = .ok (place L fd) from hget]
      exact hwrite
    · exact hne (h.place_inj hfd hfd' ((h.get_eq_ok hfd').mp he').2).symm

/-- A table of two chunks. -/
def twoChunks : FileDescriptorTable where
  root := 0x1000
  chunks := Function.update (Function.update (fun _ ↦ none) 0x2000 (some {})) 0x1000
    (some { next := 0x2000 })

theorem chained_twoChunks : Chained twoChunks [0x1000, 0x2000] where
  seg := ⟨rfl, rfl, rfl⟩
  nodup := by decide
  ne_null := by decide
  live p hp := by
    simp only [List.mem_cons, List.not_mem_nil, or_false] at hp
    obtain rfl | rfl := hp
    · exact ⟨_, rfl⟩
    · exact ⟨_, rfl⟩

theorem finds_iff_twoChunks : Finds twoChunks [0x1000, 0x2000] 33 ↔
    (33 : UInt8).toNat ≠ entries ∧ (33 : UInt8).toNat < 2 * entries :=
  finds_iff chained_twoChunks (by decide)

/-- **The 33rd descriptor of two chunks** is looked up behind the end of the first one. -/
theorem not_finds_twoChunks : ¬∀ (t : FileDescriptorTable) (L : List ℕ) (fd : UInt8),
    Chained t L → fd.toNat < entries * L.length → Finds t L fd := by
  intro h
  obtain ⟨e, he, -⟩ := h twoChunks [0x1000, 0x2000] 32 chained_twoChunks (by decide)
  exact ((chained_twoChunks.get_eq_ok (by decide)).mp he).1.1 rfl

/-! ## Counting the chunks -/

/-- The loop of `NumberOfChunks`. -/
def numberOfChunksBody (t : FileDescriptorTable) : ℕ × ℕ → Exec ((ℕ × ℕ) ⊕ ℕ)
  | (tableIndexer, count) => do
    let c ← t.deref tableIndexer
    if c.next ≠ 0 then return .inl (c.next, count + 1) else return .inr count

/-- `NumberOfChunks`. -/
def numberOfChunks (t : FileDescriptorTable) : Exec ℕ :=
  if t.root = 0 then return 0 else Loop.exec t.numberOfChunksBody (t.root, 0)

/-- **`NumberOfChunks` counts the links**, not the chunks. -/
theorem numberOfChunks_eq (h : Chained t L) (hne : L ≠ []) (hlen : L.length < Loop.rounds) :
    t.numberOfChunks = .ok (L.length - 1) := by
  have hroot : t.root ≠ 0 := h.seg.ne_end hne fun h0 ↦ h.ne_null 0 h0 rfl
  have hrun : ∃ r, Loop.run t.numberOfChunksBody Loop.rounds (t.root, 0) = .ok r ∧
      r = L.length - 1 := by
    -- what is left to count is the rest of the chain
    refine Loop.run_of_variant (fun n s ↦ ∃ l, l ≠ [] ∧ l ⊆ L ∧ Chain.Seg t.nextOf s.1 l 0 ∧
      l.length = n ∧ s.2 + n = L.length) _ ?_
      ⟨L, hne, List.Subset.refl L, h.seg, rfl, Nat.zero_add _⟩ hlen
    rintro n ⟨p, count⟩ ⟨l, hl, hsub, hseg, rfl, hcount⟩
    obtain ⟨x, l, rfl⟩ := List.exists_cons_of_ne_nil hl
    obtain ⟨rfl, hrest⟩ : p = x ∧ Chain.Seg t.nextOf (t.nextOf x) l 0 := hseg
    obtain ⟨c, hc, hnext⟩ := h.deref (hsub List.mem_cons_self)
    rw [List.length_cons] at hcount
    rw [numberOfChunksBody, hc, Exec.ok_bind, hnext]
    cases l with
    | nil =>
      have h0 : t.nextOf p = 0 := hrest
      rw [h0]
      exact .inl ⟨count, rfl, (Nat.sub_eq_of_eq_add hcount.symm).symm⟩
    | cons y l =>
      have hy : y ≠ 0 := h.ne_null y (hsub (List.mem_cons_of_mem p List.mem_cons_self))
      rw [hrest.1, if_pos hy]
      refine .inr ⟨(y :: l).length, (y, count + 1), Nat.lt_succ_self _, rfl, y :: l,
        List.cons_ne_nil _ _, fun q hq ↦ hsub (List.mem_cons_of_mem p hq), ⟨rfl, hrest.2⟩, rfl, ?_⟩
      simp only
      omega
  obtain ⟨r, hr, rfl⟩ := hrun
  rw [numberOfChunks, if_neg hroot]
  exact hr

/-! ## Appending a chunk -/

/-- `AllocateChunk` returns, it appends the new chunk to the chain, and `NumberOfChunks` counts
it. -/
def Appends (t : FileDescriptorTable) (L : List ℕ) (fresh : ℕ) : Prop :=
  ∃ t', t.allocateChunk fresh = .ok t' ∧ Chained t' (L ++ [fresh]) ∧
    t'.numberOfChunks = .ok (L.length + 1)

/-- The links of the chunks `S` do not lead out of `S`, except to null. -/
def Closed (S : List ℕ) (t : FileDescriptorTable) : Prop :=
  ∀ p ∈ S, p ≠ 0 ∧ ∃ c, t.chunks p = some c ∧ (c.next = 0 ∨ c.next ∈ S)

/-- A link of the chain leads into the chain or to null. -/
theorem Chained.nextOf_mem (h : Chained t L) (hp : p ∈ L) : t.nextOf p = 0 ∨ t.nextOf p ∈ L := by
  obtain ⟨l, m, rfl⟩ := List.append_of_mem hp
  rw [h.seg.next_eq]
  cases m with
  | nil => exact .inl rfl
  | cons y m => exact .inr (by simp)

/-- A chunk may get any link that stays in `S`. -/
theorem Closed.setChunk {S : List ℕ} (h : Closed S t) (hp : p ∈ S → p ≠ 0)
    (hc : c.next = 0 ∨ c.next ∈ S) : Closed S (t.setChunk p c) := by
  intro q hq
  by_cases hqp : q = p
  · subst hqp
    exact ⟨hp hq, c, Function.update_self _ _ _, hc⟩
  · obtain ⟨hq0, d, hd, hnext⟩ := h q hq
    exact ⟨hq0, d, (setChunk_of_ne hqp).trans hd, hnext⟩

/-- **A round of `AllocateChunk` in `S` leads to another one**: it follows a link, or it makes a
link to the new chunk. -/
theorem Closed.allocateChunkBody {S : List ℕ} (h : Closed S t) (hp : p ∈ S) (hfresh : fresh ∈ S) :
    ∃ t' p', allocateChunkBody fresh (t, p) = .ok (.inl (t', p')) ∧ Closed S t' ∧ p' ∈ S := by
  obtain ⟨hp0, c, hc, hnext⟩ := h p hp
  rw [FileDescriptorTable.allocateChunkBody, if_pos hp0, deref_of_live hp0 hc, Exec.ok_bind]
  by_cases h0 : c.next = 0
  · rw [if_neg (not_not.mpr h0)]
    exact ⟨_, p, rfl, h.setChunk (fun _ ↦ hp0) (.inr hfresh), hp⟩
  · rw [if_pos h0]
    exact ⟨t, c.next, rfl, h, hnext.resolve_left h0⟩

/-- **`AllocateChunk` does not end**, however many rounds it is given. -/
theorem allocateChunk_diverges (h : Chained t L) (hne : L ≠ []) (hfresh : fresh ≠ 0) :
    ∃ t', t.newChunk fresh = .ok t' ∧
      ∀ n, Loop.run (allocateChunkBody fresh) n (t', t'.root) = .error .diverges := by
  have hroot : t.root ∈ L := by
    obtain ⟨r, l, rfl⟩ := List.exists_cons_of_ne_nil hne
    rw [h.seg.1]
    exact List.mem_cons_self
  have hclosed : Closed (fresh :: L) (t.setChunk fresh {}) := by
    intro q hq
    by_cases hqf : q = fresh
    · subst hqf
      exact ⟨hfresh, {}, Function.update_self _ _ _, .inl rfl⟩
    · have hqL : q ∈ L := (List.mem_cons.mp hq).resolve_left hqf
      obtain ⟨c, hc⟩ := h.live q hqL
      have hnext := h.nextOf_mem hqL
      rw [nextOf_of_live hc] at hnext
      exact ⟨h.ne_null q hqL, c, (setChunk_of_ne hqf).trans hc,
        hnext.imp_right (List.mem_cons_of_mem _)⟩
  refine ⟨t.setChunk fresh {}, if_neg hfresh, fun n ↦ ?_⟩
  refine Loop.run_diverges (fun s ↦ Closed (fresh :: L) s.1 ∧ s.2 ∈ fresh :: L) ?_ n
    ⟨hclosed, List.mem_cons_of_mem _ hroot⟩
  rintro ⟨t₁, p⟩ ⟨ht₁, hp⟩
  obtain ⟨t₂, p₂, hb, ht₂, hp₂⟩ := ht₁.allocateChunkBody hp List.mem_cons_self
  exact ⟨(t₂, p₂), hb, ht₂, hp₂⟩

/-- So it does not return. -/
theorem allocateChunk_ne_ok (h : Chained t L) (hne : L ≠ []) : t.allocateChunk fresh ≠ .ok t' := by
  intro ht'
  obtain ⟨t₁, h₁, hrun⟩ := Exec.bind_eq_ok.mp ht'
  have hfresh : fresh ≠ 0 := by
    rintro rfl
    cases h₁
  obtain ⟨t₂, h₂, hdiv⟩ := allocateChunk_diverges h hne hfresh
  obtain rfl := Except.ok.inj (h₁.symm.trans h₂)
  exact absurd ((hdiv Loop.rounds).symm.trans hrun) nofun

/-- **`AllocateChunk` appends to no chain.** -/
theorem appends_never (h : Chained t L) (hne : L ≠ []) : ¬Appends t L fresh :=
  fun ⟨_, ht', _⟩ ↦ allocateChunk_ne_ok h hne ht'

theorem appends_never_twoChunks : ¬Appends twoChunks [0x1000, 0x2000] 0x3000 :=
  appends_never chained_twoChunks (by decide)

/-- A new table is a chain of one chunk. -/
theorem chained_newTable : Chained newTable.table [0x1000] where
  seg := ⟨rfl, rfl⟩
  nodup := by decide
  ne_null := by decide
  live p hp := by
    rw [List.mem_singleton.mp hp]
    exact ⟨{}, rfl⟩

/-- **A second chunk** is already one too many. -/
theorem not_appends_newTable : ¬∀ (t : FileDescriptorTable) (L : List ℕ) (fresh : ℕ),
    Chained t L → L ≠ [] → fresh ≠ 0 → t.chunks fresh = none → Appends t L fresh := by
  intro h
  obtain ⟨t', ht', -⟩ := h newTable.table [0x1000] 0x2000 chained_newTable (by decide) (by decide)
    rfl
  exact allocateChunk_ne_ok chained_newTable (by decide) ht'

end Chisaka.Merofs.FileDescriptorTable
