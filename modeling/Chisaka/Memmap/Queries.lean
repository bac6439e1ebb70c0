import Mathlib.Data.List.TakeWhile
import Mathlib.Order.Bounds.Basic
import Chisaka.Memmap.MemoryMap

/-!
# The queries of the memory map

`MemoryMap` answers three questions about its `Useable` entries, and looks for the answers in fixed
places of the array:

* `HighestUseableAddress` is the last address of the entry before the first `Empty` one, whatever
  the type of that entry is;
* `LowestUseableAddress` is the base of the first entry;
* `LongestUseableBase` goes through the `Useable` entries, but the length it starts with is that of
  the first entry.

So the answers are right for a map that starts and ends with the right `Useable` entries.
`Placed` says what that comes to, and `answersRight_iff` that nothing less will do.
-/

set_option autoImplicit false

namespace Chisaka

namespace MemoryMap

/-- `m_entries[i]`. -/
def entry (m : MemoryMap) (i : ℕ) : Exec MemoryMapEntry :=
  m.entries[i]?.elim (.error .dangling) .ok

/-- `Init(src)`. -/
def init (src : List MemoryMapEntry) : Exec MemoryMap :=
  if h : src.length < maxEntries then .ok (.ofList src h.le) else .error .assertFailed

/-- `HighestUseableAddress`.  The loop stops at the first `Empty` entry; if that is the first entry
of all, `i-1` wraps around. -/
def highestUseableAddress (m : MemoryMap) : Exec UInt64 := do
  let i? ← (List.range maxEntries).findM? fun i ↦ do
    let e ← m.entry i
    return decide (e.type = .Empty)
  match i? with
  | none => return 0
  | some i =>
    let e ← m.entry (sub64 i 1)
    return e.base + e.length - 1

/-- `LowestUseableAddress`. -/
def lowestUseableAddress (m : MemoryMap) : Exec UInt64 := do
  let e ← m.entry 0
  return e.base

/-- One round of the loop in `LongestUseableBase`. -/
def longestBody (m : MemoryMap) (longest i : ℕ) : Exec ℕ := do
  let e ← m.entry i
  if e.type = .Useable then
    let l ← m.entry longest
    if l.length < e.length then return i else return longest
  else return longest

/-- `LongestUseableBase`. -/
def longestUseableBase (m : MemoryMap) : Exec UInt64 := do
  let longest ← (List.range maxEntries).foldlM m.longestBody 0
  let e ← m.entry longest
  return e.base

end MemoryMap

/-! ## What the queries are about -/

namespace MemoryMapEntry

/-- The last address of an entry. -/
def last (e : MemoryMapEntry) : UInt64 := e.base + e.length - 1

end MemoryMapEntry

/-- The entries in front of the first `Empty` one. -/
def leading (src : List MemoryMapEntry) : List MemoryMapEntry :=
  src.takeWhile fun e ↦ e.type ≠ .Empty

/-- The `Useable` entries of a list. -/
def useableOf (src : List MemoryMapEntry) : List MemoryMapEntry :=
  src.filter fun e ↦ e.type = .Useable

/-- **The answers are right.** -/
structure AnswersRight (src : List MemoryMapEntry) (m : MemoryMap) : Prop where
  /-- The highest address of a `Useable` entry. -/
  highest : ∃ a, m.highestUseableAddress = .ok a ∧
    IsGreatest {x | ∃ e ∈ useableOf src, x = e.last.toNat} a.toNat
  /-- The lowest base of one. -/
  lowest : ∃ a, m.lowestUseableAddress = .ok a ∧
    IsLeast {x | ∃ e ∈ useableOf src, x = e.base.toNat} a.toNat
  /-- The base of one that is as long as any. -/
  longest : ∃ a, m.longestUseableBase = .ok a ∧
    ∃ e ∈ useableOf src, e.base = a ∧ ∀ f ∈ useableOf src, f.length ≤ e.length

/-- The places that the queries look at have the entries they should have. -/
structure Placed (src : List MemoryMapEntry) : Prop where
  /-- The entry before the first `Empty` one ends where a `Useable` one ends, and no `Useable` one
  ends above it. -/
  highest : ∃ e, (leading src).getLast? = some e ∧ (∃ f ∈ useableOf src, f.last = e.last) ∧
    ∀ f ∈ useableOf src, f.last.toNat ≤ e.last.toNat
  /-- The first entry starts where a `Useable` one starts, and no `Useable` one starts below it. -/
  lowest : ∃ e, src.head? = some e ∧ (∃ f ∈ useableOf src, f.base = e.base) ∧
    ∀ f ∈ useableOf src, e.base.toNat ≤ f.base.toNat
  /-- A `Useable` entry is longer than the first one, or one of the longest starts where the first
  one starts. -/
  longest : ∃ e, src.head? = some e ∧ ((∃ f ∈ useableOf src, e.length < f.length) ∨
    ∃ f ∈ useableOf src, f.base = e.base ∧ ∀ g ∈ useableOf src, g.length ≤ f.length)

/-! ## What the queries answer -/

section Queries

variable {src : List MemoryMapEntry} {m : MemoryMap} {i : ℕ} {e : MemoryMapEntry}

theorem MemoryMap.entry_eq (h : m.entries[i]? = some e) : m.entry i = .ok e := by
  rw [MemoryMap.entry, h]
  rfl

/-- The array of a list that leaves room. -/
theorem entries_of_init (h : MemoryMap.init src = .ok m) :
    m.entries = src ++ List.replicate (maxEntries - src.length) .empty ∧
      src.length < maxEntries := by
  rw [MemoryMap.init] at h
  split at h
  · rename_i hlt
    cases h
    exact ⟨rfl, hlt⟩
  · cases h

/-- There is a first `Empty` entry, behind the leading ones. -/
theorem exists_first_empty (h : MemoryMap.init src = .ok m) :
    ∃ e rest, m.entries = leading src ++ e :: rest ∧ e.type = .Empty := by
  obtain ⟨hm, hlt⟩ := entries_of_init h
  have hsplit : leading src ++ src.dropWhile (fun e ↦ decide (e.type ≠ .Empty)) = src :=
    List.takeWhile_append_dropWhile
  obtain ⟨k, hk⟩ : ∃ k, maxEntries - src.length = k + 1 :=
    Nat.exists_eq_succ_of_ne_zero (by omega)
  cases hd : src.dropWhile (fun e ↦ decide (e.type ≠ .Empty)) with
  | nil =>
    rw [hd, List.append_nil] at hsplit
    exact ⟨.empty, List.replicate k .empty, by rw [hm, hsplit, hk]; rfl, rfl⟩
  | cons e rest =>
    have he := List.head?_dropWhile_not (fun e ↦ decide (e.type ≠ .Empty)) src
    rw [hd] at he hsplit
    refine ⟨e, rest ++ List.replicate (maxEntries - src.length) .empty, ?_, by simpa using he⟩
    rw [hm, ← List.cons_append, ← List.append_assoc, hsplit]

/-- **`HighestUseableAddress` is about the last of the leading entries.** -/
theorem highestUseableAddress_eq (h : MemoryMap.init src = .ok m) : m.highestUseableAddress
    = (leading src).getLast?.elim (.error .dangling) fun e ↦ .ok e.last := by
  obtain ⟨e, rest, hm, he⟩ := exists_first_empty h
  have hk : (leading src).length < maxEntries := by
    rw [← m.size_eq, hm]
    simp
  -- the scan stops behind the leading entries
  have hfind : (List.range maxEntries).find? (fun i ↦
      m.entries[i]?.elim false fun e ↦ decide (e.type = .Empty)) = some (leading src).length := by
    refine List.find?_range_eq_some.mpr ⟨by simp [hm, he], List.mem_range.mpr hk, fun j hj ↦ ?_⟩
    have hmem : (leading src)[j] ∈ leading src := List.getElem_mem hj
    have htype : (leading src)[j].type ≠ .Empty := by
      simpa using List.mem_takeWhile_imp hmem
    rw [hm, List.getElem?_append_left hj, List.getElem?_eq_getElem hj]
    simp [htype]
  have hscan : (List.range maxEntries).findM? (fun i ↦ do
      let e ← m.entry i
      return decide (e.type = EntryType.Empty)) = .ok (some (leading src).length) := by
    refine (Exec.findM?_eq fun i hi ↦ ?_).trans (congrArg _ hfind)
    have hi' : i < m.entries.length := by
      rw [m.size_eq]
      exact List.mem_range.mp hi
    rw [MemoryMap.entry_eq (List.getElem?_eq_getElem hi'), List.getElem?_eq_getElem hi']
    rfl
  rw [MemoryMap.highestUseableAddress, hscan]
  simp only [Exec.ok_bind]
  rcases List.eq_nil_or_concat' (leading src) with hnil | ⟨L, l, hL⟩
  · have hnone : m.entries[sub64 0 1]? = none := by
      refine List.getElem?_eq_none ?_
      rw [m.size_eq]
      decide
    simp [hnil, MemoryMap.entry, hnone]
  · have hlen : sub64 (L.length + 1) 1 = L.length := by
      rw [hL, List.length_append, List.length_singleton] at hk
      rw [sub64_of_le (by omega) (hk.trans (by decide)), Nat.add_sub_cancel]
    have hl : m.entries[L.length]? = some l := by
      rw [hm, hL]
      simp
    simp [hL, hlen, MemoryMap.entry_eq hl, MemoryMapEntry.last]

/-- **`LowestUseableAddress` is about the first entry.** -/
theorem lowestUseableAddress_eq (h : MemoryMap.init src = .ok m) (he : src.head? = some e) :
    m.lowestUseableAddress = .ok e.base := by
  obtain ⟨hm, -⟩ := entries_of_init h
  obtain ⟨rest, rfl⟩ := List.head?_eq_some_iff.mp he
  rw [MemoryMap.lowestUseableAddress, MemoryMap.entry_eq (e := e) (by rw [hm]; rfl)]
  rfl

theorem mem_useableOf : e ∈ useableOf src ↔ e ∈ src ∧ e.type = .Useable := by
  simp [useableOf]

/-- The `Useable` entries of the array are those of the list. -/
theorem mem_useableOf_of_entries (h : MemoryMap.init src = .ok m) (he : e ∈ m.entries)
    (ht : e.type = .Useable) : e ∈ useableOf src := by
  rw [(entries_of_init h).1, List.mem_append] at he
  rcases he with he | he
  · exact mem_useableOf.mpr ⟨he, ht⟩
  · rw [List.eq_of_mem_replicate he] at ht
    cases ht

/-- What the loop of `LongestUseableBase` has found after `i` rounds: `b` is the first entry, or a
`Useable` one that is longer, and no `Useable` one so far is longer than `b`. -/
structure LongestInv (m : MemoryMap) (e : MemoryMapEntry) (i longest : ℕ) (b : MemoryMapEntry) :
    Prop where
  /-- The entry. -/
  get : m.entries[longest]? = some b
  /-- No `Useable` entry so far is longer. -/
  le : ∀ f ∈ m.entries.take i, f.type = .Useable → f.length ≤ b.length
  /-- It is the first entry, or a longer one. -/
  first : b = e ∨ (b ∈ m.entries ∧ b.type = .Useable) ∧ e.length < b.length

theorem LongestInv.step {longest : ℕ} {b : MemoryMapEntry} (h : LongestInv m e i longest b)
    (hi : i < maxEntries) :
    ∃ l' b', m.longestBody longest i = .ok l' ∧ LongestInv m e (i + 1) l' b' := by
  have hi' : i < m.entries.length := by rwa [m.size_eq]
  have hf := List.getElem?_eq_getElem hi'
  set f := m.entries[i] with hfdef
  have hmem : f ∈ m.entries := List.getElem_mem hi'
  -- what is above all entries so far and above the next one is above all of them
  have hle : ∀ n : UInt64,
      (∀ g ∈ m.entries.take i, g.type = .Useable → g.length ≤ n) →
      (f.type = .Useable → f.length ≤ n) →
      ∀ g ∈ m.entries.take (i + 1), g.type = .Useable → g.length ≤ n := by
    intro n hold hnew g hg
    rw [List.take_succ_eq_append_getElem hi', List.mem_append, List.mem_singleton] at hg
    rcases hg with hg | rfl
    · exact hold g hg
    · exact hnew
  by_cases ht : f.type = .Useable
  · by_cases hlt : b.length < f.length
    · refine ⟨i, f, ?_, hf, hle f.length (fun g hg hgt ↦ ?_) fun _ ↦ UInt64.le_refl _,
        .inr ⟨⟨hmem, ht⟩, ?_⟩⟩
      · simp [MemoryMap.longestBody, MemoryMap.entry_eq hf, ht, MemoryMap.entry_eq h.get, hlt]
      · exact UInt64.le_of_lt (UInt64.lt_of_le_of_lt (h.le g hg hgt) hlt)
      · rcases h.first with rfl | ⟨-, hb⟩
        · exact hlt
        · exact UInt64.lt_trans hb hlt
    · refine ⟨longest, b, ?_, h.get, hle b.length h.le fun _ ↦ UInt64.not_lt.mp hlt, h.first⟩
      simp [MemoryMap.longestBody, MemoryMap.entry_eq hf, ht, MemoryMap.entry_eq h.get, hlt]
  · refine ⟨longest, b, ?_, h.get, hle b.length h.le fun h ↦ absurd h ht, h.first⟩
    simp [MemoryMap.longestBody, MemoryMap.entry_eq hf, ht]

/-- **`LongestUseableBase` is about an entry `b`** that no `Useable` one is longer than: the first
one, or a `Useable` one that is longer than that. -/
theorem longestUseableBase_eq (h : MemoryMap.init src = .ok m) (he : src.head? = some e) :
    ∃ b, m.longestUseableBase = .ok b.base ∧ (∀ f ∈ useableOf src, f.length ≤ b.length) ∧
      (b = e ∨ b ∈ useableOf src ∧ e.length < b.length) := by
  obtain ⟨hm, -⟩ := entries_of_init h
  obtain ⟨rest, rfl⟩ := List.head?_eq_some_iff.mp he
  have h0 : LongestInv m e 0 0 e := ⟨by rw [hm]; rfl, by simp, .inl rfl⟩
  obtain ⟨longest, hrun, b, hinv⟩ := Exec.foldlM_range_returns (n := maxEntries)
    (I := fun i longest ↦ ∃ b, LongestInv m e i longest b) ⟨e, h0⟩
    fun i hi longest ⟨b, hb⟩ ↦ by
      obtain ⟨l', b', hl', hb'⟩ := hb.step hi
      exact ⟨l', hl', b', hb'⟩
  refine ⟨b, ?_, fun f hf ↦ ?_, hinv.first.imp_right fun hb ↦
    ⟨mem_useableOf_of_entries h hb.1.1 hb.1.2, hb.2⟩⟩
  · rw [MemoryMap.longestUseableBase, hrun, Exec.ok_bind, MemoryMap.entry_eq hinv.get]
    rfl
  · obtain ⟨hmem, ht⟩ := mem_useableOf.mp hf
    refine hinv.le f ?_ ht
    rw [← m.size_eq, List.take_length, hm]
    exact List.mem_append_left _ hmem

end Queries

/-! ## When they are right -/

section Right

variable {src : List MemoryMapEntry} {m : MemoryMap}

/-- The highest address is right if the last of the leading entries has it. -/
theorem highest_iff (h : MemoryMap.init src = .ok m) :
    (∃ a, m.highestUseableAddress = .ok a ∧
      IsGreatest {x | ∃ e ∈ useableOf src, x = e.last.toNat} a.toNat) ↔
    ∃ e, (leading src).getLast? = some e ∧ (∃ f ∈ useableOf src, f.last = e.last) ∧
      ∀ f ∈ useableOf src, f.last.toNat ≤ e.last.toNat := by
  rw [highestUseableAddress_eq h]
  cases (leading src).getLast? with
  | none => simp
  | some e =>
    constructor
    · rintro ⟨a, ha, ⟨f, hf, hfa⟩, hle⟩
      obtain rfl : e.last = a := Except.ok.inj ha
      exact ⟨e, rfl, ⟨f, hf, UInt64.toNat_inj.mp hfa.symm⟩, fun g hg ↦ hle ⟨g, hg, rfl⟩⟩
    · rintro ⟨e', he', ⟨f, hf, hfe⟩, hle⟩
      obtain rfl := Option.some.inj he'
      refine ⟨e.last, rfl, ⟨f, hf, by rw [hfe]⟩, ?_⟩
      rintro x ⟨g, hg, rfl⟩
      exact hle g hg

/-- A map with a `Useable` entry has a first entry. -/
theorem exists_head (hu : ∃ e ∈ src, e.type = .Useable) : ∃ e, src.head? = some e := by
  obtain ⟨f, hf, -⟩ := hu
  obtain ⟨e, rest, rfl⟩ := List.exists_cons_of_ne_nil (List.ne_nil_of_mem hf)
  exact ⟨e, rfl⟩

theorem lowest_iff (h : MemoryMap.init src = .ok m) (hu : ∃ e ∈ src, e.type = .Useable) :
    (∃ a, m.lowestUseableAddress = .ok a ∧
      IsLeast {x | ∃ e ∈ useableOf src, x = e.base.toNat} a.toNat) ↔
    ∃ e, src.head? = some e ∧ (∃ f ∈ useableOf src, f.base = e.base) ∧
      ∀ f ∈ useableOf src, e.base.toNat ≤ f.base.toNat := by
  obtain ⟨e, he⟩ := exists_head hu
  rw [lowestUseableAddress_eq h he]
  constructor
  · rintro ⟨a, ha, ⟨f, hf, hfa⟩, hle⟩
    obtain rfl := Except.ok.inj ha
    exact ⟨e, he, ⟨f, hf, UInt64.toNat_inj.mp hfa.symm⟩, fun g hg ↦ hle ⟨g, hg, rfl⟩⟩
  · rintro ⟨e', he', ⟨f, hf, hfe⟩, hle⟩
    obtain rfl := Option.some.inj (he.symm.trans he')
    refine ⟨e.base, rfl, ⟨f, hf, by rw [hfe]⟩, ?_⟩
    rintro x ⟨g, hg, rfl⟩
    exact hle g hg

theorem longest_iff (h : MemoryMap.init src = .ok m) (hu : ∃ e ∈ src, e.type = .Useable) :
    (∃ a, m.longestUseableBase = .ok a ∧
      ∃ e ∈ useableOf src, e.base = a ∧ ∀ f ∈ useableOf src, f.length ≤ e.length) ↔
    ∃ e, src.head? = some e ∧ ((∃ f ∈ useableOf src, e.length < f.length) ∨
      ∃ f ∈ useableOf src, f.base = e.base ∧ ∀ g ∈ useableOf src, g.length ≤ f.length) := by
  obtain ⟨e, he⟩ := exists_head hu
  obtain ⟨b, hb, hle, hfirst⟩ := longestUseableBase_eq h he
  rw [hb]
  constructor
  · rintro ⟨a, ha, f, hf, hfa, hmax⟩
    obtain rfl := Except.ok.inj ha
    rcases hfirst with rfl | ⟨hbu, hlt⟩
    · exact ⟨b, he, .inr ⟨f, hf, hfa, hmax⟩⟩
    · exact ⟨e, he, .inl ⟨b, hbu, hlt⟩⟩
  · rintro ⟨e', he', hcase⟩
    obtain rfl := Option.some.inj (he.symm.trans he')
    rcases hfirst with rfl | ⟨hbu, hlt⟩
    · rcases hcase with ⟨f, hf, hlt⟩ | ⟨f, hf, hfe, hmax⟩
      · exact absurd (hle f hf) (UInt64.not_le.mpr hlt)
      · exact ⟨b.base, rfl, f, hf, hfe, hmax⟩
    · exact ⟨b.base, rfl, b, hbu, rfl, hle⟩

/-- **The three answers are right exactly if the entries are placed for it.** -/
theorem answersRight_iff (src : List MemoryMapEntry) (hlen : src.length ≤ 19)
    (hu : ∃ e ∈ src, e.type = .Useable) :
    (∃ m, MemoryMap.init src = .ok m ∧ AnswersRight src m) ↔ Placed src := by
  have hlt : src.length < maxEntries := Nat.lt_succ_of_le hlen
  have hinit : MemoryMap.init src = .ok (.ofList src hlt.le) := dif_pos hlt
  have hhigh := highest_iff hinit
  have hlow := lowest_iff hinit hu
  have hlong := longest_iff hinit hu
  constructor
  · rintro ⟨m, hm, hr⟩
    obtain rfl := Except.ok.inj (hinit.symm.trans hm)
    exact ⟨hhigh.mp hr.highest, hlow.mp hr.lowest, hlong.mp hr.longest⟩
  · intro hp
    exact ⟨_, hinit, hhigh.mpr hp.highest, hlow.mpr hp.lowest, hlong.mpr hp.longest⟩

end Right

/-- A map of three pages, the second of them reserved. -/
def threePages : List MemoryMapEntry :=
  [⟨0, 0x1000, .Useable⟩, ⟨0x1000, 0x1000, .Reserved⟩, ⟨0x2000, 0x1000, .Useable⟩]

theorem answersRight_threePages :
    ∃ m, MemoryMap.init threePages = .ok m ∧ AnswersRight threePages m :=
  (answersRight_iff threePages (by decide) (by decide)).mpr {
    highest := ⟨⟨0x2000, 0x1000, .Useable⟩, rfl, by decide, by decide⟩
    lowest := ⟨⟨0, 0x1000, .Useable⟩, rfl, by decide, by decide⟩
    longest := ⟨⟨0, 0x1000, .Useable⟩, rfl, .inr (by decide)⟩ }

/-- **A reserved page at the end is taken for the highest `Useable` one.** -/
theorem not_answersRight_reserved : ¬∀ src : List MemoryMapEntry, src.length ≤ 19 →
    (∃ e ∈ src, e.type = .Useable) →
      ∃ m, MemoryMap.init src = .ok m ∧ AnswersRight src m := by
  intro h
  obtain ⟨m, hm, hr⟩ := h [⟨0, 0x1000, .Useable⟩, ⟨0x1000, 0x1000, .Reserved⟩] (by decide)
    (by decide)
  obtain ⟨e, he, ⟨f, hf, hfe⟩, -⟩ := (highest_iff hm).mp hr.highest
  obtain rfl : ⟨0x1000, 0x1000, .Reserved⟩ = e := Option.some.inj he
  obtain rfl := List.mem_singleton.mp hf
  exact absurd hfe (by decide)

end Chisaka
