import Mathlib.Data.List.Sort
import Chisaka.Lib.Exec

/-!
# Chains: singly linked lists threaded through memory

`Chain.Seg next a l b` says that following `next` from `a` visits exactly the nodes of `l`, in
order, and arrives at `b`.  A list terminated by `null` is `Seg next head l null` with `null ∉ l`.
The function `next` is whatever reads the link of a node, so the lemmas apply to any memory.

* A segment depends on the links of its own nodes only (`Seg.congr`), and there is at most one
  between two given ends (`Seg.unique`).
* The edits are the four a program makes: pushing a node in front (`seg_cons`), inserting one
  behind another (`Seg.insert_after`), cutting out a stretch (`Seg.cut`) and redirecting the last
  link (`Seg.set_last`).
* `Chain.seek` is the search for the place of `target` in an ascending list, keeping the previous
  node at hand; `exec_seek` says that it stops there, and `Chain.orderedInsert_split` that an
  insertion at that place is Mathlib's `List.orderedInsert`.
-/

set_option autoImplicit false

namespace Chain

universe u

variable {α : Type u} {next next' : α → α}

/-- Following `next` from `a` visits the nodes of the list and arrives at `b`. -/
def Seg (next : α → α) : α → List α → α → Prop
  | a, [], b => a = b
  | a, x :: l, b => a = x ∧ Seg next (next x) l b

@[simp] theorem seg_nil {a b : α} : Seg next a [] b ↔ a = b := Iff.rfl

@[simp] theorem seg_cons {a b x : α} {l : List α} :
    Seg next a (x :: l) b ↔ a = x ∧ Seg next (next x) l b := Iff.rfl

theorem seg_append {a b : α} {l m : List α} :
    Seg next a (l ++ m) b ↔ ∃ c, Seg next a l c ∧ Seg next c m b := by
  induction l generalizing a with
  | nil => simp
  | cons x l ih => simp [ih, and_assoc]

/-- A segment starts at its first node, or at its end if there is none. -/
theorem Seg.head_eq {a b : α} {l : List α} (h : Seg next a l b) : a = l.headD b := by
  cases l with
  | nil => exact h
  | cons x l => exact h.1

theorem Seg.ne_end {a b : α} {l : List α} (h : Seg next a l b) (hne : l ≠ []) (hb : b ∉ l) :
    a ≠ b := by
  cases l with
  | nil => exact absurd rfl hne
  | cons x l =>
    obtain rfl := h.1
    exact fun he ↦ hb (he ▸ List.mem_cons_self)

theorem Seg.next_eq {a b x : α} {l m : List α} (h : Seg next a (l ++ x :: m) b) :
    next x = m.headD b := by
  obtain ⟨c, -, hc⟩ := seg_append.mp h
  exact hc.2.head_eq

/-- A node is the first one, or the link of a node leads to it. -/
theorem Seg.eq_or_exists {a b x : α} {l : List α} (h : Seg next a l b) (hx : x ∈ l) :
    x = a ∨ ∃ y ∈ l, next y = x := by
  induction l generalizing a with
  | nil => exact absurd hx List.not_mem_nil
  | cons y l ih =>
    obtain ⟨rfl, h⟩ := h
    rcases List.mem_cons.mp hx with rfl | hx
    · exact .inl rfl
    · refine .inr ?_
      rcases ih h hx with rfl | ⟨z, hz, hnext⟩
      · exact ⟨a, List.mem_cons_self, rfl⟩
      · exact ⟨z, List.mem_cons_of_mem a hz, hnext⟩

/-- Only the links of the nodes matter. -/
theorem Seg.congr {a b : α} {l : List α} (h : Seg next a l b)
    (hl : ∀ x ∈ l, next' x = next x) : Seg next' a l b := by
  induction l generalizing a with
  | nil => exact h
  | cons x l ih =>
    refine ⟨h.1, ?_⟩
    rw [hl x List.mem_cons_self]
    exact ih h.2 fun y hy ↦ hl y (List.mem_cons_of_mem x hy)

/-- **There is only one way from `a` to `b`** that does not pass through `b`. -/
theorem Seg.unique {a b : α} {l m : List α} (hl : Seg next a l b) (hm : Seg next a m b)
    (hbl : b ∉ l) (hbm : b ∉ m) : l = m := by
  induction l generalizing a m with
  | nil =>
    cases m with
    | nil => rfl
    | cons y m =>
      have hab : a = b := hl
      have hay : a = y := hm.1
      exact absurd (hab ▸ hay ▸ List.mem_cons_self) hbm
  | cons x l ih =>
    cases m with
    | nil =>
      have hab : a = b := hm
      have hax : a = x := hl.1
      exact absurd (hab ▸ hax ▸ List.mem_cons_self) hbl
    | cons y m =>
      obtain ⟨rfl, hl⟩ := hl
      obtain ⟨rfl, hm⟩ := hm
      rw [ih hl hm (fun h ↦ hbl (List.mem_cons_of_mem _ h))
        fun h ↦ hbm (List.mem_cons_of_mem _ h)]

/-! ## Edits -/

/-- Redirecting the last link moves the end of the segment. -/
theorem Seg.set_last {a b c x : α} {l : List α} (h : Seg next a (l ++ [x]) b)
    (hl : ∀ y ∈ l, next' y = next y) (hx : next' x = c) : Seg next' a (l ++ [x]) c := by
  obtain ⟨d, h1, h2⟩ := seg_append.mp h
  exact seg_append.mpr ⟨d, h1.congr hl, h2.1, hx⟩

/-- **Inserting `p` behind `x`** takes two link writes. -/
theorem Seg.insert_after {a b p x : α} {l m : List α} (h : Seg next a (l ++ x :: m) b)
    (hx : next' x = p) (hp : next' p = m.headD b) (hl : ∀ y ∈ l, next' y = next y)
    (hm : ∀ y ∈ m, next' y = next y) : Seg next' a (l ++ x :: p :: m) b := by
  have hnext := h.next_eq
  obtain ⟨c, h1, h2⟩ := seg_append.mp h
  refine seg_append.mpr ⟨c, h1.congr hl, h2.1, hx, ?_⟩
  rw [hp, ← hnext]
  exact h2.2.congr hm

/-- **Cutting out the stretch `mid` behind `x`** takes one link write. -/
theorem Seg.cut {a b x : α} {l mid m : List α} (h : Seg next a (l ++ x :: (mid ++ m)) b)
    (hx : next' x = m.headD b) (hl : ∀ y ∈ l, next' y = next y)
    (hm : ∀ y ∈ m, next' y = next y) : Seg next' a (l ++ x :: m) b := by
  obtain ⟨c, h1, hc, h2⟩ := seg_append.mp h
  obtain ⟨d, -, h3⟩ := seg_append.mp h2
  refine seg_append.mpr ⟨c, h1.congr hl, hc, ?_⟩
  rw [hx, ← h3.head_eq]
  exact h3.congr hm

/-! ## Ascending lists -/

section Ascending

variable [LinearOrder α]

/-- An insertion at the right place is an ordered insertion. -/
theorem orderedInsert_split {p : α} {l m : List α} (hl : ∀ x ∈ l, x < p)
    (hm : ∀ x ∈ m, p ≤ x) : (l ++ m).orderedInsert (· ≤ ·) p = l ++ p :: m := by
  induction l with
  | nil =>
    cases m with
    | nil => rfl
    | cons y m => exact List.orderedInsert_cons_of_le _ _ (hm y List.mem_cons_self)
  | cons x l ih =>
    rw [List.cons_append, List.orderedInsert_of_not_le _ _ (not_le.mpr (hl x List.mem_cons_self)),
      ih fun y hy ↦ hl y (List.mem_cons_of_mem x hy), List.cons_append]

theorem pairwise_orderedInsert {p : α} {l : List α} (h : l.Pairwise (· < ·)) (hp : p ∉ l) :
    (l.orderedInsert (· ≤ ·) p).Pairwise (· < ·) := by
  induction l with
  | nil => simp
  | cons x l ih =>
    rw [List.pairwise_cons] at h
    rw [List.mem_cons, not_or] at hp
    rw [List.orderedInsert_cons]
    split
    · rename_i hpx
      have hlt : p < x := lt_of_le_of_ne hpx hp.1
      refine List.pairwise_cons.mpr ⟨?_, List.pairwise_cons.mpr h⟩
      intro y hy
      rcases List.mem_cons.mp hy with rfl | hy
      · exact hlt
      · exact hlt.trans (h.1 y hy)
    · rename_i hpx
      refine List.pairwise_cons.mpr ⟨fun y hy ↦ ?_, ih h.2 hp.2⟩
      rcases (List.mem_orderedInsert _).mp hy with rfl | hy
      · exact not_le.mp hpx
      · exact h.1 y hy

/-- An ascending list splits at every bound into the elements below it and the rest. -/
theorem exists_split {l : List α} (h : l.Pairwise (· < ·)) (p : α) :
    ∃ l₁ l₂, l = l₁ ++ l₂ ∧ (∀ x ∈ l₁, x < p) ∧ ∀ x ∈ l₂, p ≤ x := by
  induction l with
  | nil => exact ⟨[], [], rfl, by simp, by simp⟩
  | cons x l ih =>
    obtain ⟨hx, hl⟩ := List.pairwise_cons.mp h
    rcases lt_or_ge x p with hlt | hge
    · obtain ⟨l₁, l₂, rfl, h1, h2⟩ := ih hl
      refine ⟨x :: l₁, l₂, rfl, ?_, h2⟩
      intro y hy
      rcases List.mem_cons.mp hy with rfl | hy
      · exact hlt
      · exact h1 y hy
    · refine ⟨[], x :: l, rfl, by simp, ?_⟩
      intro y hy
      rcases List.mem_cons.mp hy with rfl | hy
      · exact hge
      · exact hge.trans (hx y hy).le

/-- The element behind which `p` is inserted, if any. -/
def lastBelow (l : List α) (p : α) : Option α := (l.filter (· < p)).getLast?

/-- The element in front of which `p` is inserted, if any. -/
def firstAbove (l : List α) (p : α) : Option α := (l.filter (p < ·)).head?

theorem lastBelow_append {p : α} {l m : List α} (hl : ∀ x ∈ l, x < p) (hm : ∀ x ∈ m, p ≤ x) :
    lastBelow (l ++ m) p = l.getLast? := by
  have hl' : l.filter (· < p) = l := List.filter_eq_self.mpr fun x hx ↦ decide_eq_true (hl x hx)
  have hm' : m.filter (· < p) = [] := List.filter_eq_nil_iff.mpr fun x hx ↦ by
    simpa using hm x hx
  rw [lastBelow, List.filter_append, hl', hm', List.append_nil]

theorem firstAbove_append {p : α} {l m : List α} (hl : ∀ x ∈ l, x ≤ p) (hm : ∀ x ∈ m, p < x) :
    firstAbove (l ++ m) p = m.head? := by
  have hl' : l.filter (p < ·) = [] := List.filter_eq_nil_iff.mpr fun x hx ↦ by
    simpa using hl x hx
  have hm' : m.filter (p < ·) = m := List.filter_eq_self.mpr fun x hx ↦ decide_eq_true (hm x hx)
  rw [firstAbove, List.filter_append, hl', hm', List.nil_append]

theorem mem_of_lastBelow {p x : α} {l : List α} (h : lastBelow l p = some x) : x ∈ l ∧ x < p := by
  have hx := List.mem_filter.mp (List.mem_of_getLast? h)
  exact ⟨hx.1, by simpa using hx.2⟩

end Ascending

/-! ## Searching for a place -/

section Seek

variable [LinearOrder α] {null target : α} {load : α → Exec α}

/-- One round of the search: from the pair of the previous and the current node, move on while
the current node is below `target`, and stop when the list ends. -/
def seekBody (load : α → Exec α) (null target : α) : α × α → Exec ((α × α) ⊕ (α × α))
  | (prev, cur) =>
    if cur < target then do
      let after ← load cur
      if after = null then return .inr (cur, after) else return .inl (cur, after)
    else return .inr (prev, cur)

/-- The search for the place of `target`, from a previous and a current node. -/
def seek (load : α → Exec α) (null target : α) (s : α × α) : Exec (α × α) :=
  Loop.exec (seekBody load null target) s

/-- **The search finds the place**: the last node below `target`, and the node `c` behind it, which
is not below, or null. -/
theorem run_seek {l : List α} {c : α} (hload : ∀ x ∈ l, load x = .ok (next x))
    (hl : ∀ x ∈ l, x < target) (hnull : null ∉ l) (hc : c ≠ null → target ≤ c) :
    ∀ {n : ℕ} {cur : α} (prev : α), (l = [] → c ≠ null) → Seg next cur l c → l.length < n →
      Loop.run (seekBody load null target) n (prev, cur)
        = .ok ((prev :: l).getLast (List.cons_ne_nil _ _), c) := by
  induction l with
  | nil =>
    intro n cur prev hne hseg hn
    obtain ⟨n, rfl⟩ := Nat.exists_eq_succ_of_ne_zero (Nat.ne_of_gt hn)
    obtain rfl : cur = c := hseg
    have hbody : seekBody load null target (prev, cur) = .ok (.inr (prev, cur)) := by
      simp [seekBody, not_lt.mpr (hc (hne rfl))]
    rw [Loop.run_inr hbody]
    rfl
  | cons x l ih =>
    intro n cur prev _ hseg hn
    obtain ⟨n, rfl⟩ := Nat.exists_eq_succ_of_ne_zero (Nat.ne_of_gt (Nat.zero_lt_of_lt hn))
    obtain ⟨rfl, hrest⟩ : cur = x ∧ Seg next (next x) l c := hseg
    have hlt := hl cur List.mem_cons_self
    have hld := hload cur List.mem_cons_self
    rw [List.mem_cons, not_or] at hnull
    by_cases hnx : next cur = null
    · -- the list ends here
      have hend : l = [] ∧ c = null := by
        cases l with
        | nil => exact ⟨rfl, hrest.symm.trans hnx⟩
        | cons y l => exact absurd (hrest.1 ▸ hnx ▸ List.mem_cons_self) hnull.2
      obtain ⟨rfl, rfl⟩ := hend
      have hbody : seekBody load c target (prev, cur) = .ok (.inr (cur, c)) := by
        simp [seekBody, hlt, hld, hnx]
      rw [Loop.run_inr hbody]
      rfl
    · have hbody : seekBody load null target (prev, cur) = .ok (.inl (cur, next cur)) := by
        simp [seekBody, hlt, hld, hnx]
      rw [Loop.run_inl hbody]
      refine ih (fun y hy ↦ hload y (List.mem_cons_of_mem _ hy))
        (fun y hy ↦ hl y (List.mem_cons_of_mem _ hy)) hnull.2 cur (fun h0 ↦ ?_) hrest
        (Nat.lt_of_succ_lt_succ hn)
      subst h0
      exact fun he ↦ hnx (hrest.trans he)

theorem exec_seek {l : List α} {c cur : α} (prev : α) (hload : ∀ x ∈ l, load x = .ok (next x))
    (hl : ∀ x ∈ l, x < target) (hnull : null ∉ l) (hc : c ≠ null → target ≤ c)
    (hne : l = [] → c ≠ null) (hseg : Seg next cur l c) (hlen : l.length < Loop.rounds) :
    seek load null target (prev, cur)
      = .ok ((prev :: l).getLast (List.cons_ne_nil _ _), c) :=
  run_seek hload hl hnull hc prev hne hseg hlen

end Seek

end Chain
