import Mathlib.Data.List.Induction
import Mathlib.Data.Option.Basic

/-!
# Trees of tables

A table has slots, and a slot may lead to another table: `child a i` is where slot `i` of table `a`
leads, if anywhere.  `walk child root p` follows the slots of `p` from `root`.  Page tables and
tries in memory are of this kind, with `child` read from memory.

* `TreeTo child root n` says that the tables within `n` steps form a tree: no table is reached along
  two paths.
* `walk_congr`: walks depend on the tables they pass only.
* `walk_install` is what happens when an empty slot gets a fresh table: there is one new path, and
  every other walk is as before.  `TreeTo.install` says that the tables form a tree again.
-/

set_option autoImplicit false

namespace Walk

universe u v

variable {α : Type u} {ι : Type v}

/-- Follow the slots of a path. -/
def walk (child : α → ι → Option α) : α → List ι → Option α
  | a, [] => some a
  | a, i :: is => (child a i).bind fun b ↦ walk child b is

variable {child child' : α → ι → Option α} {root a b f : α} {i j : ι} {p q : List ι} {n : ℕ}

@[simp] theorem walk_nil : walk child a [] = some a := rfl

theorem walk_append : walk child a (p ++ q) = (walk child a p).bind fun b ↦ walk child b q := by
  induction p generalizing a with
  | nil => rfl
  | cons i p ih =>
    simp only [List.cons_append, walk]
    cases child a i with
    | none => rfl
    | some b => exact ih

theorem walk_concat : walk child a (p ++ [i]) = (walk child a p).bind fun b ↦ child b i := by
  rw [walk_append]
  congr 1
  funext b
  rw [walk]
  cases child b i <;> rfl

theorem walk_concat_of_eq_some (h : walk child root p = some a) :
    walk child root (p ++ [i]) = child a i := by
  rw [walk_concat, h]
  rfl

/-- A walk that goes on has been somewhere before. -/
theorem exists_of_walk_concat (h : walk child root (p ++ [i]) = some b) :
    ∃ a, walk child root p = some a ∧ child a i = some b := by
  rw [walk_concat] at h
  exact Option.bind_eq_some_iff.mp h

/-- How many slots of the path are behind the first empty one, itself included. -/
def missing (child : α → ι → Option α) : α → List ι → ℕ
  | _, [] => 0
  | a, i :: is =>
    match child a i with
    | some b => missing child b is
    | none => is.length + 1

theorem missing_of_eq_some (h : child a i = some b) :
    missing child a (i :: p) = missing child b p := by
  rw [missing, h]

theorem missing_of_eq_none (h : child a i = none) : missing child a (i :: p) = p.length + 1 := by
  rw [missing, h]

theorem missing_le_length : missing child a p ≤ p.length := by
  induction p generalizing a with
  | nil => exact Nat.le_refl 0
  | cons i p ih =>
    rw [missing]
    split
    · exact Nat.le_succ_of_le ih
    · exact Nat.le_refl _

theorem walk_of_missing_ne_zero (h : missing child a p ≠ 0) : walk child a p = none := by
  induction p generalizing a with
  | nil => exact absurd rfl h
  | cons i p ih =>
    rw [walk]
    cases hc : child a i with
    | none => rfl
    | some b =>
      rw [missing_of_eq_some hc] at h
      exact ih h

/-- **Walks depend on the tables they pass only.** -/
theorem walk_congr (h : ∀ p a, p.length < n → walk child root p = some a → ∀ i,
    child' a i = child a i) (hq : q.length ≤ n) : walk child' root q = walk child root q := by
  induction q using List.reverseRecOn with
  | nil => rfl
  | append_singleton q i ih =>
    rw [List.length_append, List.length_singleton] at hq
    rw [walk_concat, walk_concat, ih (by omega)]
    cases hw : walk child root q with
    | none => rfl
    | some a => exact h q a (by omega) hw i

/-! ## Trees -/

/-- No table within `n` steps is reached along two paths. -/
def TreeTo (child : α → ι → Option α) (root : α) (n : ℕ) : Prop :=
  ∀ p q a, p.length ≤ n → q.length ≤ n → walk child root p = some a →
    walk child root q = some a → p = q

/-- The table is within `n` steps. -/
def Reaches (child : α → ι → Option α) (root : α) (n : ℕ) (a : α) : Prop :=
  ∃ p : List ι, p.length ≤ n ∧ walk child root p = some a

theorem TreeTo.congr (h : TreeTo child root n)
    (hw : ∀ q : List ι, q.length ≤ n → walk child' root q = walk child root q) :
    TreeTo child' root n := by
  intro p q a hp hq hpa hqa
  rw [hw p hp] at hpa
  rw [hw q hq] at hqa
  exact h p q a hp hq hpa hqa

section Install

variable [DecidableEq ι]

/-- **A fresh table in an empty slot adds one path.**  Slot `i` of the table `a` at the end of `p`
is empty, and gets the table `f`, which nothing leads to and whose slots are empty, unless it is too
deep for them to matter. -/
theorem walk_install (ht : TreeTo child root n) (hp : walk child root p = some a)
    (hlen : p.length < n) (hnone : child a i = none)
    (hsame : ∀ b, Reaches child root n b → ∀ j, b ≠ a ∨ j ≠ i → child' b j = child b j)
    (hnew : child' a i = some f) (hempty : p.length + 1 < n → ∀ j, child' f j = none) :
    q.length ≤ n →
      walk child' root q = if q = p ++ [i] then some f else walk child root q := by
  induction q using List.reverseRecOn with
  | nil => simp
  | append_singleton q j ih =>
    intro hq
    rw [List.length_append, List.length_singleton] at hq
    rw [walk_concat, ih (by omega)]
    by_cases hqp : q = p ++ [i]
    · -- behind the fresh table there was nothing, and there is nothing
      have hlen' : q.length = p.length + 1 := by rw [hqp, List.length_append]; rfl
      have hold : walk child root q = none := by rw [hqp, walk_concat_of_eq_some hp, hnone]
      have hne : q ++ [j] ≠ p ++ [i] := by
        intro he
        have := congrArg List.length he
        simp only [List.length_append, List.length_singleton] at this
        omega
      rw [if_pos hqp, if_neg hne, walk_concat, hold]
      exact hempty (by omega) j
    · rw [if_neg hqp, walk_concat]
      cases hw : walk child root q with
      | none =>
        have hne : q ++ [j] ≠ p ++ [i] := by
          intro he
          rw [(List.append_inj' he rfl).1, hp] at hw
          exact absurd hw (by simp)
        rw [if_neg hne]
        rfl
      | some b =>
        show child' b j = if q ++ [j] = p ++ [i] then some f else child b j
        by_cases hbj : b = a ∧ j = i
        · obtain ⟨rfl, rfl⟩ := hbj
          obtain rfl : q = p := ht q p b (by omega) (by omega) hw hp
          rw [if_pos rfl, hnew]
        · have hne : q ++ [j] ≠ p ++ [i] := by
            intro he
            obtain ⟨rfl, hji⟩ := List.append_inj' he rfl
            exact hbj ⟨Option.some.inj (hw.symm.trans hp), List.singleton_inj.mp hji⟩
          rw [if_neg hne]
          exact hsame b ⟨q, by omega, hw⟩ j (by tauto)

/-- **The tables form a tree again.** -/
theorem TreeTo.install (ht : TreeTo child root n) (hf : ¬Reaches child root n f)
    (hw : ∀ q : List ι, q.length ≤ n →
      walk child' root q = if q = p ++ [i] then some f else walk child root q) :
    TreeTo child' root n := by
  intro q r b hq hr hqb hrb
  rw [hw q hq] at hqb
  rw [hw r hr] at hrb
  split at hqb
  · rename_i hqp
    obtain rfl : f = b := Option.some.inj hqb
    split at hrb
    · rename_i hrp
      rw [hqp, hrp]
    · exact absurd ⟨r, hr, hrb⟩ hf
  · split at hrb
    · obtain rfl : f = b := Option.some.inj hrb
      exact absurd ⟨q, hq, hqb⟩ hf
    · exact ht q r b hq hr hqb hrb

end Install

end Walk
