import Chisaka.Lib.Exec

/-!
# What a program ensures if it returns

`Exec.Ensures x Q` says that the result of `x` satisfies `Q`, if there is one.  It is the statement
for frames: what a function leaves alone, it leaves alone on every path, and no path need be shown
to be free of faults first.

There is one rule for each way of putting programs together: `Ensures.bind` for a sequence,
`Ensures.check` for an assertion, `Ensures.ite` for a choice and `Ensures.exec` for a loop.

`Exec.Returns x Q` is the total version, with the rules `Returns.bind` and `Returns.check`.
-/

set_option autoImplicit false

universe u

namespace Exec

variable {α β : Type u}

/-- If `x` returns, then with a result in `Q`. -/
def Ensures (x : Exec α) (Q : α → Prop) : Prop := ∀ a, x = .ok a → Q a

namespace Ensures

variable {x : Exec α} {f : α → Exec β} {P Q : α → Prop} {R : β → Prop} {a : α}

theorem ok (h : Q a) : Ensures (.ok a) Q := by
  intro b hb
  cases hb
  exact h

theorem pure (h : Q a) : Ensures (Pure.pure a) Q := Ensures.ok h

theorem error (e : Fault) : Ensures (.error e : Exec α) Q := by
  intro b hb
  cases hb

/-- A weaker postcondition. -/
theorem mono (h : x.Ensures P) (hPQ : ∀ a, P a → Q a) : x.Ensures Q :=
  fun a ha ↦ hPQ a (h a ha)

/-- **Sequence.** -/
theorem bind (h : x.Ensures P) (hf : ∀ a, P a → (f a).Ensures R) : (x >>= f).Ensures R := by
  intro b hb
  obtain ⟨a, ha, hfa⟩ := bind_eq_ok.mp hb
  exact hf a (h a ha) b hfa

/-- A program of which nothing need be known, and then another. -/
theorem skip (hf : ∀ a, (f a).Ensures R) : (x >>= f).Ensures R :=
  bind (P := fun _ ↦ True) (fun _ _ ↦ trivial) fun a _ ↦ hf a

/-- An assertion, and what comes after it. -/
theorem check {γ : Type} {p : Prop} [Decidable p] {f : Unit → Exec γ} {R : γ → Prop}
    (hf : p → (f ()).Ensures R) : (Exec.check p >>= f).Ensures R := by
  intro b hb
  obtain ⟨hp, hfb⟩ := check_bind_eq_ok.mp hb
  exact hf hp b hfb

/-- **Choice.** -/
theorem ite {p : Prop} [Decidable p] {y : Exec α} (hx : p → x.Ensures Q) (hy : ¬p → y.Ensures Q) :
    (if p then x else y).Ensures Q := by
  by_cases hp : p
  · rw [if_pos hp]
    exact hx hp
  · rw [if_neg hp]
    exact hy hp

/-! ### Loops -/

/-- **A loop**: every round that goes on keeps `I`, and the last one ends in `Q`. -/
theorem run {σ ρ : Type u} {body : σ → Exec (σ ⊕ ρ)} {I : σ → Prop} {Q : ρ → Prop}
    (hstep : ∀ s, I s → (body s).Ensures (Sum.elim I Q)) (n : ℕ) {s : σ} (hs : I s) :
    (Loop.run body n s).Ensures Q := by
  induction n generalizing s with
  | zero => exact error _
  | succ n ih =>
    intro r hr
    cases hb : body s with
    | error e =>
      rw [Loop.run_error hb] at hr
      cases hr
    | ok next =>
      have hnext := hstep s hs next hb
      cases next with
      | inl s' =>
        rw [Loop.run_inl hb] at hr
        exact ih hnext r hr
      | inr r' =>
        rw [Loop.run_inr hb] at hr
        cases hr
        exact hnext

theorem exec {σ ρ : Type u} {body : σ → Exec (σ ⊕ ρ)} {I : σ → Prop} {Q : ρ → Prop}
    (hstep : ∀ s, I s → (body s).Ensures (Sum.elim I Q)) {s : σ} (hs : I s) :
    (Loop.exec body s).Ensures Q := run hstep Loop.rounds hs

end Ensures

/-- `x` returns, with a result in `Q`. -/
def Returns (x : Exec α) (Q : α → Prop) : Prop := ∃ a, x = .ok a ∧ Q a

namespace Returns

variable {x : Exec α} {f : α → Exec β} {P Q : α → Prop} {R : β → Prop} {a : α}

theorem ok (h : Q a) : Returns (.ok a) Q := ⟨a, rfl, h⟩

/-- A weaker postcondition. -/
theorem mono (h : x.Returns P) (hPQ : ∀ a, P a → Q a) : x.Returns Q := by
  obtain ⟨a, ha, hP⟩ := h
  exact ⟨a, ha, hPQ a hP⟩

/-- **Sequence.** -/
theorem bind (h : x.Returns P) (hf : ∀ a, P a → (f a).Returns R) : (x >>= f).Returns R := by
  obtain ⟨a, rfl, hP⟩ := h
  exact hf a hP

/-- An assertion that holds, and what comes after it. -/
theorem check {γ : Type} {p : Prop} [Decidable p] {f : Unit → Exec γ} {R : γ → Prop} (hp : p)
    (hf : (f ()).Returns R) : (Exec.check p >>= f).Returns R := by
  rw [Exec.check_of hp]
  exact hf

/-- A loop over a range. -/
theorem foldlM_range {σ : Type} {f : σ → ℕ → Exec σ} {I : ℕ → σ → Prop} {n : ℕ} {s : σ}
    (h0 : I 0 s) (hstep : ∀ i < n, ∀ s, I i s → (f s i).Returns (I (i + 1))) :
    ((List.range n).foldlM f s).Returns (I n) := Exec.foldlM_range_returns h0 hstep

end Returns

end Exec
