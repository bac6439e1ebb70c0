import Chisaka.Lib.Exec

/-!
# Machines: components that are called again and again

A `Machine` is a component with a state, a set of calls, and for every call a result and a next
state, or a fault.  Which calls may be made in which state is part of the machine (`enabled`): it
is the contract of the callers, and nothing is said about a call that breaks it.

* `Machine.Reach` is the set of states a run can reach, and `Machine.Keeps` is the induction over
  runs packaged once: an invariant that holds at the start and that every call re-establishes,
  *without faulting*, holds in every reachable state (`Machine.Keeps.reach`) and makes every
  contractual call return (`Machine.Keeps.returns`).
* `Machine.restrict` narrows the contract.  A statement about the runs whose calls all satisfy
  some condition is a statement about the restricted machine.
* `Spec` is a machine whose step is a relation, the form in which one says what a component is
  for; `Machine.Simulates` is forward simulation, and `Machine.Simulates.trace` concludes that
  every observable behaviour of the machine is one of the specification.
-/

set_option autoImplicit false

/-- A component with a state, calls that may be made of it, and their outcome. -/
structure Machine (σ κ ρ : Type) where
  /-- The states a run may start in. -/
  init : σ → Prop
  /-- The calls the environment may make. -/
  enabled : σ → κ → Prop
  /-- The result of a call and the state it leaves. -/
  step : σ → κ → Exec (ρ × σ)

namespace Machine

variable {σ κ ρ : Type} {M : Machine σ κ ρ}

/-- The states a run can reach. -/
inductive Reach (M : Machine σ κ ρ) : σ → Prop
  | init {s : σ} (h : M.init s) : Reach M s
  | step {s s' : σ} {k : κ} {r : ρ} (h : Reach M s) (hk : M.enabled s k)
      (hs : M.step s k = .ok (r, s')) : Reach M s'

/-- `I` holds at the start, and every call made in a state of `I` returns to a state of `I`. -/
structure Keeps (M : Machine σ κ ρ) (I : σ → Prop) : Prop where
  /-- The invariant is established. -/
  init : ∀ s, M.init s → I s
  /-- No call faults, and none breaks the invariant. -/
  step : ∀ s k, I s → M.enabled s k → ∃ r s', M.step s k = .ok (r, s') ∧ I s'

/-- **Invariants hold along runs.** -/
theorem Keeps.reach {I : σ → Prop} (h : M.Keeps I) {s : σ} (hs : M.Reach s) : I s := by
  induction hs with
  | init h0 => exact h.init _ h0
  | step _ hk hstep ih =>
    obtain ⟨r, s', he, hI⟩ := h.step _ _ ih hk
    rw [hstep] at he
    cases he
    exact hI

/-- **No call made in a run faults.** -/
theorem Keeps.returns {I : σ → Prop} (h : M.Keeps I) {s : σ} (hs : M.Reach s) {k : κ}
    (hk : M.enabled s k) : ∃ r s', M.step s k = .ok (r, s') ∧ I s' :=
  h.step s k (h.reach hs) hk

/-- An invariant of the calls that do return, for a machine whose calls may fault. -/
theorem Reach.induct {I : σ → Prop} (h0 : ∀ s, M.init s → I s)
    (hstep : ∀ s k r s', I s → M.enabled s k → M.step s k = .ok (r, s') → I s')
    {s : σ} (hs : M.Reach s) : I s := by
  induction hs with
  | init h => exact h0 _ h
  | step _ hk he ih => exact hstep _ _ _ _ ih hk he

/-- The machine whose callers also respect `C`. -/
def restrict (M : Machine σ κ ρ) (C : σ → κ → Prop) : Machine σ κ ρ :=
  { M with enabled := fun s k ↦ M.enabled s k ∧ C s k }

@[simp] theorem restrict_init (C : σ → κ → Prop) : (M.restrict C).init = M.init := rfl

@[simp] theorem restrict_step (C : σ → κ → Prop) : (M.restrict C).step = M.step := rfl

@[simp] theorem restrict_enabled (C : σ → κ → Prop) (s : σ) (k : κ) :
    (M.restrict C).enabled s k ↔ M.enabled s k ∧ C s k := Iff.rfl

/-- A run of the restricted machine is a run. -/
theorem Reach.of_restrict {C : σ → κ → Prop} {s : σ} (hs : (M.restrict C).Reach s) :
    M.Reach s := by
  induction hs with
  | init h => exact .init h
  | step _ hk he ih => exact ih.step hk.1 he

/-- The machine as it goes on from a state. -/
def resume (M : Machine σ κ ρ) (s : σ) : Machine σ κ ρ := { M with init := fun t ↦ t = s }

/-- The calls of a run with their results, latest first, and the state it ends in. -/
inductive Trace (M : Machine σ κ ρ) : List (κ × ρ) → σ → Prop
  | init {s : σ} (h : M.init s) : Trace M [] s
  | step {t : List (κ × ρ)} {s s' : σ} {k : κ} {r : ρ} (h : Trace M t s)
      (hk : M.enabled s k) (hs : M.step s k = .ok (r, s')) : Trace M ((k, r) :: t) s'

end Machine

/-- What a component is for: the results a call may have, and the states it may leave. -/
structure Spec (α κ ρ : Type) where
  /-- The states a run may start in. -/
  init : α → Prop
  /-- `step a k r a'`: in state `a` the call `k` may answer `r` and leave `a'`. -/
  step : α → κ → ρ → α → Prop

/-- The behaviours of a specification, in the format of `Machine.Trace`. -/
inductive Spec.Trace {α κ ρ : Type} (S : Spec α κ ρ) : List (κ × ρ) → α → Prop
  | init {a : α} (h : S.init a) : Trace S [] a
  | step {t : List (κ × ρ)} {a a' : α} {k : κ} {r : ρ} (h : Trace S t a)
      (hs : S.step a k r a') : Trace S ((k, r) :: t) a'

namespace Machine

variable {σ κ ρ α : Type} {M : Machine σ κ ρ} {S : Spec α κ ρ}

/-- Forward simulation: `R` relates the initial states, and every call made in related states
returns a result the specification allows, leaving related states. -/
structure Simulates (M : Machine σ κ ρ) (S : Spec α κ ρ) (R : σ → α → Prop) : Prop where
  /-- Every initial state is related to an initial state of the specification. -/
  init : ∀ s, M.init s → ∃ a, S.init a ∧ R s a
  /-- Every call returns, and the specification can follow it. -/
  step : ∀ s a k, R s a → M.enabled s k →
    ∃ r s' a', M.step s k = .ok (r, s') ∧ S.step a k r a' ∧ R s' a'

/-- **Refinement**: every behaviour of the machine is a behaviour of the specification. -/
theorem Simulates.trace {R : σ → α → Prop} (h : M.Simulates S R) {t : List (κ × ρ)} {s : σ}
    (ht : M.Trace t s) : ∃ a, S.Trace t a ∧ R s a := by
  induction ht with
  | init h0 =>
    obtain ⟨a, ha, hR⟩ := h.init _ h0
    exact ⟨a, .init ha, hR⟩
  | step _ hk hs ih =>
    obtain ⟨a, ha, hR⟩ := ih
    obtain ⟨r, s', a', he, hsp, hR'⟩ := h.step _ _ _ hR hk
    rw [hs] at he
    cases he
    exact ⟨a', .step ha hsp, hR'⟩

/-- What is related to some state of the specification is an invariant. -/
theorem Simulates.keeps {R : σ → α → Prop} (h : M.Simulates S R) :
    M.Keeps fun s ↦ ∃ a, R s a where
  init s h0 := by
    obtain ⟨a, -, hR⟩ := h.init s h0
    exact ⟨a, hR⟩
  step := by
    rintro s k ⟨a, hR⟩ hk
    obtain ⟨r, s', a', he, -, hR'⟩ := h.step s a k hR hk
    exact ⟨r, s', he, a', hR'⟩

end Machine
