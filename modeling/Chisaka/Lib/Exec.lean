import Mathlib.Algebra.Group.Nat.Defs
import Mathlib.Logic.Function.Basic
import Mathlib.Order.Basic

/-!
# Executions that may fault, and bounded loops

A low-level program is embedded as a function into `Exec α`: it returns a value of `α` or stops
with a `Fault`.  There are four ways to stop: following a null pointer, following a pointer to an
object that is not alive, failing an assertion, and not stopping at all.

The last one needs a word.  A `while` loop is `Loop.run body n`, at most `n` rounds of `body`, and
a loop that still wants to go on after `n` rounds is reported as `Fault.diverges`.  Programs that
walk through 64-bit memory use `Loop.exec`, which allows `2 ^ 64` rounds: a walk that reads memory
without writing it and takes more rounds than there are addresses has come back to an address it
has already seen, and never ends.

The total-correctness rule for a loop is `Loop.run_of_variant`: an invariant together with a bound
that every round decreases.  `Loop.run_map` compares two loops.  A `for` loop over a range is a
`foldlM`; its rules are `Exec.foldlM_range_induct` and `Exec.foldlM_range_returns`, and
`Exec.foldlM_range_update` for rounds that do not depend on each other.  `Exec.foldlM_map` compares
two of them.
-/

set_option autoImplicit false

universe u v w

/-- The ways an execution can stop without a result. -/
inductive Fault
  /-- A null pointer was followed. -/
  | nullDeref
  /-- A pointer to no live object was followed. -/
  | dangling
  /-- An assertion failed. -/
  | assertFailed
  /-- A loop did not end. -/
  | diverges
  deriving DecidableEq, Repr

/-- The result of running a program: a value or a fault. -/
abbrev Exec (α : Type u) := Except Fault α

namespace Exec

variable {α : Type u} {β : Type u}

@[simp] theorem ok_bind (a : α) (f : α → Exec β) : ((Except.ok a : Exec α) >>= f) = f a := rfl

@[simp] theorem error_bind (e : Fault) (f : α → Exec β) :
    ((Except.error e : Exec α) >>= f) = .error e := rfl

@[simp] theorem pure_eq (a : α) : (pure a : Exec α) = .ok a := rfl

@[simp] theorem throw_eq (e : Fault) : (throw e : Exec α) = .error e := rfl

/-- **A sequence succeeds exactly when both halves do.** -/
theorem bind_eq_ok {x : Exec α} {f : α → Exec β} {b : β} :
    (x >>= f) = .ok b ↔ ∃ a, x = .ok a ∧ f a = .ok b := by
  cases x with
  | error e => simp
  | ok a => simp

/-- Stop with `assertFailed` unless `p` holds. -/
def check (p : Prop) [Decidable p] : Exec Unit :=
  if p then .ok () else .error .assertFailed

@[simp] theorem check_of {p : Prop} [Decidable p] (h : p) : check p = .ok () := if_pos h

@[simp] theorem check_of_not {p : Prop} [Decidable p] (h : ¬p) :
    check p = .error .assertFailed := if_neg h

/-- What comes after an assertion is reached when it holds. -/
theorem check_bind_eq_ok {γ : Type} {p : Prop} [Decidable p] {f : Unit → Exec γ} {c : γ} :
    (check p >>= f) = .ok c ↔ p ∧ f () = .ok c := by
  by_cases h : p
  · rw [check_of h, ok_bind, and_iff_right h]
  · rw [check_of_not h, error_bind]
    exact iff_of_false nofun fun h' ↦ h h'.1

/-- A loop over a list in which one element always faults. -/
theorem foldlM_error {σ : Type u} {ι : Type v} {f : σ → ι → Exec σ} {l : List ι} {i : ι}
    (hi : i ∈ l) (h : ∀ s, ∃ e, f s i = .error e) (s : σ) : ∃ e, l.foldlM f s = .error e := by
  induction l generalizing s with
  | nil => exact absurd hi List.not_mem_nil
  | cons j l ih =>
    rw [List.foldlM_cons]
    cases hj : f s j with
    | error e => exact ⟨e, rfl⟩
    | ok s₁ =>
      rcases List.mem_cons.mp hi with rfl | hi
      · obtain ⟨e, he⟩ := h s
        rw [he] at hj
        cases hj
      · exact ih hi s₁

/-- The invariant rule of a loop over a list that returns. -/
theorem foldlM_returns {σ : Type u} {ι : Type v} {f : σ → ι → Exec σ} {I : σ → Prop}
    {l : List ι} (hstep : ∀ i ∈ l, ∀ s, I s → ∃ s', f s i = .ok s' ∧ I s') {s : σ} (hs : I s) :
    ∃ s', l.foldlM f s = .ok s' ∧ I s' := by
  induction l generalizing s with
  | nil => exact ⟨s, rfl, hs⟩
  | cons i l ih =>
    obtain ⟨s₁, h₁, hI⟩ := hstep i List.mem_cons_self s hs
    rw [List.foldlM_cons, h₁]
    exact ih (fun j hj ↦ hstep j (List.mem_cons_of_mem i hj)) hI

/-- **A loop over a list that follows another one**, round by round. -/
theorem foldlM_map {σ τ : Type u} {ι : Type v} {f : σ → ι → Exec σ} {g : τ → ι → Exec τ}
    {view : σ → τ} (h : ∀ s i, g (view s) i = (f s i).map view) (l : List ι) (s : σ) :
    l.foldlM g (view s) = (l.foldlM f s).map view := by
  induction l generalizing s with
  | nil => rfl
  | cons i l ih =>
    rw [List.foldlM_cons, List.foldlM_cons, h]
    cases f s i with
    | error e => rfl
    | ok s₁ => exact ih s₁

/-- A search whose test always answers is a search of the list. -/
theorem findM?_eq {ι : Type} {f : ι → Exec Bool} {p : ι → Bool} {l : List ι}
    (h : ∀ i ∈ l, f i = .ok (p i)) : l.findM? f = .ok (l.find? p) := by
  induction l with
  | nil => rfl
  | cons i l ih =>
    rw [List.findM?, List.find?_cons, h i List.mem_cons_self, ok_bind]
    cases p i with
    | true => rfl
    | false => exact ih fun j hj ↦ h j (List.mem_cons_of_mem i hj)

/-! ### Loops over a range -/

/-- The invariant rule of a counting loop that cannot fault. -/
theorem foldl_range_induct {σ : Type u} {f : σ → ℕ → σ} {I : ℕ → σ → Prop} {n : ℕ} {s : σ}
    (h0 : I 0 s) (hstep : ∀ i < n, ∀ s, I i s → I (i + 1) (f s i)) :
    I n ((List.range n).foldl f s) := by
  induction n with
  | zero => exact h0
  | succ n ih =>
    rw [List.range_succ, List.foldl_append]
    exact hstep n (Nat.lt_succ_self n) _ (ih fun i hi ↦ hstep i (by omega))

section Range

variable {σ : Type u} {f : σ → ℕ → Exec σ} {I : ℕ → σ → Prop} {n : ℕ} {s s' : σ}

theorem foldlM_range_succ :
    (List.range (n + 1)).foldlM f s = ((List.range n).foldlM f s >>= fun s ↦ f s n) := by
  rw [List.range_succ, List.foldlM_append]
  refine congrArg _ (funext fun s₁ ↦ ?_)
  rw [List.foldlM_cons]
  cases f s₁ n <;> rfl

/-- **The invariant rule of a counting loop**, when the loop is known to return. -/
theorem foldlM_range_induct (h0 : I 0 s)
    (hstep : ∀ i < n, ∀ s s', I i s → f s i = .ok s' → I (i + 1) s')
    (hs : (List.range n).foldlM f s = .ok s') : I n s' := by
  induction n generalizing s' with
  | zero =>
    cases hs
    exact h0
  | succ n ih =>
    rw [foldlM_range_succ, bind_eq_ok] at hs
    obtain ⟨s₁, hs₁, hs'⟩ := hs
    exact hstep n (Nat.lt_succ_self n) s₁ s' (ih (fun i hi ↦ hstep i (by omega)) hs₁) hs'

/-- The same rule when every round is known to return; then so does the loop. -/
theorem foldlM_range_returns (h0 : I 0 s)
    (hstep : ∀ i < n, ∀ s, I i s → ∃ s', f s i = .ok s' ∧ I (i + 1) s') :
    ∃ s', (List.range n).foldlM f s = .ok s' ∧ I n s' := by
  induction n with
  | zero => exact ⟨s, rfl, h0⟩
  | succ n ih =>
    obtain ⟨s₁, hs₁, hI⟩ := ih fun i hi ↦ hstep i (by omega)
    obtain ⟨s', hs', hI'⟩ := hstep n (Nat.lt_succ_self n) s₁ hI
    refine ⟨s', ?_, hI'⟩
    rw [foldlM_range_succ, hs₁, ok_bind, hs']

/-- **A loop over places**, whose rounds each replace what is at one place, returns when all the
replacements do. -/
theorem foldlM_range_update {α : Type u} {f : ℕ → α → Exec α} {g g' : ℕ → α} :
    (List.range n).foldlM (fun g i ↦ do let a ← f i (g i); return Function.update g i a) g
        = .ok g' ↔
      (∀ i < n, f i (g i) = .ok (g' i)) ∧ ∀ i, n ≤ i → g' i = g i := by
  induction n generalizing g' with
  | zero =>
    refine ⟨fun h ↦ ?_, fun h ↦ ?_⟩
    · cases h
      exact ⟨fun i hi ↦ absurd hi (Nat.not_lt_zero i), fun _ _ ↦ rfl⟩
    · rw [funext fun i ↦ h.2 i (Nat.zero_le i)]
      rfl
  | succ n ih =>
    rw [foldlM_range_succ, bind_eq_ok]
    constructor
    · rintro ⟨g₁, hg₁, h⟩
      obtain ⟨a, ha, hg'⟩ := bind_eq_ok.mp h
      obtain rfl := Except.ok.inj hg'
      obtain ⟨hlt, hge⟩ := ih.mp hg₁
      rw [hge n (Nat.le_refl n)] at ha
      refine ⟨fun i hi ↦ ?_, fun i hi ↦ ?_⟩
      · by_cases hin : i = n
        · rw [hin, Function.update_self, ha]
        · rw [Function.update_of_ne hin, hlt i (by omega)]
      · rw [Function.update_of_ne (by omega), hge i (by omega)]
    · rintro ⟨hlt, hge⟩
      refine ⟨Function.update g' n (g n), ih.mpr ⟨fun i hi ↦ ?_, fun i hi ↦ ?_⟩, ?_⟩
      · rw [Function.update_of_ne (Nat.ne_of_lt hi), hlt i (by omega)]
      · by_cases hin : i = n
        · rw [hin, Function.update_self]
        · rw [Function.update_of_ne hin, hge i (by omega)]
      · rw [Function.update_self, hlt n (Nat.lt_succ_self n), ok_bind, pure_eq,
          Function.update_idem, Function.update_eq_self]

end Range

end Exec

namespace Loop

variable {σ : Type u} {ρ : Type v}

/-- At most `n` rounds of `body`, started in `s`.  A round ends the loop with `.inr r`, or hands
the next round its state with `.inl s'`. -/
def run (body : σ → Exec (σ ⊕ ρ)) : ℕ → σ → Exec ρ
  | 0, _ => .error .diverges
  | n + 1, s =>
    match body s with
    | .error e => .error e
    | .ok (.inl s') => run body n s'
    | .ok (.inr r) => .ok r

/-- The number of rounds after which a walk through 64-bit memory is known to be cyclic. -/
def rounds : ℕ := 2 ^ 64

/-- The loop of a program over 64-bit memory. -/
def exec (body : σ → Exec (σ ⊕ ρ)) (s : σ) : Exec ρ := run body rounds s

variable {body : σ → Exec (σ ⊕ ρ)}

theorem run_inl {s s' : σ} (h : body s = .ok (.inl s')) (n : ℕ) :
    run body (n + 1) s = run body n s' := by
  rw [run, h]

theorem run_inr {s : σ} {r : ρ} (h : body s = .ok (.inr r)) (n : ℕ) :
    run body (n + 1) s = .ok r := by
  rw [run, h]

theorem run_error {s : σ} {e : Fault} (h : body s = .error e) (n : ℕ) :
    run body (n + 1) s = .error e := by
  rw [run, h]

/-- **A loop that follows another one**, round by round. -/
theorem run_map {τ : Type u} {body' : τ → Exec (τ ⊕ ρ)} {f : σ → τ}
    (h : ∀ s, body' (f s) = (body s).map (Sum.map f id)) :
    ∀ (n : ℕ) (s : σ), run body' n (f s) = run body n s := by
  intro n
  induction n with
  | zero => exact fun _ ↦ rfl
  | succ n ih =>
    intro s
    have hs := h s
    cases hb : body s with
    | error e =>
      rw [hb] at hs
      rw [run_error hb, run_error hs]
    | ok o =>
      rw [hb] at hs
      cases o with
      | inl s' =>
        rw [run_inl hb, run_inl hs]
        exact ih s'
      | inr r => exact (run_inr hs n).trans (run_inr hb n).symm

/-- The states that the rounds of a loop are started in. -/
inductive Visits (body : σ → Exec (σ ⊕ ρ)) (s : σ) : σ → Prop
  | refl : Visits body s s
  | step {t u : σ} (h : Visits body s t) (hb : body t = .ok (.inl u)) : Visits body s u

/-- A loop that ends does so from every state that it gets to. -/
theorem Visits.exists_run {s t : σ} {r : ρ} {n : ℕ} (h : Visits body s t)
    (hr : run body n s = .ok r) : ∃ m, run body m t = .ok r := by
  induction h with
  | refl => exact ⟨n, hr⟩
  | @step t u _ hb ih =>
    obtain ⟨m, hm⟩ := ih
    cases m with
    | zero => cases hm
    | succ m => exact ⟨m, run_inl hb m ▸ hm⟩

/-- A loop that every round leads back to `I` does not end. -/
theorem run_diverges (I : σ → Prop) (hstep : ∀ s, I s → ∃ s', body s = .ok (.inl s') ∧ I s') :
    ∀ (n : ℕ) {s : σ}, I s → run body n s = .error .diverges := by
  intro n
  induction n with
  | zero => exact fun _ ↦ rfl
  | succ n ih =>
    intro s hs
    obtain ⟨s', hb, hs'⟩ := hstep s hs
    rw [run_inl hb]
    exact ih hs'

/-- A round that ends the loop with the result of `x`. -/
theorem run_bind_inr {σ ρ : Type u} {body : σ → Exec (σ ⊕ ρ)} {s : σ} {x : Exec ρ}
    (h : body s = (x >>= fun r ↦ .ok (.inr r))) (n : ℕ) : run body (n + 1) s = x := by
  rw [run, h]
  cases x <;> rfl

theorem rounds_eq : rounds = (2 ^ 64 - 1) + 1 := rfl

/-- A loop whose first round ends it. -/
theorem exec_inr {s : σ} {r : ρ} (h : body s = .ok (.inr r)) : exec body s = .ok r := by
  rw [exec, rounds_eq]
  exact run_inr h _

/-- A loop whose first round faults. -/
theorem exec_error {s : σ} {e : Fault} (h : body s = .error e) : exec body s = .error e := by
  rw [exec, rounds_eq]
  exact run_error h _

/-- **The total-correctness rule.**  `I n` is an invariant with a bound: from a state of `I n`, a
round either ends with a result of `Q` or leads to a state of `I m` for a smaller `m`.  Then the
loop ends in `Q`, within as many rounds as the bound allows. -/
theorem run_of_variant (I : ℕ → σ → Prop) (Q : ρ → Prop)
    (hstep : ∀ n s, I n s → (∃ r, body s = .ok (.inr r) ∧ Q r) ∨
      ∃ m s', m < n ∧ body s = .ok (.inl s') ∧ I m s') :
    ∀ {k n : ℕ} {s : σ}, I n s → n < k → ∃ r, run body k s = .ok r ∧ Q r := by
  intro k
  induction k with
  | zero => intro n s _ hn; exact absurd hn (Nat.not_lt_zero n)
  | succ k ih =>
    intro n s hI hn
    rcases hstep n s hI with ⟨r, hb, hQ⟩ | ⟨m, s', hlt, hb, hI'⟩
    · exact ⟨r, run_inr hb k, hQ⟩
    · rw [run_inl hb k]
      exact ih hI' (by omega)

end Loop
