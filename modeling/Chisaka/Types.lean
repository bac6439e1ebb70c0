import Chisaka.Lib.Exec

/-!
# Machine words and assertions

Addresses and counters are natural numbers.  Where the kernel computes a 64-bit sum or difference
that could leave the range, the model does too: `add64`, `sub64` and `mul64` are the wrapping
operations, and `add64_of_lt` and `sub64_of_le` say when they are the ordinary ones.
-/

set_option autoImplicit false

namespace Chisaka

/-- The sum of two 64-bit values. -/
def add64 (a b : ℕ) : ℕ := (a + b) % 2 ^ 64

/-- The difference of two 64-bit values. -/
def sub64 (a b : ℕ) : ℕ := (a + 2 ^ 64 - b) % 2 ^ 64

/-- The product of two 64-bit values. -/
def mul64 (a b : ℕ) : ℕ := a * b % 2 ^ 64

theorem add64_of_lt {a b : ℕ} (h : a + b < 2 ^ 64) : add64 a b = a + b :=
  Nat.mod_eq_of_lt h

theorem sub64_of_le {a b : ℕ} (h : b ≤ a) (ha : a < 2 ^ 64) : sub64 a b = a - b := by
  rw [sub64]
  omega

/-- `kassert`: the kernel prints a message and halts unless the condition holds. -/
abbrev kassert (p : Prop) [Decidable p] : Exec Unit := Exec.check p

end Chisaka
