import Mathlib.Algebra.Group.Nat.Defs
import Mathlib.Data.Nat.Log

/-!
# Rounding up to a power of two

The usual way to round a word up to a power of two is to copy its highest bit into all bits below
it, and then to add one.  The copying takes one step `n ||| n >>> k` for each power of two `k`.

`Smeared k x y` is what the steps keep: `y` is `x` laid over itself `k` times, each copy shifted
down one bit further.  A step doubles the number of copies (`Smeared.double`), and when there are as
many copies as `x` has bits, `y + 1` is the power of two above `x` (`Smeared.add_one_eq`).
-/

set_option autoImplicit false

namespace Bits

/-- The bits of `y` are those of `x`, and of `x` shifted down by `1`, …, `k - 1`. -/
def Smeared (k x y : ℕ) : Prop :=
  ∀ j, y.testBit j = true ↔ ∃ i < k, x.testBit (j + i) = true

namespace Smeared

variable {k x y : ℕ}

theorem refl (x : ℕ) : Smeared 1 x x := by
  intro j
  constructor
  · exact fun h ↦ ⟨0, Nat.one_pos, h⟩
  · rintro ⟨i, hi, h⟩
    obtain rfl : i = 0 := by omega
    exact h

/-- **A step doubles the number of copies.** -/
theorem double (h : Smeared k x y) : Smeared (k + k) x (y ||| y >>> k) := by
  intro j
  rw [Nat.testBit_or, Nat.testBit_shiftRight, Bool.or_eq_true, h j, h (k + j)]
  constructor
  · rintro (⟨i, hi, hbit⟩ | ⟨i, hi, hbit⟩)
    · exact ⟨i, by omega, hbit⟩
    · exact ⟨k + i, by omega, by rwa [show j + (k + i) = k + j + i by omega]⟩
  · rintro ⟨i, hi, hbit⟩
    by_cases hik : i < k
    · exact .inl ⟨i, hik, hbit⟩
    · exact .inr ⟨i - k, by omega, by rwa [show k + j + (i - k) = j + i by omega]⟩

/-- The bits up to the highest one of `x` are set, and no others. -/
theorem testBit_iff (h : Smeared k x y) (hx : x < 2 ^ k) (j : ℕ) :
    y.testBit j = true ↔ j < Nat.clog 2 (x + 1) := by
  rw [h j, Nat.lt_clog_iff_pow_lt (by decide)]
  constructor
  · rintro ⟨i, -, hbit⟩
    have hpow : 2 ^ j ≤ 2 ^ (j + i) := Nat.pow_le_pow_right (by decide) (Nat.le_add_right j i)
    exact Nat.lt_succ_of_le (hpow.trans (Nat.ge_two_pow_of_testBit hbit))
  · intro hj
    obtain ⟨i, hi, hbit⟩ := Nat.exists_ge_and_testBit_of_ge_two_pow (Nat.le_of_lt_succ hj)
    have hik : i < k := by
      by_contra hk
      have hlow := Nat.testBit_lt_two_pow (hx.trans_le (Nat.pow_le_pow_right (by decide)
        (Nat.le_of_not_lt hk)))
      rw [hlow] at hbit
      cases hbit
    exact ⟨i - j, by omega, by rwa [Nat.add_sub_of_le hi]⟩

/-- **Enough copies and one more** make the next power of two. -/
theorem add_one_eq (h : Smeared k x y) (hx : x < 2 ^ k) : y + 1 = 2 ^ Nat.clog 2 (x + 1) := by
  have hy : y = 2 ^ Nat.clog 2 (x + 1) - 1 := by
    refine Nat.eq_of_testBit_eq fun j ↦ ?_
    rw [Nat.testBit_two_pow_sub_one, Bool.eq_iff_iff, h.testBit_iff hx, decide_eq_true_iff]
  rw [hy, Nat.sub_add_cancel Nat.one_le_two_pow]

end Smeared

end Bits
