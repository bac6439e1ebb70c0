import Mathlib.Data.Nat.Digits.Lemmas
import Chisaka.Lib.Exec

/-!
# Numerals, and the loop that writes them

`IsNumeral b x ds` says that `ds` is the numeral of `x` in base `b`, with its digits from the most
significant one on: the digits have the value `x`, and there is no leading zero, except that the
numeral of 0 is one zero.  There is exactly one (`isNumeral_zero_iff`, `isNumeral_iff`).

A program gets at the digits the other way round, by dividing again and again.  `Digits.body` is a
round of that loop, which hands a digit to `put`.  The rule is `Digits.run_body`: the loop is a fold
of `put` over the digits.
-/

set_option autoImplicit false

universe u

variable {b x n : ℕ} {ds : List ℕ}

/-- The numeral of `x` in base `b`. -/
structure IsNumeral (b x : ℕ) (ds : List ℕ) : Prop where
  /-- There is a digit. -/
  ne_nil : ds ≠ []
  /-- The digits are digits of the base. -/
  lt : ∀ d ∈ ds, d < b
  /-- They have the value `x`. -/
  value : Nat.ofDigits b ds.reverse = x
  /-- A leading zero is the only digit. -/
  lead : ∀ tail, ds = 0 :: tail → tail = []

theorem isNumeral_zero_iff (hb : 1 < b) : IsNumeral b 0 ds ↔ ds = [0] := by
  constructor
  · intro h
    obtain ⟨d, tail, rfl⟩ := List.exists_cons_of_ne_nil h.ne_nil
    have hd : d = 0 := by
      have hvalue := h.value
      rw [Nat.ofDigits_reverse_cons] at hvalue
      have hpos : 0 < b ^ tail.length := Nat.pow_pos (by omega)
      have hmul : b ^ tail.length * d = 0 := by omega
      exact (Nat.mul_eq_zero.mp hmul).resolve_left (by omega)
    subst hd
    rw [h.lead tail rfl]
  · rintro rfl
    refine ⟨List.cons_ne_nil _ _, fun d hd ↦ ?_, rfl, fun tail h ↦ ?_⟩
    · rw [List.mem_singleton.mp hd]
      omega
    · exact (List.cons_eq_cons.mp h).2.symm

theorem isNumeral_iff (hb : 1 < b) (hx : x ≠ 0) :
    IsNumeral b x ds ↔ ds = (Nat.digits b x).reverse := by
  constructor
  · intro h
    have hdigits := Nat.digits_ofDigits b hb ds.reverse
      (fun d hd ↦ h.lt d (List.mem_reverse.mp hd)) fun hne ↦ by
        rw [List.getLast_reverse]
        intro h0
        obtain ⟨d, tail, rfl⟩ := List.exists_cons_of_ne_nil h.ne_nil
        obtain rfl : d = 0 := h0
        -- a numeral of nothing but zero is that of zero
        have hvalue := h.value
        rw [h.lead tail rfl] at hvalue
        exact hx hvalue.symm
    rw [← h.value, hdigits, List.reverse_reverse]
  · rintro rfl
    refine ⟨?_, fun d hd ↦ ?_, ?_, fun tail h ↦ ?_⟩
    · rw [Ne, List.reverse_eq_nil_iff]
      exact Nat.digits_ne_nil_iff_ne_zero.mpr hx
    · exact Nat.digits_lt_base hb (List.mem_reverse.mp hd)
    · rw [List.reverse_reverse, Nat.ofDigits_digits]
    · have hlast := Nat.getLast_digit_ne_zero b hx
      have hdigits : Nat.digits b x = tail.reverse ++ [0] := by
        rw [← List.reverse_reverse (Nat.digits b x), h, List.reverse_cons]
      simp [hdigits] at hlast

namespace Digits

variable {σ : Type u} {put : ℕ → σ → Exec σ} {s : σ}

/-- A round: take the last digit off, and put it somewhere. -/
def body (b : ℕ) (put : ℕ → σ → Exec σ) : ℕ × σ → Exec ((ℕ × σ) ⊕ σ)
  | (x, s) =>
    if 0 < x then do
      let s ← put (x % b) s
      return .inl (x / b, s)
    else return .inr s

theorem body_zero : body b put (0, s) = .ok (.inr s) := rfl

theorem body_of_pos (hx : 0 < x) :
    body b put (x, s) = (put (x % b) s >>= fun s ↦ .ok (.inl (x / b, s))) := if_pos hx

/-- **The loop puts the digits one after the other**, the least significant one first. -/
theorem run_body (hb : 1 < b) : ∀ {n x : ℕ} {s : σ}, (Nat.digits b x).length < n →
    Loop.run (body b put) n (x, s) = (Nat.digits b x).foldlM (fun s d ↦ put d s) s := by
  intro n
  induction n with
  | zero => exact fun h ↦ absurd h (Nat.not_lt_zero _)
  | succ n ih =>
    intro x s h
    rcases Nat.eq_zero_or_pos x with rfl | hx
    · rw [Loop.run_inr body_zero, Nat.digits_zero]
      rfl
    · rw [Nat.digits_def' hb hx, List.length_cons] at h
      rw [Nat.digits_def' hb hx, List.foldlM_cons]
      have hbody : body b put (x, s) = _ := body_of_pos hx
      cases hput : put (x % b) s with
      | error e =>
        rw [hput] at hbody
        exact Loop.run_error hbody n
      | ok s' =>
        rw [hput] at hbody
        rw [Loop.run_inl hbody]
        exact ih (Nat.lt_of_succ_lt_succ h)

end Digits
