import Mathlib.Algebra.Group.Nat.Defs
import Mathlib.Data.Nat.Basic

/-!
# Fields of words

Hardware packs several values into one word.  Code takes them apart with masks and shifts and puts
them together with shifts and `|||`.  Here both are reduced to `BitVec.extractLsb'` and `++`, for
which the library says what cancels:

* `setWidth_and_shiftLeft_ushiftRight`, `setWidth_ushiftRight_and` and `setWidth_and`: a mask and a
  shift, in either order, or a mask alone, cut out a field;
* `shiftLeft_or_setWidth`: a shifted word `|||` a word that fits below it is the two side by side,
  for numbers `shiftLeft_or_of_lt`; `halves_eq` is the case of two words of 32 bits;
* `extract_append` and `extract_extract_low`: fields side by side, and fields of fields;
* `and_twoPow_ne_zero`: testing a mask of one bit is reading the bit;
* `and_not_and` and `or_and`: clearing and setting bits leaves other bits alone;
* `getLsbD_or_twoPow` and `getLsbD_and_not_twoPow`: setting and clearing one bit.
-/

set_option autoImplicit false

namespace Bits

variable {n w i k v : ℕ}

/-- The mask of the low `w` bits. -/
def mask (n w : ℕ) : BitVec n := (BitVec.allOnes w).setWidth n

theorem getLsbD_mask (n w j : ℕ) : (mask n w).getLsbD j = (decide (j < n) && decide (j < w)) := by
  simp [mask]

/-- The field of `w` bits from bit `i` on, masked where it stands and then shifted down. -/
theorem setWidth_and_shiftLeft_ushiftRight (b : BitVec n) (i w k : ℕ) :
    ((b &&& mask n w <<< i) >>> i).setWidth k = (b.extractLsb' i w).setWidth k := by
  ext j hj
  by_cases hn : i + j < n
  · simp only [BitVec.getElem_setWidth, BitVec.getLsbD_ushiftRight, BitVec.getLsbD_and,
      BitVec.getLsbD_shiftLeft, getLsbD_mask, BitVec.getLsbD_extractLsb']
    by_cases hw : j < w <;> simp [hn, hw]
    omega
  · have hb : b.getLsbD (i + j) = false := BitVec.getLsbD_of_ge b _ (by omega)
    simp [hb]

/-- The same field, shifted down and then masked. -/
theorem setWidth_ushiftRight_and (b : BitVec n) (i w k : ℕ) :
    (b >>> i &&& mask n w).setWidth k = (b.extractLsb' i w).setWidth k := by
  ext j hj
  by_cases hn : i + j < n
  · simp only [BitVec.getElem_setWidth, BitVec.getLsbD_ushiftRight, BitVec.getLsbD_and,
      getLsbD_mask, BitVec.getLsbD_extractLsb']
    by_cases hw : j < w <;> simp [hw]
    omega
  · have hb : b.getLsbD (i + j) = false := BitVec.getLsbD_of_ge b _ (by omega)
    simp [hb]

/-- The low `w` bits. -/
theorem setWidth_and (b : BitVec n) (w k : ℕ) :
    (b &&& mask n w).setWidth k = (b.extractLsb' 0 w).setWidth k := by
  simpa using setWidth_ushiftRight_and b 0 w k

/-- Two words side by side. -/
theorem shiftLeft_or_setWidth (hi : BitVec v) (lo : BitVec w) (n : ℕ) :
    hi.setWidth n <<< w ||| lo.setWidth n = (hi ++ lo).setWidth n := by
  ext j hj
  by_cases hw : j < w
  · simp [BitVec.getLsbD_append, hw]
  · have hlo : lo.getLsbD j = false := BitVec.getLsbD_of_ge lo j (by omega)
    simp [BitVec.getLsbD_append, hw, hlo]

/-- Two numbers side by side. -/
theorem shiftLeft_or_of_lt {low : ℕ} (high : ℕ) (h : low < 2 ^ k) :
    high <<< k ||| low = high * 2 ^ k + low := by
  rw [← Nat.shiftLeft_add_eq_or_of_lt h, Nat.shiftLeft_eq]

/-- Two fields side by side. -/
theorem extract_append (b : BitVec n) (i k l : ℕ) :
    b.extractLsb' (i + k) l ++ b.extractLsb' i k = b.extractLsb' i (l + k) :=
  BitVec.extractLsb'_append_extractLsb'_eq_extractLsb' rfl

/-- A word that was taken apart into two halves is put together again. -/
theorem halves_eq (a : BitVec 64) :
    ((a >>> 32).setWidth 32).setWidth 64 <<< 32 ||| ((a &&& 0xFFFFFFFF#64).setWidth 32).setWidth 64
      = a := by
  have hlo := setWidth_and a 32 32
  have hhi : (a >>> 32).setWidth 32 = a.extractLsb' 32 32 := rfl
  rw [BitVec.setWidth_eq] at hlo
  rw [hhi, show a &&& 0xFFFFFFFF#64 = a &&& mask 64 32 from rfl, hlo,
    shiftLeft_or_setWidth, extract_append a 0 32 32, BitVec.extractLsb'_eq_self]
  exact BitVec.setWidth_eq a

/-- A field of the low bits is a field of the word. -/
theorem extract_extract_low (b : BitVec n) {m : ℕ} (h : i + k ≤ w) (hw : w ≤ m) :
    ((b.extractLsb' 0 w).setWidth m).extractLsb' i k = b.extractLsb' i k := by
  ext j hj
  have hjw : i + j < w := by omega
  have hjm : i + j < m := by omega
  simp [hjw, hjm]

/-- A mask of one bit tests it. -/
theorem and_twoPow_ne_zero (b : BitVec n) (i : ℕ) :
    b &&& BitVec.twoPow n i ≠ 0 ↔ b.getLsbD i = true := by
  rw [BitVec.and_twoPow]
  by_cases h : b.getLsbD i
  · have hi : i < n := BitVec.lt_of_getLsbD h
    have hne : BitVec.twoPow n i ≠ 0#n := by
      intro h0
      have hbit := congrArg (fun x ↦ x.getLsbD i) h0
      simp [hi] at hbit
    simp [h, hne]
  · simp [h]

/-! ## Setting and clearing -/

section Masks

variable {x a d : BitVec n}

/-- Clearing some bits leaves others alone. -/
theorem and_not_and (h : a &&& d = 0) : x &&& ~~~a &&& d = x &&& d := by
  ext j hj
  have hbit : (a[j] && d[j]) = false := by
    rw [← BitVec.getElem_and, h]
    exact BitVec.getElem_zero hj
  simp only [BitVec.getElem_and, BitVec.getElem_not]
  cases ha : a[j]
  · rw [Bool.not_false, Bool.and_true]
  · rw [ha, Bool.true_and] at hbit
    rw [hbit, Bool.and_false, Bool.and_false]

/-- Setting some bits leaves others alone. -/
theorem or_and (h : a &&& d = 0) : (x ||| a) &&& d = x &&& d := by
  rw [BitVec.and_or_distrib_right, h]
  exact BitVec.or_zero

/-- What was cleared is clear. -/
theorem and_not_and_self : x &&& ~~~a &&& a = 0 := by
  rw [BitVec.and_assoc, BitVec.and_comm (~~~a), BitVec.and_not_self]
  exact BitVec.and_zero

/-- What was set is set. -/
theorem or_and_self : (x ||| a) &&& a = a := by
  ext j hj
  simp only [BitVec.getElem_and, BitVec.getElem_or]
  cases x[j] <;> cases a[j] <;> rfl

end Masks

section Flags

variable {x : BitVec n} {b : BitVec v} {j : ℕ}

/-- Setting one bit. -/
theorem getLsbD_or_twoPow (hk : k < n) :
    (x ||| BitVec.twoPow n k).getLsbD j = if j = k then true else x.getLsbD j := by
  rw [BitVec.getLsbD_or, BitVec.getLsbD_twoPow]
  by_cases hj : j = k
  · simp [hj, hk]
  · simp [hj, Ne.symm hj]

/-- Clearing one bit. -/
theorem getLsbD_and_not_twoPow :
    (x &&& ~~~BitVec.twoPow n k).getLsbD j = if j = k then false else x.getLsbD j := by
  rw [BitVec.getLsbD_and, BitVec.getLsbD_not, BitVec.getLsbD_twoPow]
  by_cases hj : j = k
  · simp [hj]
  by_cases hn : j < n
  · simp [hj, Ne.symm hj, hn]
  · simp [hj, BitVec.getLsbD_of_ge x j (by omega)]

/-- The complement of a small word that was first widened with zeros, and is then widened by its
sign: all the upper bits are set. -/
theorem signExtend_not_setWidth (hv : v < w) : (~~~(b.setWidth w)).signExtend n
    = ~~~(b.setWidth n) := by
  have hmsb : (~~~(b.setWidth w)).msb = true := by
    rw [BitVec.msb_eq_getLsbD_last, BitVec.getLsbD_not, BitVec.getLsbD_setWidth,
      BitVec.getLsbD_of_ge b _ (by omega)]
    simp
    omega
  refine BitVec.eq_of_getLsbD_eq fun i hi ↦ ?_
  rw [BitVec.getLsbD_signExtend, hmsb, BitVec.getLsbD_not, BitVec.getLsbD_not,
    BitVec.getLsbD_setWidth, BitVec.getLsbD_setWidth]
  by_cases hw : i < w
  · simp [hi, hw]
  · simp [hi, hw, BitVec.getLsbD_of_ge b i (by omega)]

end Flags

end Bits
