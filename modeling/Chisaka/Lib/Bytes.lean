import Mathlib.Tactic.Ring
import Chisaka.Lib.Exec

/-!
# Byte-addressed memory

`Bytes.Memory` is the contents of memory, one byte an address.  Words are read and written in
little-endian order by `readLE` and `writeLE`, at any address and of any number of bytes; the
64-bit ones are `readWord` and `writeWord`.

Everything a proof needs about them is three facts: a word read back is the word written
(`readWord_writeWord`), a write leaves every word alone that it does not overlap
(`readWord_writeWord_of_disjoint`), and a word depends on its own bytes only (`readLE_congr`).
`WordsOnly` is the frame of code that writes words at known places only.
`load` and `store` are the accesses of a program, which fault at the null address.
-/

set_option autoImplicit false

namespace Bytes

/-- The contents of memory. -/
abbrev Memory := ℕ → UInt8

/-- The `n` bytes at `a`, as a number, least significant byte first. -/
def readLE (m : Memory) (a : ℕ) : ℕ → ℕ
  | 0 => 0
  | n + 1 => (m a).toNat + 256 * readLE m (a + 1) n

/-- Write the low `n` bytes of `v` at `a`, least significant byte first. -/
def writeLE (m : Memory) (a n v : ℕ) : Memory :=
  fun x ↦ if a ≤ x ∧ x < a + n then UInt8.ofNat (v / 256 ^ (x - a)) else m x

/-- The 64-bit word at `a`. -/
def readWord (m : Memory) (a : ℕ) : ℕ := readLE m a 8

/-- Write the 64-bit word `v` at `a`. -/
def writeWord (m : Memory) (a v : ℕ) : Memory := writeLE m a 8 v

variable {m m' : Memory} {a b n v : ℕ}

/-! ## Reading -/

/-- What is read depends on the bytes in range only. -/
theorem readLE_congr (h : ∀ x, a ≤ x → x < a + n → m x = m' x) :
    readLE m a n = readLE m' a n := by
  induction n generalizing a with
  | zero => rfl
  | succ n ih =>
    rw [readLE, readLE, h a (Nat.le_refl a) (by omega)]
    rw [ih fun x hx hx' ↦ h x (by omega) (by omega)]

theorem readLE_lt (m : Memory) (a n : ℕ) : readLE m a n < 256 ^ n := by
  induction n generalizing a with
  | zero => simp [readLE]
  | succ n ih =>
    have h1 := (m a).toNat_lt
    have h2 := ih (a + 1)
    rw [readLE, pow_succ]
    omega

theorem readWord_lt (m : Memory) (a : ℕ) : readWord m a < 2 ^ 64 :=
  readLE_lt m a 8

theorem readLE_zero (a n : ℕ) : readLE (fun _ ↦ 0) a n = 0 := by
  induction n generalizing a with
  | zero => rfl
  | succ n ih =>
    rw [readLE, ih]
    rfl

theorem readWord_zero (a : ℕ) : readWord (fun _ ↦ 0) a = 0 := readLE_zero a 8

/-- Words agree where the memories agree on their eight bytes. -/
theorem readWord_congr (h : ∀ x, a ≤ x → x < a + 8 → m x = m' x) :
    readWord m a = readWord m' a :=
  readLE_congr h

/-! ## Reading what was written -/

/-- Bytes that spell out `v` are read back as `v`, truncated. -/
theorem readLE_of_bytes (h : ∀ i, i < n → m (a + i) = UInt8.ofNat (v / 256 ^ i)) :
    readLE m a n = v % 256 ^ n := by
  induction n generalizing a v with
  | zero => simp [readLE, Nat.mod_one]
  | succ n ih =>
    have h0 : (m a).toNat = v % 256 := by
      have := h 0 (by omega)
      simp only [Nat.add_zero, pow_zero, Nat.div_one] at this
      rw [this, UInt8.toNat_ofNat']
    have hrest : readLE m (a + 1) n = v / 256 % 256 ^ n := by
      refine ih fun i hi ↦ ?_
      have := h (i + 1) (by omega)
      rw [show a + 1 + i = a + (i + 1) by omega, this, pow_succ, Nat.mul_comm,
        Nat.div_div_eq_div_mul]
    rw [readLE, h0, hrest, pow_succ, Nat.mul_comm (256 ^ n), Nat.mod_mul]

theorem readLE_writeLE (m : Memory) (a n v : ℕ) :
    readLE (writeLE m a n v) a n = v % 256 ^ n := by
  refine readLE_of_bytes fun i hi ↦ ?_
  rw [writeLE, if_pos ⟨by omega, by omega⟩, Nat.add_sub_cancel_left]

/-- **A word read back is the word written.** -/
theorem readWord_writeWord (hv : v < 2 ^ 64) : readWord (writeWord m a v) a = v := by
  rw [readWord, writeWord, readLE_writeLE]
  exact Nat.mod_eq_of_lt hv

theorem writeWord_apply_of_lt {x : ℕ} (h : x < a) : writeWord m a v x = m x :=
  if_neg (by omega)

theorem writeWord_apply_of_ge {x : ℕ} (h : a + 8 ≤ x) : writeWord m a v x = m x :=
  if_neg (by omega)

/-- **A write leaves alone every word it does not overlap.** -/
theorem readWord_writeWord_of_disjoint (h : a + 8 ≤ b ∨ b + 8 ≤ a) :
    readWord (writeWord m a v) b = readWord m b := by
  refine readWord_congr fun x hx hx' ↦ ?_
  rcases h with h | h
  · exact writeWord_apply_of_ge (by omega)
  · exact writeWord_apply_of_lt (by omega)

/-! ## Frames -/

variable {m'' : Memory} {S T : List ℕ}

/-- Nothing but the words at the addresses in `S` differs between the two memories. -/
def WordsOnly (S : List ℕ) (m m' : Memory) : Prop :=
  ∀ x, (∀ a ∈ S, x < a ∨ a + 8 ≤ x) → m' x = m x

theorem WordsOnly.refl (S : List ℕ) (m : Memory) : WordsOnly S m m := fun _ _ ↦ rfl

theorem WordsOnly.trans (h : WordsOnly S m m') (h' : WordsOnly S m' m'') : WordsOnly S m m'' :=
  fun x hx ↦ (h' x hx).trans (h x hx)

theorem WordsOnly.mono (h : WordsOnly S m m') (hST : ∀ a ∈ S, a ∈ T) : WordsOnly T m m' :=
  fun x hx ↦ h x fun a ha ↦ hx a (hST a ha)

theorem wordsOnly_writeWord (ha : a ∈ S) : WordsOnly S m (writeWord m a v) := by
  intro x hx
  rcases hx a ha with h | h
  · exact writeWord_apply_of_lt h
  · exact writeWord_apply_of_ge h

/-- A word that overlaps none of those written keeps its value. -/
theorem WordsOnly.readWord (h : WordsOnly S m m') (hb : ∀ a ∈ S, a + 8 ≤ b ∨ b + 8 ≤ a) :
    readWord m' b = readWord m b := by
  refine readWord_congr fun x hx hx' ↦ h x fun a ha ↦ ?_
  have := hb a ha
  omega

/-! ## Accesses of a program -/

/-- Read the word at `a`. -/
def load (m : Memory) (a : ℕ) : Exec ℕ :=
  if a = 0 then .error .nullDeref else .ok (readWord m a)

/-- Write `v` to the word at `a`. -/
def store (m : Memory) (a v : ℕ) : Exec Memory :=
  if a = 0 then .error .nullDeref else .ok (writeWord m a v)

@[simp] theorem load_null (m : Memory) : load m 0 = .error .nullDeref := rfl

@[simp] theorem store_null (m : Memory) (v : ℕ) : store m 0 v = .error .nullDeref := rfl

@[simp] theorem load_of_ne (h : a ≠ 0) : load m a = .ok (readWord m a) := if_neg h

@[simp] theorem store_of_ne (h : a ≠ 0) : store m a v = .ok (writeWord m a v) := if_neg h

/-! ## Writes by others

Between two calls the owners of some addresses may write whatever they like into them. -/

/-- The memory in which the bytes of `[a, a + n)` have been replaced by those of `f`. -/
def overlay (m : Memory) (a n : ℕ) (f : ℕ → UInt8) : Memory :=
  fun x ↦ if a ≤ x ∧ x < a + n then f x else m x

theorem overlay_apply_of_lt {x : ℕ} {f : ℕ → UInt8} (h : x < a) : overlay m a n f x = m x :=
  if_neg (by omega)

theorem overlay_apply_of_ge {x : ℕ} {f : ℕ → UInt8} (h : a + n ≤ x) : overlay m a n f x = m x :=
  if_neg (by omega)

theorem readWord_overlay_of_disjoint {f : ℕ → UInt8} (h : a + n ≤ b ∨ b + 8 ≤ a) :
    readWord (overlay m a n f) b = readWord m b := by
  refine readWord_congr fun x hx hx' ↦ ?_
  rcases h with h | h
  · exact overlay_apply_of_ge (by omega)
  · exact overlay_apply_of_lt (by omega)

end Bytes
