import Mathlib.Data.Nat.Find
import Mathlib.Order.Monotone.Basic
import Chisaka.Lib.Bits
import Chisaka.Lib.Exec

/-!
# The main counter of the HPET

The main counter is a 64-bit register that counts up while the kernel reads it, and the kernel reads
it in two halves.  `MainCounter` is what the timer does during one call: the value of the counter at
each of the register reads that the call makes, which may advance by any amount from one read to the
next.

`readMainCounter` reads the high half, the low half and the high half again, and retries while the
two high halves differ.  If the first round succeeds then the counter had the same high half
throughout, and the value put together from the halves lies between the first and the last one.  A
retry reads the high half into `low` as well; what then comes back is
`MainCounter.readMainCounter_between_iff`.

`setMainCounter` waits for the counter to be disabled, for ever if it is not
(`Registers.setMainCounter_of_not_disabled`), and writes the two halves.  While it is
disabled the registers are a counter that stands still (`Registers.mainCounter`), and
`Registers.roundTrips_iff` says which values `readMainCounter` gives back: the low half is masked
with 16 bits.
-/

set_option autoImplicit false

namespace X8664.Timers

/-- The value of the main counter at each register read of a call. -/
structure MainCounter where
  /-- The value at the `k`-th read. -/
  value : ℕ → ℕ
  /-- It has 64 bits. -/
  lt : ∀ k, value k < 2 ^ 64
  /-- It only ever advances. -/
  mono : Monotone value

namespace MainCounter

/-- What the `k`-th register read gives if it reads `gMainCounterHi`. -/
def gMainCounterHi (c : MainCounter) (k : ℕ) : ℕ := c.value k / 2 ^ 32

/-- What the `k`-th register read gives if it reads `gMainCounterLo`. -/
def gMainCounterLo (c : MainCounter) (k : ℕ) : ℕ := c.value k % 2 ^ 32

/-- The locals of `ReadMainCounter`, and the number of register reads so far. -/
structure Locals where
  /-- `high`. -/
  high : ℕ
  /-- `low`. -/
  low : ℕ
  /-- `high2`. -/
  high2 : ℕ
  /-- The register reads made. -/
  reads : ℕ

/-- The `while` loop of `ReadMainCounter`.  It ends with the count, and the number of register
reads that were made. -/
def readBody (c : MainCounter) (s : Locals) : Exec (Locals ⊕ (ℕ × ℕ)) :=
  if s.high2 ≠ s.high then
    return .inl {
      high := c.gMainCounterHi s.reads
      low := c.gMainCounterHi (s.reads + 1)
      high2 := c.gMainCounterHi (s.reads + 2)
      reads := s.reads + 3 }
  else return .inr (s.high2 <<< 32 ||| s.low, s.reads)

/-- The locals before the loop. -/
def firstRound (c : MainCounter) : Locals where
  high := c.gMainCounterHi 0
  low := c.gMainCounterLo 1
  high2 := c.gMainCounterHi 2
  reads := 3

/-- `ReadMainCounter`, allowed to test its loop condition `rounds` times.  How often it retries is
up to the counter, so that no number of rounds is enough for all of them. -/
def readMainCounter (c : MainCounter) (rounds : ℕ) : Exec (ℕ × ℕ) :=
  Loop.run (readBody c) rounds (firstRound c)

/-! ## The halves -/

variable {c : MainCounter} {i j k n : ℕ}

theorem value_eq (c : MainCounter) (k : ℕ) :
    c.value k = c.gMainCounterHi k * 2 ^ 32 + c.gMainCounterLo k := by
  rw [gMainCounterHi, gMainCounterLo]
  omega

theorem gMainCounterLo_lt (c : MainCounter) (k : ℕ) : c.gMainCounterLo k < 2 ^ 32 :=
  Nat.mod_lt _ (by decide)

theorem gMainCounterHi_lt (c : MainCounter) (k : ℕ) : c.gMainCounterHi k < 2 ^ 32 := by
  have := c.lt k
  rw [gMainCounterHi]
  omega

theorem gMainCounterHi_mono (c : MainCounter) (h : i ≤ j) :
    c.gMainCounterHi i ≤ c.gMainCounterHi j :=
  Nat.div_le_div_right (c.mono h)

/-! ## The rounds of the loop -/

/-- The locals after `n` retries. -/
def locals (c : MainCounter) : ℕ → Locals
  | 0 => firstRound c
  | n + 1 => {
      high := c.gMainCounterHi (3 * n + 3)
      low := c.gMainCounterHi (3 * n + 4)
      high2 := c.gMainCounterHi (3 * n + 5)
      reads := 3 * n + 6 }

theorem locals_high (c : MainCounter) (n : ℕ) : (c.locals n).high = c.gMainCounterHi (3 * n) := by
  cases n <;> rfl

theorem locals_high2 (c : MainCounter) (n : ℕ) :
    (c.locals n).high2 = c.gMainCounterHi (3 * n + 2) := by
  cases n <;> rfl

theorem locals_reads (c : MainCounter) (n : ℕ) : (c.locals n).reads = 3 * n + 3 := by
  cases n <;> rfl

/-- The counter's high half is the same at both ends of round `n`. -/
def Steady (c : MainCounter) (n : ℕ) : Prop :=
  c.gMainCounterHi (3 * n) = c.gMainCounterHi (3 * n + 2)

theorem readBody_of_not_steady (h : ¬c.Steady n) :
    readBody c (c.locals n) = .ok (.inl (c.locals (n + 1))) := by
  have hne : (c.locals n).high2 ≠ (c.locals n).high := by
    rw [locals_high, locals_high2]
    exact fun he ↦ h he.symm
  rw [readBody, if_pos hne, locals_reads]
  rfl

theorem readBody_of_steady (h : c.Steady n) : readBody c (c.locals n)
    = .ok (.inr (c.gMainCounterHi (3 * n + 2) <<< 32 ||| (c.locals n).low, 3 * n + 3)) := by
  have heq : (c.locals n).high2 = (c.locals n).high := by
    rw [locals_high, locals_high2]
    exact h.symm
  rw [readBody, if_neg (not_not.mpr heq), locals_high2, locals_reads]
  rfl

/-- The loop runs up to the first steady round. -/
theorem run_readBody (hsteady : c.Steady n) (hfirst : ∀ j < n, ¬c.Steady j) {m : ℕ}
    (hm : m ≤ n) (rounds : ℕ) (hr : n - m < rounds) :
    Loop.run (readBody c) rounds (c.locals m)
      = .ok (c.gMainCounterHi (3 * n + 2) <<< 32 ||| (c.locals n).low, 3 * n + 3) := by
  obtain ⟨rounds, rfl⟩ : ∃ r, rounds = r + 1 := ⟨rounds - 1, by omega⟩
  induction rounds generalizing m with
  | zero =>
    obtain rfl : m = n := by omega
    exact Loop.run_inr (readBody_of_steady hsteady) 0
  | succ rounds ih =>
    rcases Nat.lt_or_ge m n with hlt | hge
    · rw [Loop.run_inl (readBody_of_not_steady (hfirst m hlt))]
      exact ih (by omega) (by omega)
    · obtain rfl : m = n := by omega
      exact Loop.run_inr (readBody_of_steady hsteady) _

/-- Without a steady round the loop goes on. -/
theorem run_readBody_of_not_steady {m : ℕ} (rounds : ℕ)
    (h : ∀ j, m ≤ j → j < m + rounds → ¬c.Steady j) :
    Loop.run (readBody c) rounds (c.locals m) = .error .diverges := by
  induction rounds generalizing m with
  | zero => rfl
  | succ rounds ih =>
    rw [Loop.run_inl (readBody_of_not_steady (h m (le_refl m) (by omega)))]
    exact ih fun j hj hj' ↦ h j (by omega) (by omega)

/-- **When `ReadMainCounter` returns**: after the first round in which the high half stands still,
with the high half of that round and what was last read into `low`. -/
theorem readMainCounter_eq_ok_iff {rounds count reads : ℕ} :
    readMainCounter c rounds = .ok (count, reads) ↔ ∃ n < rounds, c.Steady n ∧
      (∀ j < n, ¬c.Steady j) ∧ reads = 3 * n + 3 ∧
      count = c.gMainCounterHi (3 * n + 2) <<< 32 ||| (c.locals n).low := by
  classical
  constructor
  · intro h
    by_cases hex : ∃ n, n < rounds ∧ c.Steady n
    · obtain ⟨hlt, hst⟩ := Nat.find_spec hex
      have hfirst : ∀ j < Nat.find hex, ¬c.Steady j := fun j hj hs ↦
        Nat.find_min hex hj ⟨by omega, hs⟩
      have hrun := run_readBody hst hfirst (Nat.zero_le _) rounds hlt
      rw [readMainCounter, show firstRound c = c.locals 0 from rfl, hrun] at h
      cases h
      exact ⟨_, hlt, hst, hfirst, rfl, rfl⟩
    · have hrun := run_readBody_of_not_steady (c := c) (m := 0) rounds fun j _ hj hs ↦
        hex ⟨j, by omega, hs⟩
      rw [readMainCounter, show firstRound c = c.locals 0 from rfl, hrun] at h
      cases h
  · rintro ⟨n, hlt, hst, hfirst, rfl, rfl⟩
    exact run_readBody hst hfirst (Nat.zero_le _) rounds hlt

/-! ## What is returned -/

/-- The value returned is one that the counter may have had during the call. -/
def Between (c : MainCounter) (count reads : ℕ) : Prop :=
  c.value 0 ≤ count ∧ count ≤ c.value (reads - 1)

/-- A first round in which the high half stands still gives a value in between. -/
theorem between_first (h : c.Steady 0) :
    c.Between (c.gMainCounterHi 2 <<< 32 ||| c.gMainCounterLo 1) 3 := by
  have h02 : c.gMainCounterHi 0 = c.gMainCounterHi 2 := h
  have h01 := c.gMainCounterHi_mono (show 0 ≤ 1 by omega)
  have h12 := c.gMainCounterHi_mono (show 1 ≤ 2 by omega)
  -- the counter had the same high half at the read of the low one
  have hone : c.gMainCounterHi 2 <<< 32 ||| c.gMainCounterLo 1 = c.value 1 := by
    rw [Bits.shiftLeft_or_of_lt _ (c.gMainCounterLo_lt 1), c.value_eq 1]
    omega
  rw [hone]
  exact ⟨c.mono (by omega), c.mono (by omega)⟩

/-- After a retry the low half of the result is its high half again. -/
theorem between_retry_iff (h0 : ¬c.Steady 0) (hn : c.Steady (n + 1)) :
    c.Between (c.gMainCounterHi (3 * (n + 1) + 2) <<< 32 ||| (c.locals (n + 1)).low)
      (3 * (n + 1) + 3) ↔
    c.gMainCounterHi (3 * (n + 1) + 2) ≤ c.gMainCounterLo (3 * (n + 1) + 2) := by
  have hst : c.gMainCounterHi (3 * (n + 1)) = c.gMainCounterHi (3 * (n + 1) + 2) := hn
  have hlow : (c.locals (n + 1)).low = c.gMainCounterHi (3 * (n + 1) + 2) := by
    refine le_antisymm (c.gMainCounterHi_mono (by omega)) ?_
    exact hst ▸ c.gMainCounterHi_mono (by omega)
  -- a carry between the first and the third read, so that the first value is far below
  have hcarry : c.gMainCounterHi 0 < c.gMainCounterHi (3 * (n + 1) + 2) := by
    have h02 := c.gMainCounterHi_mono (show 0 ≤ 2 by omega)
    have h2n := c.gMainCounterHi_mono (show 2 ≤ 3 * (n + 1) + 2 by omega)
    have hne : c.gMainCounterHi 0 ≠ c.gMainCounterHi 2 := h0
    omega
  rw [Between, hlow, Bits.shiftLeft_or_of_lt _ (c.gMainCounterHi_lt _),
    Nat.add_sub_assoc (by omega), c.value_eq 0, c.value_eq (3 * (n + 1) + (3 - 1))]
  have hlo := c.gMainCounterLo_lt 0
  simp only [show 3 - 1 = 2 from rfl]
  omega

/-- **When the value is not torn**: the high half stands still in the first round, or the counter
ends with a low half that has reached the high one. -/
theorem readMainCounter_between_iff (c : MainCounter) (rounds count reads : ℕ)
    (h : readMainCounter c rounds = .ok (count, reads)) :
    c.Between count reads ↔ c.gMainCounterHi 0 = c.gMainCounterHi 2 ∨
      c.gMainCounterHi (reads - 1) ≤ c.gMainCounterLo (reads - 1) := by
  obtain ⟨n, -, hst, hfirst, rfl, rfl⟩ := readMainCounter_eq_ok_iff.mp h
  cases n with
  | zero => exact iff_of_true (between_first hst) (.inl hst)
  | succ n =>
    have h0 : ¬c.Steady 0 := hfirst 0 (Nat.succ_pos n)
    have h0' : ¬c.gMainCounterHi 0 = c.gMainCounterHi 2 := h0
    rw [between_retry_iff h0 hst, or_iff_right h0']
    rfl

/-- A counter that carries into its high half between the first two reads. -/
def carrying : MainCounter where
  value k := if k = 0 then 2 ^ 32 - 1 else 2 ^ 32
  lt k := by split <;> decide
  mono := monotone_nat_of_le_succ fun k ↦ by split <;> simp

theorem readMainCounter_carrying : readMainCounter carrying 2 = .ok (2 ^ 32 + 1, 6) := rfl

/-- After the retry the result is 2³² + 1, while the counter stands at 2³². -/
theorem readMainCounter_between_iff_carrying :
    carrying.Between (2 ^ 32 + 1) 6 ↔ carrying.gMainCounterHi 0 = carrying.gMainCounterHi 2 ∨
      carrying.gMainCounterHi 5 ≤ carrying.gMainCounterLo 5 :=
  readMainCounter_between_iff carrying 2 (2 ^ 32 + 1) 6 readMainCounter_carrying

/-- **A torn value is returned**: one that the counter reaches only after the call. -/
theorem not_between_carrying : ¬∀ (c : MainCounter) (rounds count reads : ℕ),
    readMainCounter c rounds = .ok (count, reads) → c.Between count reads := by
  intro h
  have hle := (h carrying 2 _ _ readMainCounter_carrying).2
  exact absurd hle (by decide)

end MainCounter

/-! ## Setting the counter -/

/-- The registers of the timer that set the main counter. -/
structure Registers where
  /-- Bit 0 enables the main counter. -/
  gConfig : BitVec 64
  /-- The low half of the main counter. -/
  gMainCounterLo : BitVec 32
  /-- Its high half. -/
  gMainCounterHi : BitVec 32
  deriving DecidableEq, Repr

namespace Registers

open MainCounter

/-- The `while` loop of `SetMainCounter`. -/
def waitBody (r : Registers) (_ : Unit) : Exec (Unit ⊕ Unit) :=
  if r.gConfig &&& 1 ≠ 0 then return .inl () else return .inr ()

/-- `SetMainCounter`. -/
def setMainCounter (val : BitVec 64) (r : Registers) : Exec Registers := do
  Loop.exec (waitBody r) ()
  return { r with
    gMainCounterLo := (val &&& 0xFFFF).setWidth 32
    gMainCounterHi := (val >>> 32).setWidth 32 }

/-- The counter does not count. -/
def Disabled (r : Registers) : Prop := r.gConfig &&& 1 = 0

instance (r : Registers) : Decidable r.Disabled := inferInstanceAs (Decidable (_ = _))

/-- The main counter while it is disabled: every read finds the same value. -/
def mainCounter (r : Registers) : MainCounter where
  value _ := r.gMainCounterHi.toNat * 2 ^ 32 + r.gMainCounterLo.toNat
  lt _ := by
    have h1 := r.gMainCounterHi.isLt
    have h2 := r.gMainCounterLo.isLt
    omega
  mono _ _ _ := le_refl _

variable {r : Registers}

theorem value_mainCounter (r : Registers) (k : ℕ) :
    r.mainCounter.value k = r.gMainCounterHi.toNat * 2 ^ 32 + r.gMainCounterLo.toNat := rfl

/-- **A counter that stands still is read in one round.** -/
theorem readMainCounter_mainCounter (r : Registers) {rounds : ℕ} (h : 0 < rounds) :
    readMainCounter r.mainCounter rounds = .ok (r.mainCounter.value 0, 3) := by
  have hsteady : r.mainCounter.Steady 0 := rfl
  refine readMainCounter_eq_ok_iff.mpr ⟨0, h, hsteady, by simp, rfl, ?_⟩
  have hlow : (r.mainCounter.locals 0).low = r.mainCounter.gMainCounterLo 0 := rfl
  rw [hlow, Bits.shiftLeft_or_of_lt _ (gMainCounterLo_lt _ _), r.mainCounter.value_eq 0]
  rfl

theorem setMainCounter_of_disabled (h : r.Disabled) (val : BitVec 64) :
    setMainCounter val r = .ok { r with
      gMainCounterLo := (val &&& 0xFFFF).setWidth 32
      gMainCounterHi := (val >>> 32).setWidth 32 } := by
  have hwait : waitBody r () = .ok (.inr ()) := if_neg (not_not.mpr h)
  simp [setMainCounter, Loop.exec_inr hwait]

/-- While the counter is enabled the loop does not end. -/
theorem setMainCounter_of_not_disabled (h : ¬r.Disabled) (val : BitVec 64) :
    setMainCounter val r = .error .diverges := by
  have hwait : Loop.exec (waitBody r) () = .error .diverges :=
    Loop.run_diverges (fun _ ↦ True) (fun _ _ ↦ ⟨(), if_pos h, trivial⟩) _ trivial
  rw [setMainCounter, hwait]
  rfl

/-- `SetMainCounter(val)` returns with the counter still disabled, and `ReadMainCounter()` then
returns `val`. -/
def RoundTrips (r : Registers) (val : BitVec 64) : Prop :=
  ∃ r', setMainCounter val r = .ok r' ∧ r'.Disabled ∧
    ∀ rounds, 0 < rounds → ∃ reads,
      readMainCounter r'.mainCounter rounds = .ok (val.toNat, reads)

theorem toNat_low (val : BitVec 64) :
    ((val &&& 0xFFFF).setWidth 32).toNat = val.toNat % 2 ^ 16 := by
  have hmask : (0xFFFF : BitVec 64).toNat = 2 ^ 16 - 1 := rfl
  rw [BitVec.toNat_setWidth, BitVec.toNat_and, hmask, Nat.and_two_pow_sub_one_eq_mod]
  exact Nat.mod_eq_of_lt (by omega)

theorem toNat_high (val : BitVec 64) :
    ((val >>> 32).setWidth 32).toNat = val.toNat / 2 ^ 32 := by
  have := val.isLt
  rw [BitVec.toNat_setWidth, BitVec.toNat_ushiftRight, Nat.shiftRight_eq_div_pow]
  exact Nat.mod_eq_of_lt (by omega)

/-- **A value comes back exactly if its bits 16 to 31 are zero.** -/
theorem roundTrips_iff (r : Registers) (val : BitVec 64) (h : r.Disabled) :
    r.RoundTrips val ↔ val.extractLsb' 16 16 = 0 := by
  have hmiddle : val.extractLsb' 16 16 = 0 ↔ val.toNat / 2 ^ 16 % 2 ^ 16 = 0 := by
    rw [← BitVec.toNat_inj, BitVec.extractLsb'_toNat, Nat.shiftRight_eq_div_pow]
    rfl
  have hset := setMainCounter_of_disabled h val
  rw [hmiddle]
  constructor
  · rintro ⟨r', hr', -, hread⟩
    obtain rfl := Except.ok.inj (hset.symm.trans hr')
    obtain ⟨reads, hreads⟩ := hread 1 Nat.one_pos
    rw [readMainCounter_mainCounter _ Nat.one_pos] at hreads
    have hvalue := (Prod.mk.inj (Except.ok.inj hreads)).1
    rw [value_mainCounter, toNat_low, toNat_high] at hvalue
    omega
  · intro h0
    refine ⟨_, hset, h, fun rounds hr ↦ ⟨3, ?_⟩⟩
    rw [readMainCounter_mainCounter _ hr, value_mainCounter, toNat_low, toNat_high]
    congr 2
    omega

/-- A timer with a counter that is disabled and at 0. -/
def stopped : Registers := ⟨0, 0, 0⟩

theorem roundTrips_stopped : stopped.RoundTrips 0x123400005678 :=
  (roundTrips_iff stopped 0x123400005678 (by decide)).mpr (by decide)

/-- **Setting the counter to 0x10000 sets it to 0.** -/
theorem not_roundTrips_stopped :
    (¬∀ (r : Registers) (val : BitVec 64), r.Disabled → r.RoundTrips val) ∧
      setMainCounter 0x10000 stopped = .ok stopped := by
  have hset : setMainCounter 0x10000 stopped = .ok stopped :=
    setMainCounter_of_disabled (r := stopped) (by decide) _
  refine ⟨fun hall ↦ ?_, hset⟩
  obtain ⟨r', hr', -, hread⟩ := hall stopped 0x10000 (by decide)
  obtain rfl := Except.ok.inj (hset.symm.trans hr')
  obtain ⟨reads, hreads⟩ := hread 1 Nat.one_pos
  rw [readMainCounter_mainCounter _ Nat.one_pos] at hreads
  exact absurd (Prod.mk.inj (Except.ok.inj hreads)).1 (by decide)

end Registers

end X8664.Timers
