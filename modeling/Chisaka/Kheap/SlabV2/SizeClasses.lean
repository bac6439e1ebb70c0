import Mathlib.Order.Bounds.Basic
import Mathlib.Tactic.IntervalCases
import Chisaka.Lib.Smear
import Chisaka.Kheap.SlabV2.Allocator

/-!
# The buffer for a request

`AllocateObject` and `DeallocateObject` find the buffer for a request in three steps: they round the
request up to a power of two, cut that down to the 16 bits of the parameter of `GetBuffer`, which
rounds it up once more, and look the power of two up in the switch of `Pow2ToIndex`.

* `toNat_nbytesToPow2`: rounding up is to the next power of two, but 0 and what lies above `2 ^ 63`
  end at 0.
* `nbytesToPow2_roundsUp`: in between, it is to the least power of two that is not below, so that a
  power of two is left as it is, and the order is kept.
* `bufferIndex_inside`: a request from 2 to 2048 gets the right buffer.
* `bufferIndex_outside`: any other ends in the default of the switch.  One byte is the power of two
  `2 ^ 0`, which the switch does not list, and what is too large is not turned away before.

`dispatches_iff` puts that against what the allocator is designed to do.
-/

set_option autoImplicit false

namespace Chisaka.Slab.V2

namespace Allocator

/-! ## Rounding up -/

/-- One step of the rounding. -/
theorem smeared_step {n s : UInt64} {k x : ℕ} (h : Bits.Smeared k x n.toNat)
    (hs : s.toNat % 64 = k) : Bits.Smeared (k + k) x (n ||| n >>> s).toNat := by
  rw [UInt64.toNat_or, UInt64.toNat_shiftRight, hs]
  exact h.double

/-- **What `NbytesToPow2` answers.** -/
theorem toNat_nbytesToPow2 (nbytes : UInt64) : (nbytesToPow2 nbytes).toNat
    = 2 ^ Nat.clog 2 ((nbytes - 1).toNat + 1) % 2 ^ 64 := by
  have h := Bits.Smeared.refl (nbytes - 1).toNat
  have h := smeared_step (s := 1) h (by decide)
  have h := smeared_step (s := 2) h (by decide)
  have h := smeared_step (s := 4) h (by decide)
  have h := smeared_step (s := 8) h (by decide)
  have h := smeared_step (s := 16) h (by decide)
  have h := smeared_step (s := 32) h (by decide)
  rw [nbytesToPow2, UInt64.toNat_add]
  exact congrArg (· % 2 ^ 64) (h.add_one_eq (UInt64.toNat_lt _))

theorem toNat_nbytesToPow2_of_pos {nbytes : UInt64} (h : 0 < nbytes.toNat) :
    (nbytesToPow2 nbytes).toNat = 2 ^ Nat.clog 2 nbytes.toNat % 2 ^ 64 := by
  have hle : (1 : UInt64) ≤ nbytes := UInt64.le_iff_toNat_le.mpr h
  rw [toNat_nbytesToPow2, UInt64.toNat_sub_of_le _ _ hle]
  exact congrArg (fun n ↦ 2 ^ Nat.clog 2 n % 2 ^ 64) (Nat.sub_add_cancel h)

theorem nbytesToPow2_eq {nbytes : UInt64} (h : 0 < nbytes.toNat) :
    nbytesToPow2 nbytes = UInt64.ofNat (2 ^ Nat.clog 2 nbytes.toNat) := by
  refine UInt64.toNat_inj.mp ?_
  rw [toNat_nbytesToPow2_of_pos h, UInt64.toNat_ofNat']

/-- The powers of two from `n` on. -/
def powersFrom (n : ℕ) : Set ℕ := {m | (∃ k, m = 2 ^ k) ∧ n ≤ m}

theorem isLeast_powersFrom (n : ℕ) : IsLeast (powersFrom n) (2 ^ Nat.clog 2 n) := by
  refine ⟨⟨⟨_, rfl⟩, Nat.le_pow_clog (by decide) n⟩, ?_⟩
  rintro m ⟨⟨k, rfl⟩, hle⟩
  exact Nat.pow_le_pow_right (by decide) (Nat.clog_le_of_le_pow hle)

/-- There is a power of two of 64 bits from `n` on, and `n` is not 0. -/
def Roundable (n : UInt64) : Prop := 1 ≤ n.toNat ∧ n.toNat ≤ 2 ^ 63

theorem isLeast_nbytesToPow2 {n : UInt64} (h : Roundable n) :
    IsLeast (powersFrom n.toNat) (nbytesToPow2 n).toNat := by
  have hclog : Nat.clog 2 n.toNat ≤ 63 := Nat.clog_le_of_le_pow h.2
  have hlt : 2 ^ Nat.clog 2 n.toNat < 2 ^ 64 :=
    Nat.pow_lt_pow_right (by decide) (Nat.lt_succ_of_le hclog)
  rw [toNat_nbytesToPow2_of_pos h.1, Nat.mod_eq_of_lt hlt]
  exact isLeast_powersFrom n.toNat

/-- The result can be rounded once more. -/
theorem Roundable.nbytesToPow2 {n : UInt64} (h : Roundable n) : Roundable (nbytesToPow2 n) := by
  obtain ⟨⟨-, hle⟩, hleast⟩ := isLeast_nbytesToPow2 h
  exact ⟨h.1.trans hle, hleast ⟨⟨63, rfl⟩, h.2⟩⟩

/-- **What rounding up is**, and what follows from that. -/
structure RoundsUp : Prop where
  /-- The result is the least power of two from `n` on. -/
  least : ∀ n, Roundable n → IsLeast (powersFrom n.toNat) (nbytesToPow2 n).toNat
  /-- A result is left as it is. -/
  idempotent : ∀ n, Roundable n → nbytesToPow2 (nbytesToPow2 n) = nbytesToPow2 n
  /-- The order is kept. -/
  monotone : ∀ n m, Roundable n → Roundable m → n ≤ m → nbytesToPow2 n ≤ nbytesToPow2 m

/-- **`NbytesToPow2` rounds up**, from 1 to `2 ^ 63`. -/
theorem nbytesToPow2_roundsUp : RoundsUp where
  least _ h := isLeast_nbytesToPow2 h
  idempotent n h := by
    have hleast := isLeast_nbytesToPow2 h
    -- a power of two is the least one from itself on
    have hself : IsLeast (powersFrom (nbytesToPow2 n).toNat) (nbytesToPow2 n).toNat :=
      ⟨⟨hleast.1.1, le_refl _⟩, fun m hm ↦ hm.2⟩
    exact UInt64.toNat_inj.mp ((isLeast_nbytesToPow2 h.nbytesToPow2).unique hself)
  monotone n m hn hm hle := by
    have hsub : powersFrom m.toNat ⊆ powersFrom n.toNat :=
      fun p hp ↦ ⟨hp.1, (UInt64.le_iff_toNat_le.mp hle).trans hp.2⟩
    exact UInt64.le_iff_toNat_le.mpr
      ((isLeast_nbytesToPow2 hm).mono (isLeast_nbytesToPow2 hn) hsub)

/-! ## The dispatch -/

/-- The buffer that `AllocateObject` and `DeallocateObject` turn to. -/
def bufferIndex (bytes : UInt64) : Exec (Fin 9) := getBuffer (nbytesToPow2 bytes).toUInt16

theorem allocateObject_eq (u : NullReference) (palloc : ℕ → ℕ) (stack : ℕ) (a : Allocator)
    (bytes : UInt64) : a.allocateObject u palloc stack bytes = (bufferIndex bytes >>= fun i ↦ do
      let full ← (a.buffers i).full u a.heap
      let a ← if full then a.growObjects u palloc stack i bytes else pure a
      a.allocateFrom u i) := rfl

theorem deallocateObject_eq (u : NullReference) (a : Allocator) (pobj : ℕ) (bytes : UInt64) :
    a.deallocateObject u pobj bytes = (bufferIndex bytes >>= fun i ↦ do
      let (b, heap) ← (a.buffers i).deallocate u a.heap pobj
      return { a with heap := heap }.setBuffer i b) := rfl

/-- **The buffer for a power of two**, after it was cut down to 16 bits and rounded up again. -/
theorem getBuffer_two_pow : ∀ c < 65, getBuffer (UInt64.ofNat (2 ^ c)).toUInt16
    = if h : 1 ≤ c ∧ c ≤ 11 then .ok ⟨c - 3, by omega⟩ else .error .assertFailed := by
  decide +kernel

theorem bufferIndex_zero : bufferIndex 0 = .error .assertFailed := by decide

theorem bufferIndex_eq {bytes : UInt64} (h : 0 < bytes.toNat) : bufferIndex bytes
    = if h : 1 ≤ Nat.clog 2 bytes.toNat ∧ Nat.clog 2 bytes.toNat ≤ 11 then
        .ok ⟨Nat.clog 2 bytes.toNat - 3, by omega⟩
      else .error .assertFailed := by
  have hc : Nat.clog 2 bytes.toNat ≤ 64 :=
    Nat.clog_le_of_le_pow (UInt64.toNat_lt bytes).le
  rw [bufferIndex, nbytesToPow2_eq h]
  exact getBuffer_two_pow _ (Nat.lt_succ_of_le hc)

/-- The exponents that the switch lists are those of the requests from 2 to 2048. -/
theorem clog_inside_iff (n : ℕ) : (1 ≤ Nat.clog 2 n ∧ Nat.clog 2 n ≤ 11) ↔ 2 ≤ n ∧ n ≤ 2048 := by
  have h1 : 1 ≤ Nat.clog 2 n ↔ 2 ^ 0 < n := Nat.lt_clog_iff_pow_lt (by decide)
  have h2 : Nat.clog 2 n ≤ 11 ↔ n ≤ 2 ^ 11 := Nat.clog_le_iff_le_pow (by decide)
  rw [h1, h2]
  rfl

/-- **Any other request ends in the default of the switch.** -/
theorem bufferIndex_outside {bytes : UInt64} (h : ¬(2 ≤ bytes.toNat ∧ bytes.toNat ≤ 2048)) :
    bufferIndex bytes = .error .assertFailed := by
  rcases Nat.eq_zero_or_pos bytes.toNat with h0 | hpos
  · obtain rfl : bytes = 0 := UInt64.toNat_inj.mp h0
    exact bufferIndex_zero
  · rw [bufferIndex_eq hpos, dif_neg (mt (clog_inside_iff _).mp h)]

/-- The sizes of the nine buffers. -/
theorem bufferSize_init (heap : Heap) (i : Fin 9) :
    ((init heap).buffers i).bufferSize = 2 ^ (i.val + 3) := by
  obtain ⟨i, hi⟩ := i
  interval_cases i <;> simp [init, Buffer.new]

theorem clog_classSize (n : ℕ) : Nat.clog 2 (max n 8) = max (Nat.clog 2 n) 3 := by
  refine eq_of_forall_ge_iff fun k ↦ ?_
  have h3 : 8 ≤ 2 ^ k ↔ 3 ≤ k := Nat.pow_le_pow_iff_right (a := 2) (m := k) (n := 3) (by decide)
  rw [Nat.clog_le_iff_le_pow (by decide), max_le_iff, max_le_iff, h3,
    Nat.clog_le_iff_le_pow (by decide)]

/-- **A request from 2 to 2048 gets the buffer of its size.** -/
theorem bufferIndex_inside {bytes : UInt64} (h : 2 ≤ bytes.toNat ∧ bytes.toNat ≤ 2048) :
    ∃ i, bufferIndex bytes = .ok i ∧
      ∀ heap, ((init heap).buffers i).bufferSize = classSize bytes := by
  have hc := (clog_inside_iff _).mpr h
  refine ⟨_, (bufferIndex_eq (by omega)).trans (dif_pos hc), fun heap ↦ ?_⟩
  rw [bufferSize_init, classSize, clog_classSize]
  congr 1
  show Nat.clog 2 bytes.toNat - 3 + 3 = max (Nat.clog 2 bytes.toNat) 3
  omega

end Allocator

/-! ## What it is designed to do -/

/-- The powers of two that `n` bytes fit in, from 8 on. -/
def powersFor (n : ℕ) : Set ℕ := {m | (∃ k, m = 2 ^ k) ∧ max n 8 ≤ m}

theorem isLeast_classSize (bytes : UInt64) :
    IsLeast (powersFor bytes.toNat) (classSize bytes) :=
  Allocator.isLeast_powersFrom (max bytes.toNat 8)

namespace Allocator

/-- **What the dispatch should do with a request.** -/
structure Dispatches (bytes : UInt64) : Prop where
  /-- It does not reach the default of the switch. -/
  listed : bufferIndex bytes ≠ .error .assertFailed
  /-- Up to 2048 bytes it selects the buffer of the least power of two from 8 on. -/
  selects : bytes.toNat ≤ 2048 → ∃ i, bufferIndex bytes = .ok i ∧
    ∀ heap, IsLeast (powersFor bytes.toNat) ((init heap).buffers i).bufferSize
  /-- For more it selects no buffer. -/
  refuses : 2048 < bytes.toNat → ∀ i, bufferIndex bytes ≠ .ok i

/-- **The dispatch does what it should for 2 to 2048 bytes**, and for no other request. -/
theorem dispatches_iff (bytes : UInt64) :
    Dispatches bytes ↔ 2 ≤ bytes.toNat ∧ bytes.toNat ≤ 2048 := by
  constructor
  · intro h
    by_contra hout
    exact h.listed (bufferIndex_outside hout)
  · intro hin
    obtain ⟨i, hi, hsize⟩ := bufferIndex_inside hin
    refine ⟨by rw [hi]; exact nofun, fun _ ↦ ⟨i, hi, fun heap ↦ ?_⟩, fun hlt ↦ by omega⟩
    rw [hsize heap]
    exact isLeast_classSize bytes

/-- **A request of one byte, and one of a page, fail the assertion of the switch.** -/
theorem not_dispatches_one : (¬∀ bytes, Dispatches bytes) ∧
    bufferIndex 1 = .error .assertFailed ∧ bufferIndex 4096 = .error .assertFailed := by
  have h1 : bufferIndex 1 = .error .assertFailed := by decide
  exact ⟨fun h ↦ (h 1).listed h1, h1, by decide⟩

end Allocator

end Chisaka.Slab.V2
