import Chisaka.X8664.Paging.PageTable

/-!
# The attributes of page table entries

Both classes of entries keep their attributes as flags in the low bits of the word.  The getters
test a flag (`testFlag`), and the setters go through `SetAttribute`, which sets or clears one; the
flag is narrower than the word, and its complement is taken of an `int` (`getLsbD_setAttribute`).

A setter should change the attribute that it names, and nothing else (`SetsOnly`).  Those of a
`PageEntry` do.  Of an `UpperPageEntry`, `IsAccessed` tests the flag of `Present`, so that
`SetAccessed` and `SetPresent` are right only when the entry is present, or not, as they are to make
it (`entries_setsOnly_iff`).
-/

set_option autoImplicit false

namespace X8664

/-! ## Flags -/

namespace UPeOpt

/-- `CacheWritethrough`. -/
def cacheWritethrough : BitVec 8 := 1 <<< 3

/-- `CacheDisable`. -/
def cacheDisable : BitVec 8 := 1 <<< 4

/-- `Accessed`. -/
def accessed : BitVec 8 := 1 <<< 5

end UPeOpt

namespace PEOpt

/-- `Present`. -/
def present : BitVec 16 := 1 <<< 0

/-- `Writeable`. -/
def writeable : BitVec 16 := 1 <<< 1

/-- `UserAccessible`. -/
def userAccessible : BitVec 16 := 1 <<< 2

/-- `CacheWritethrough`. -/
def cacheWritethrough : BitVec 16 := 1 <<< 3

/-- `CacheDisable`. -/
def cacheDisable : BitVec 16 := 1 <<< 4

/-- `Accessed`. -/
def accessed : BitVec 16 := 1 <<< 5

/-- `Dirty`. -/
def dirty : BitVec 16 := 1 <<< 6

/-- `Global`. -/
def global : BitVec 16 := 1 <<< 8

end PEOpt

section Flags

variable {n : ℕ} {flag : BitVec n} {buffer : BitVec 64} {b : Bool} {j k : ℕ}

/-- What a getter looks at. -/
def testFlag (flag : BitVec n) (buffer : BitVec 64) : Bool := buffer &&& flag.setWidth 64 ≠ 0

/-- `SetAttribute`, of both classes, on the buffer. -/
def setAttribute (val : Bool) (flag : BitVec n) (buffer : BitVec 64) : BitVec 64 :=
  if val then buffer ||| flag.setWidth 64
  else buffer &&& (~~~(flag.setWidth 32)).signExtend 64

theorem testFlag_eq (flag : BitVec n) (hflag : flag.setWidth 64 = BitVec.twoPow 64 k) :
    testFlag flag buffer = buffer.getLsbD k := by
  rw [testFlag, hflag, Bool.eq_iff_iff, decide_eq_true_iff, Bits.and_twoPow_ne_zero]

/-- **`SetAttribute` changes the bit of the flag.** -/
theorem getLsbD_setAttribute (hn : n < 32) (hk : k < 64)
    (hflag : flag.setWidth 64 = BitVec.twoPow 64 k) :
    (setAttribute b flag buffer).getLsbD j = if j = k then b else buffer.getLsbD j := by
  cases b with
  | false =>
    rw [setAttribute, if_neg Bool.false_ne_true, Bits.signExtend_not_setWidth hn, hflag]
    exact Bits.getLsbD_and_not_twoPow
  | true =>
    rw [setAttribute, if_pos rfl, hflag]
    exact Bits.getLsbD_or_twoPow hk

end Flags

/-! ## Getters and setters -/

namespace UpperPageEntry

/-- `IsWriteable`. -/
def isWriteable (e : UpperPageEntry) : Bool := X8664.isWriteable e.buffer

/-- `IsUserAccessible`. -/
def isUserAccessible (e : UpperPageEntry) : Bool := X8664.isUserAccessible e.buffer

/-- `IsPwt`. -/
def isPwt (e : UpperPageEntry) : Bool := testFlag UPeOpt.cacheWritethrough e.buffer

/-- `IsPcd`. -/
def isPcd (e : UpperPageEntry) : Bool := testFlag UPeOpt.cacheDisable e.buffer

/-- `IsAccessed`: it looks at the flag of `Present`. -/
def isAccessed (e : UpperPageEntry) : Bool := testFlag UPeOpt.present e.buffer

/-- `SetPresent`. -/
def setPresent (b : Bool) (e : UpperPageEntry) : UpperPageEntry :=
  ⟨setAttribute b UPeOpt.present e.buffer⟩

/-- `SetWriteable`. -/
def setWriteable (b : Bool) (e : UpperPageEntry) : UpperPageEntry :=
  ⟨setAttribute b UPeOpt.writeable e.buffer⟩

/-- `SetUserAccessible`. -/
def setUserAccessible (b : Bool) (e : UpperPageEntry) : UpperPageEntry :=
  ⟨setAttribute b UPeOpt.userAccessible e.buffer⟩

/-- `SetPwt`. -/
def setPwt (b : Bool) (e : UpperPageEntry) : UpperPageEntry :=
  ⟨setAttribute b UPeOpt.cacheWritethrough e.buffer⟩

/-- `SetPcd`. -/
def setPcd (b : Bool) (e : UpperPageEntry) : UpperPageEntry :=
  ⟨setAttribute b UPeOpt.cacheDisable e.buffer⟩

/-- `SetAccessed`. -/
def setAccessed (b : Bool) (e : UpperPageEntry) : UpperPageEntry :=
  ⟨setAttribute b UPeOpt.accessed e.buffer⟩

end UpperPageEntry

namespace PageEntry

/-- `IsWriteable`. -/
def isWriteable (e : PageEntry) : Bool := X8664.isWriteable e.buffer

/-- `IsUserAccessible`. -/
def isUserAccessible (e : PageEntry) : Bool := X8664.isUserAccessible e.buffer

/-- `IsPwt`. -/
def isPwt (e : PageEntry) : Bool := testFlag PEOpt.cacheWritethrough e.buffer

/-- `IsPcd`. -/
def isPcd (e : PageEntry) : Bool := testFlag PEOpt.cacheDisable e.buffer

/-- `IsAccessed`. -/
def isAccessed (e : PageEntry) : Bool := testFlag PEOpt.accessed e.buffer

/-- `IsDirty`. -/
def isDirty (e : PageEntry) : Bool := testFlag PEOpt.dirty e.buffer

/-- `IsGlobal`. -/
def isGlobal (e : PageEntry) : Bool := testFlag PEOpt.global e.buffer

/-- `SetPresent`. -/
def setPresent (b : Bool) (e : PageEntry) : PageEntry := ⟨setAttribute b PEOpt.present e.buffer⟩

/-- `SetWriteable`. -/
def setWriteable (b : Bool) (e : PageEntry) : PageEntry :=
  ⟨setAttribute b PEOpt.writeable e.buffer⟩

/-- `SetUserAccessible`. -/
def setUserAccessible (b : Bool) (e : PageEntry) : PageEntry :=
  ⟨setAttribute b PEOpt.userAccessible e.buffer⟩

/-- `SetPwt`. -/
def setPwt (b : Bool) (e : PageEntry) : PageEntry :=
  ⟨setAttribute b PEOpt.cacheWritethrough e.buffer⟩

/-- `SetPcd`. -/
def setPcd (b : Bool) (e : PageEntry) : PageEntry :=
  ⟨setAttribute b PEOpt.cacheDisable e.buffer⟩

/-- `SetAccessed`. -/
def setAccessed (b : Bool) (e : PageEntry) : PageEntry :=
  ⟨setAttribute b PEOpt.accessed e.buffer⟩

/-- `SetDirty`. -/
def setDirty (b : Bool) (e : PageEntry) : PageEntry := ⟨setAttribute b PEOpt.dirty e.buffer⟩

/-- `SetGlobal`. -/
def setGlobal (b : Bool) (e : PageEntry) : PageEntry := ⟨setAttribute b PEOpt.global e.buffer⟩

end PageEntry

/-! ## Attributes -/

/-- The attributes of an `UpperPageEntry`. -/
inductive UpperPageAttribute
  | present
  | writeable
  | userAccessible
  | pwt
  | pcd
  | accessed
  deriving DecidableEq

namespace UpperPageAttribute

/-- The bit of its flag. -/
def bit : UpperPageAttribute → ℕ
  | present => 0
  | writeable => 1
  | userAccessible => 2
  | pwt => 3
  | pcd => 4
  | accessed => 5

/-- The bit that the getter looks at. -/
def readBit : UpperPageAttribute → ℕ
  | accessed => 0
  | a => a.bit

end UpperPageAttribute

/-- The attributes of a `PageEntry`. -/
inductive PageAttribute
  | present
  | writeable
  | userAccessible
  | pwt
  | pcd
  | accessed
  | dirty
  | global
  deriving DecidableEq

/-- The bit of its flag. -/
def PageAttribute.bit : PageAttribute → ℕ
  | present => 0
  | writeable => 1
  | userAccessible => 2
  | pwt => 3
  | pcd => 4
  | accessed => 5
  | dirty => 6
  | global => 8

namespace UpperPageEntry

/-- The getter of an attribute. -/
def is (e : UpperPageEntry) : UpperPageAttribute → Bool
  | .present => e.isPresent
  | .writeable => e.isWriteable
  | .userAccessible => e.isUserAccessible
  | .pwt => e.isPwt
  | .pcd => e.isPcd
  | .accessed => e.isAccessed

/-- The setter of an attribute. -/
def set (e : UpperPageEntry) (a : UpperPageAttribute) (b : Bool) : UpperPageEntry :=
  match a with
  | .present => e.setPresent b
  | .writeable => e.setWriteable b
  | .userAccessible => e.setUserAccessible b
  | .pwt => e.setPwt b
  | .pcd => e.setPcd b
  | .accessed => e.setAccessed b

theorem is_eq (e : UpperPageEntry) (a : UpperPageAttribute) :
    e.is a = e.buffer.getLsbD a.readBit := by
  cases a with
  | present => exact testFlag_eq UPeOpt.present (by decide)
  | writeable => exact testFlag_eq UPeOpt.writeable (by decide)
  | userAccessible => exact testFlag_eq UPeOpt.userAccessible (by decide)
  | pwt => exact testFlag_eq UPeOpt.cacheWritethrough (by decide)
  | pcd => exact testFlag_eq UPeOpt.cacheDisable (by decide)
  | accessed => exact testFlag_eq UPeOpt.present (by decide)

theorem getLsbD_set (e : UpperPageEntry) (a : UpperPageAttribute) (b : Bool) (j : ℕ) :
    (e.set a b).buffer.getLsbD j = if j = a.bit then b else e.buffer.getLsbD j := by
  cases a <;> exact getLsbD_setAttribute (by decide) (by decide) (by decide)

end UpperPageEntry

namespace PageEntry

/-- The getter of an attribute. -/
def is (e : PageEntry) : PageAttribute → Bool
  | .present => e.isPresent
  | .writeable => e.isWriteable
  | .userAccessible => e.isUserAccessible
  | .pwt => e.isPwt
  | .pcd => e.isPcd
  | .accessed => e.isAccessed
  | .dirty => e.isDirty
  | .global => e.isGlobal

/-- The setter of an attribute. -/
def set (e : PageEntry) (a : PageAttribute) (b : Bool) : PageEntry :=
  match a with
  | .present => e.setPresent b
  | .writeable => e.setWriteable b
  | .userAccessible => e.setUserAccessible b
  | .pwt => e.setPwt b
  | .pcd => e.setPcd b
  | .accessed => e.setAccessed b
  | .dirty => e.setDirty b
  | .global => e.setGlobal b

theorem is_eq (e : PageEntry) (a : PageAttribute) : e.is a = e.buffer.getLsbD a.bit := by
  cases a with
  | present => exact testFlag_eq UPeOpt.present (by decide)
  | writeable => exact testFlag_eq UPeOpt.writeable (by decide)
  | userAccessible => exact testFlag_eq UPeOpt.userAccessible (by decide)
  | pwt => exact testFlag_eq PEOpt.cacheWritethrough (by decide)
  | pcd => exact testFlag_eq PEOpt.cacheDisable (by decide)
  | accessed => exact testFlag_eq PEOpt.accessed (by decide)
  | dirty => exact testFlag_eq PEOpt.dirty (by decide)
  | global => exact testFlag_eq PEOpt.global (by decide)

theorem getLsbD_set (e : PageEntry) (a : PageAttribute) (b : Bool) (j : ℕ) :
    (e.set a b).buffer.getLsbD j = if j = a.bit then b else e.buffer.getLsbD j := by
  cases a <;> exact getLsbD_setAttribute (by decide) (by decide) (by decide)

end PageEntry

/-! ## What a setter should do -/

/-- **The attribute is set, and nothing else changes**: entries `e` and `e'` before and after, of a
class with the given getters. -/
structure SetsOnly {E A : Type} (buffer baseAddress : E → BitVec 64) (is : E → A → Bool)
    (bit : A → ℕ) (a : A) (b : Bool) (e e' : E) : Prop where
  /-- The getter of the attribute says what was set. -/
  self : is e' a = b
  /-- The other getters say what they said before. -/
  others : ∀ a', a' ≠ a → is e' a' = is e a'
  /-- The address is the same. -/
  base : baseAddress e' = baseAddress e
  /-- The other bits of the word are the same. -/
  rest : ∀ j, j ≠ bit a → (buffer e').getLsbD j = (buffer e).getLsbD j

/-- A setter of an `UpperPageEntry` does what it should. -/
def UpperPageEntry.SetsOnly (e : UpperPageEntry) (a : UpperPageAttribute) (b : Bool) : Prop :=
  X8664.SetsOnly buffer baseAddress is UpperPageAttribute.bit a b e (e.set a b)

/-- A setter of a `PageEntry` does what it should. -/
def PageEntry.SetsOnly (e : PageEntry) (a : PageAttribute) (b : Bool) : Prop :=
  X8664.SetsOnly buffer baseAddress is PageAttribute.bit a b e (e.set a b)

section Word

variable {E A : Type} {buffer baseAddress : E → BitVec 64} {is : E → A → Bool}
  {bit : A → ℕ} {a : A} {b : Bool} {e e' : E} {mask : BitVec 64}

/-- **What the getters look at decides it**, when a setter changes the one bit: the getter of the
attribute must look at the bit, and the other getters must not, unless the bit is what it was. -/
theorem setsOnly_of_bits (readBit : A → ℕ)
    (hset : ∀ j, (buffer e').getLsbD j = if j = bit a then b else (buffer e).getLsbD j)
    (his : ∀ e a, is e a = (buffer e).getLsbD (readBit a))
    (hbase : ∀ e, baseAddress e = buffer e &&& mask) (hmask : mask.getLsbD (bit a) = false)
    (hself : readBit a = bit a ∨ (buffer e).getLsbD (readBit a) = b)
    (hothers : ∀ a', a' ≠ a → readBit a' = bit a → (buffer e).getLsbD (bit a) = b) :
    SetsOnly buffer baseAddress is bit a b e e' where
  self := by
    rw [his, hset]
    split
    · rfl
    · exact hself.resolve_left ‹_›
  others a' ha' := by
    rw [his, his, hset]
    split
    · rename_i heq
      rw [heq, hothers a' ha' heq]
    · rfl
  base := by
    refine BitVec.eq_of_getLsbD_eq fun j _ ↦ ?_
    rw [hbase, hbase, BitVec.getLsbD_and, BitVec.getLsbD_and, hset]
    split
    · rename_i heq
      rw [heq, hmask, Bool.and_false, Bool.and_false]
    · rfl
  rest j hj := by rw [hset, if_neg hj]

end Word

theorem PageAttribute.bit_injective : Function.Injective bit := by
  intro a a' h
  cases a <;> cases a' <;> first | rfl | cases h

theorem UpperPageAttribute.bit_injective : Function.Injective bit := by
  intro a a' h
  cases a <;> cases a' <;> first | rfl | cases h

/-- **The setters of a `PageEntry` are right.** -/
theorem PageEntry.setsOnly (e : PageEntry) (a : PageAttribute) (b : Bool) : e.SetsOnly a b := by
  have hmask : addressMask.getLsbD a.bit = false := by cases a <;> decide
  refine setsOnly_of_bits PageAttribute.bit (e.getLsbD_set a b) is_eq (fun _ ↦ rfl) hmask
    (.inl rfl) fun a' ha' h ↦ ?_
  exact absurd (PageAttribute.bit_injective h) ha'

/-- **Those of an `UpperPageEntry`** are, but for the two that share a bit. -/
theorem UpperPageEntry.setsOnly_iff (e : UpperPageEntry) (a : UpperPageAttribute) (b : Bool) :
    e.SetsOnly a b ↔ (a = .present ∨ a = .accessed → e.buffer.getLsbD 0 = b) := by
  constructor
  · rintro h (rfl | rfl)
    · -- `IsAccessed` reads the bit that was set
      have hother := h.others .accessed (by decide)
      rw [is_eq, is_eq, getLsbD_set] at hother
      exact hother.symm
    · have hself := h.self
      rw [is_eq, getLsbD_set] at hself
      exact hself
  · intro h
    have hmask : addressMask.getLsbD a.bit = false := by cases a <;> decide
    refine setsOnly_of_bits UpperPageAttribute.readBit (e.getLsbD_set a b) is_eq (fun _ ↦ rfl)
      hmask ?_ fun a' ha' hbit ↦ ?_
    · by_cases ha : a = .accessed
      · subst ha
        exact .inr (h (.inr rfl))
      · exact .inl (by cases a <;> first | rfl | exact absurd rfl ha)
    · by_cases hacc : a' = .accessed
      · subst hacc
        obtain rfl : a = .present := UpperPageAttribute.bit_injective hbit.symm
        exact h (.inl rfl)
      · have hread : a'.readBit = a'.bit := by
          cases a' <;> first | rfl | exact absurd rfl hacc
        exact absurd (UpperPageAttribute.bit_injective (hread.symm.trans hbit)) ha'

/-- **Every setter of either class does what it should**, except that `SetPresent` and `SetAccessed`
of an `UpperPageEntry` do so exactly if its bit 0 is already what they set. -/
theorem entries_setsOnly_iff (word : BitVec 64) (b : Bool) :
    (∀ a, PageEntry.SetsOnly ⟨word⟩ a b) ∧ ∀ a, UpperPageEntry.SetsOnly ⟨word⟩ a b ↔
      (a = .present ∨ a = .accessed → word.getLsbD 0 = b) :=
  ⟨fun a ↦ PageEntry.setsOnly ⟨word⟩ a b, fun a ↦ UpperPageEntry.setsOnly_iff ⟨word⟩ a b⟩

/-- **Setting `Accessed` of an entry that is zero** is not seen, and setting `Present` of it makes
it accessed. -/
theorem not_setsOnly_zero : (¬∀ (word : BitVec 64) (b : Bool),
      (∀ a, PageEntry.SetsOnly ⟨word⟩ a b) ∧ ∀ a, UpperPageEntry.SetsOnly ⟨word⟩ a b) ∧
    (UpperPageEntry.setAccessed true ⟨0⟩).isAccessed = false ∧
      (UpperPageEntry.setPresent true ⟨0⟩).isAccessed = true := by
  have hself : (UpperPageEntry.setAccessed true ⟨0⟩).isAccessed = false := by decide
  refine ⟨fun h ↦ ?_, hself, by decide⟩
  exact Bool.false_ne_true (hself.symm.trans ((h 0 true).2 .accessed).self)

end X8664
