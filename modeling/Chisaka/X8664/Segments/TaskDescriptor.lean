import Chisaka.X8664.Segments.SegmentDescriptor

/-!
# Task descriptors

A task descriptor is a segment descriptor followed by the upper half of a 64-bit base and three
reserved fields.  It can be made in two ways: `ofLimit` initialises the fields of the segment
descriptor with bytes put together by hand, and asserts what it has made; `ofAttributes` goes
through the setters, as segment descriptors do.

`ofLimit` takes eight of the lower sixteen limit bits, and it initialises none of the fields behind
the segment descriptor.  `agree_iff` says which arguments, and which contents of the memory that the
descriptor is built in, hide that.
-/

set_option autoImplicit false

namespace X8664

open Chisaka

/-- `SegmentAttributes::TaskAttributes`. -/
structure TaskAttributes where
  /-- `isByteGranular`. -/
  isByteGranular : Bool
  /-- `avl`. -/
  avl : Bool
  /-- `present`. -/
  present : Bool
  /-- `privilaged`. -/
  privilaged : Bool
  /-- `busy`. -/
  busy : Bool
  deriving DecidableEq

/-- `TaskDescriptor`. -/
structure TaskDescriptor where
  /-- `m_segdesc`. -/
  segdesc : SegmentDescriptor
  /-- `m_base3`. -/
  base3 : BitVec 32
  /-- `m_reserved0`. -/
  reserved0 : BitVec 8
  /-- `m_res1_zeros`. -/
  res1Zeros : BitVec 8
  /-- `m_res2`. -/
  res2 : BitVec 16
  deriving DecidableEq

namespace TaskDescriptor

/-! ## Getters -/

/-- `SegmentLimit`. -/
def segmentLimit (t : TaskDescriptor) : BitVec 32 := t.segdesc.segmentLimit

/-- `IsPresent`. -/
def isPresent (t : TaskDescriptor) : Bool := t.segdesc.isPresent

/-- `IsPrivilaged`. -/
def isPrivilaged (t : TaskDescriptor) : Bool := t.segdesc.isPrivilaged

/-- `Type`. -/
def type (t : TaskDescriptor) : BitVec 8 := t.segdesc.type

/-- `IsByteGranular`. -/
def isByteGranular (t : TaskDescriptor) : Bool := t.segdesc.isByteGranular

/-- `IsBusy`. -/
def isBusy (t : TaskDescriptor) : Bool := t.segdesc.type &&& 0x2#8 != 0

/-- `BaseAddress`. -/
def baseAddress (t : TaskDescriptor) : BitVec 64 :=
  t.base3.setWidth 64 <<< 32 ||| t.segdesc.baseAddress.setWidth 64

/-! ## Setters -/

/-- `SetUpperBaseAddress`. -/
def setUpperBaseAddress (t : TaskDescriptor) (baseAddress : BitVec 64) : TaskDescriptor :=
  { t with base3 := ((baseAddress &&& 0xFFFFFFFF#64 <<< 32) >>> 32).setWidth 32 }

/-- `SetAttributes`.  The available bit that is passed is not used. -/
def setAttributes (t : TaskDescriptor) (taskatribs : TaskAttributes) : TaskDescriptor :=
  let segdesc := t.segdesc.setFlags
    { isByteGranular := taskatribs.isByteGranular
      db := false
      longModeSegment := false
      avl := false }
  let taskType : BitVec 8 := if taskatribs.busy then 0xb else 0x9
  { t with
    segdesc := segdesc.setAccessByte
      { present := taskatribs.present
        privilaged := taskatribs.privilaged
        isSystemSegment := true
        type := taskType } }

/-- `SetReserved`. -/
def setReserved (t : TaskDescriptor) : TaskDescriptor :=
  { t with reserved0 := 0, res1Zeros := 0, res2 := 0 }

/-! ## Constructors

`t` is what the bytes held before. -/

/-- What the constructor from an address and a limit asserts at its end. -/
def checkBuilt (t : TaskDescriptor) (baseAddress : BitVec 64) (limit : BitVec 32) :
    Exec TaskDescriptor := do
  kassert (t.segmentLimit = limit)
  kassert (t.baseAddress = baseAddress)
  kassert (t.type = 0b1001)
  kassert (t.isPresent = true)
  kassert (t.isPrivilaged = true)
  kassert (t.isByteGranular = true)
  kassert (t.isBusy = false)
  kassert (t.reserved0 = 0)
  kassert (t.res1Zeros = 0)
  kassert (t.res2 = 0)
  return t

/-- The constructor from an address and a limit. -/
def ofLimit (t : TaskDescriptor) (baseAddress : BitVec 64) (limit : BitVec 32) :
    Exec TaskDescriptor :=
  checkBuilt { t with
    segdesc := .ofBytes t.segdesc baseAddress ((limit &&& 0xFF#32).setWidth 16) 0b10001001
      (((limit &&& 0xF#32 <<< 0x10) >>> 0x10).setWidth 8) } baseAddress limit

/-- The constructor from a base and limit and attributes. -/
def ofAttributes (t : TaskDescriptor) (baselimit : BaseLimit) (taskatribs : TaskAttributes) :
    Exec TaskDescriptor := do
  let segdesc := t.segdesc.setBaseAddress
    ((baselimit.base &&& 0xFFFFFFFF#64).setWidth 32 |>.setWidth 64)
  let segdesc ← segdesc.setSegmentLimit baselimit.limit
  let t := { t with segdesc := segdesc }
  return ((t.setAttributes taskatribs).setUpperBaseAddress baselimit.base).setReserved

/-! ## What the constructors build -/

variable {t t' d : TaskDescriptor} {base : BitVec 64} {limit : BitVec 32} {a : TaskAttributes}

/-- The base is the two halves side by side. -/
theorem baseAddress_eq (t : TaskDescriptor) :
    t.baseAddress = t.base3 ++ t.segdesc.baseAddress := by
  have h := Bits.shiftLeft_or_setWidth t.base3 t.segdesc.baseAddress 64
  rw [BitVec.setWidth_eq] at h
  rw [baseAddress, h]

/-- The segment descriptor of a task that is not busy, with the lower limit bits as given. -/
def built (base : BitVec 64) (limit0 : BitVec 16) (limit : BitVec 32) : SegmentDescriptor where
  limit0 := limit0
  base0 := base.extractLsb' 0 16
  base1 := base.extractLsb' 16 8
  accessbyte := 0x89
  flagsLimit1 := (limit.extractLsb' 16 4).setWidth 8
  base2 := base.extractLsb' 24 8

theorem ofBytes_eq (s : SegmentDescriptor) (base : BitVec 64) (limit : BitVec 32) :
    s.ofBytes base ((limit &&& 0xFF#32).setWidth 16) 0b10001001
        (((limit &&& 0xF#32 <<< 0x10) >>> 0x10).setWidth 8)
      = built base ((limit.extractLsb' 0 8).setWidth 16) limit := by
  have h0 := Bits.setWidth_and limit 8 16
  have h1 := Bits.setWidth_and_shiftLeft_ushiftRight limit 16 4 8
  rw [SegmentDescriptor.ofBytes, SegmentDescriptor.setBaseAddress_eq, built, ← h0, ← h1]
  rfl

/-- The attributes of a task that is present, privileged, byte-granular and not busy. -/
structure Plain (a : TaskAttributes) : Prop where
  /-- The limit counts bytes. -/
  isByteGranular : a.isByteGranular = true
  /-- Present. -/
  present : a.present = true
  /-- Of the kernel. -/
  privilaged : a.privilaged = true
  /-- Not busy. -/
  busy : a.busy = false

/-- The halves of an address, as the setters take them. -/
theorem halves_eq (base : BitVec 64) :
    ((base &&& 0xFFFFFFFF#64).setWidth 32).setWidth 64 = (base.extractLsb' 0 32).setWidth 64 ∧
      ((base &&& 0xFFFFFFFF#64 <<< 32) >>> 32).setWidth 32 = base.extractLsb' 32 32 := by
  have hlow := Bits.setWidth_and base 32 32
  have hupper := Bits.setWidth_and_shiftLeft_ushiftRight base 32 32 32
  rw [BitVec.setWidth_eq] at hlow hupper
  rw [← hlow, ← hupper]
  exact ⟨rfl, rfl⟩

/-- **What the setters build** for a task of the kernel, in bytes or in pages. -/
theorem ofAttributes_granular (t : TaskDescriptor) (base : BitVec 64) (h : limit ≤ 0xFFFFF)
    (g v : Bool) : t.ofAttributes ⟨base, limit⟩ ⟨g, v, true, true, false⟩ = .ok ⟨
      { built base (limit.extractLsb' 0 16) limit with
        flagsLimit1 := (limit.extractLsb' 16 4).setWidth 8 |||
          SegmentDescriptor.flagbyte ⟨g, false, false, false⟩ <<< 4 },
      base.extractLsb' 32 32, 0, 0, 0⟩ := by
  obtain ⟨hlow, hupper⟩ := halves_eq base
  have hb0 := Bits.extract_extract_low base (i := 0) (k := 16) (w := 32) (m := 64)
    (by decide) (by decide)
  have hb1 := Bits.extract_extract_low base (i := 16) (k := 8) (w := 32) (m := 64)
    (by decide) (by decide)
  have hb2 := Bits.extract_extract_low base (i := 24) (k := 8) (w := 32) (m := 64)
    (by decide) (by decide)
  have hflags := (SegmentDescriptor.lowerHalf t.segdesc.flagsLimit1 (limit.extractLsb' 16 4)).1
  have hbyte : SegmentDescriptor.accessBuffer ⟨true, true, true, 0x9⟩ = 0x89 := by decide
  simp only [ofAttributes, hlow, SegmentDescriptor.setBaseAddress_eq,
    SegmentDescriptor.setSegmentLimit_eq _ h, hb0, hb1, hb2, Exec.ok_bind, Exec.pure_eq,
    setAttributes, setUpperBaseAddress, hupper, setReserved, SegmentDescriptor.setFlags,
    SegmentDescriptor.setAccessByte, hflags, Bool.false_eq_true, if_false, hbyte, built]

/-- The flags of a task whose limit counts bytes are zero. -/
theorem ofAttributes_eq (t : TaskDescriptor) (base : BitVec 64) (h : limit ≤ 0xFFFFF)
    (ha : Plain a) : t.ofAttributes ⟨base, limit⟩ a
      = .ok ⟨built base (limit.extractLsb' 0 16) limit, base.extractLsb' 32 32, 0, 0, 0⟩ := by
  obtain ⟨g, v, p, k, b⟩ := a
  obtain ⟨rfl, rfl, rfl, rfl⟩ := ha
  have hzero : (limit.extractLsb' 16 4).setWidth 8 |||
      SegmentDescriptor.flagbyte ⟨true, false, false, false⟩ <<< 4
        = (limit.extractLsb' 16 4).setWidth 8 := BitVec.or_zero
  rw [ofAttributes_granular t base h true v, hzero]
  rfl

/-- A limit is assembled again exactly if the lower field has all of its lower sixteen bits. -/
theorem segmentLimit_built_iff (base : BitVec 64) (limit0 : BitVec 16) (h : limit ≤ 0xFFFFF) :
    (built base limit0 limit).segmentLimit = limit ↔ limit0 = limit.extractLsb' 0 16 := by
  have hlt : limit.toNat < 2 ^ 20 := Nat.lt_of_le_of_lt h (by decide)
  have h0 := limit0.isLt
  have hlow : (built base limit0 limit).limit0 = limit0 := rfl
  have hhigh : (built base limit0 limit).flagsLimit1 = (limit.extractLsb' 16 4).setWidth 8 := rfl
  rw [← BitVec.toNat_inj, ← BitVec.toNat_inj, SegmentDescriptor.toNat_segmentLimit, hlow, hhigh,
    BitVec.toNat_setWidth, BitVec.extractLsb'_toNat, BitVec.extractLsb'_toNat,
    Nat.shiftRight_eq_div_pow, Nat.shiftRight_zero]
  omega

theorem baseAddress_built (base : BitVec 64) (limit0 : BitVec 16) (limit : BitVec 32) :
    (built base limit0 limit).baseAddress = base.extractLsb' 0 32 := by
  rw [← SegmentDescriptor.baseAddress_setBaseAddress_eq (built base limit0 limit) base,
    SegmentDescriptor.setBaseAddress_eq]
  rfl

/-- The upper half of the base must be in place. -/
theorem baseAddress_eq_iff (ht : t.segdesc.baseAddress = base.extractLsb' 0 32) :
    t.baseAddress = base ↔ t.base3 = base.extractLsb' 32 32 := by
  have h1 := base.isLt
  have h2 := t.base3.isLt
  have hlow : base.toNat >>> 0 % 2 ^ 32 < 2 ^ 32 := Nat.mod_lt _ (by decide)
  rw [baseAddress_eq, ht, ← BitVec.toNat_inj, ← BitVec.toNat_inj, BitVec.toNat_append,
    BitVec.extractLsb'_toNat, BitVec.extractLsb'_toNat, Bits.shiftLeft_or_of_lt _ hlow]
  simp only [Nat.shiftRight_eq_div_pow, pow_zero, Nat.div_one]
  omega

/-- The lower eight bits are all of the lower field if the next eight are zero. -/
theorem extract_eq_iff (limit : BitVec 32) :
    (limit.extractLsb' 0 8).setWidth 16 = limit.extractLsb' 0 16 ↔ limit.extractLsb' 8 8 = 0 := by
  have h0 : (0 : BitVec 8).toNat = 0 := rfl
  rw [← BitVec.toNat_inj, ← BitVec.toNat_inj, BitVec.toNat_setWidth, BitVec.extractLsb'_toNat,
    BitVec.extractLsb'_toNat, BitVec.extractLsb'_toNat, h0]
  simp only [Nat.shiftRight_eq_div_pow, pow_zero, Nat.div_one]
  omega

/-- **What passes the assertions.** -/
theorem ofLimit_eq_ok_iff (h : limit ≤ 0xFFFFF) : t.ofLimit base limit = .ok d ↔
    (limit.extractLsb' 8 8 = 0 ∧ t.base3 = base.extractLsb' 32 32 ∧
      t.reserved0 = 0 ∧ t.res1Zeros = 0 ∧ t.res2 = 0) ∧
    d = ⟨built base (limit.extractLsb' 0 16) limit, base.extractLsb' 32 32, 0, 0, 0⟩ := by
  obtain ⟨s, base3, r0, r1, r2⟩ := t
  set s₁ := built base ((limit.extractLsb' 0 8).setWidth 16) limit with hs₁
  have hlimit : segmentLimit ⟨s₁, base3, r0, r1, r2⟩ = limit ↔ limit.extractLsb' 8 8 = 0 :=
    (segmentLimit_built_iff base _ h).trans (extract_eq_iff limit)
  have hbase : baseAddress ⟨s₁, base3, r0, r1, r2⟩ = base ↔ base3 = base.extractLsb' 32 32 :=
    baseAddress_eq_iff (baseAddress_built base _ limit)
  have hpriv : isPrivilaged ⟨s₁, base3, r0, r1, r2⟩ = true := s₁.isPrivilaged_eq_true
  have hgran : isByteGranular ⟨s₁, base3, r0, r1, r2⟩ = true := by
    have hy : ∀ y : BitVec 4, (!(y.setWidth 8 &&& 0x80#8 != 0)) = true := by decide
    exact hy (limit.extractLsb' 16 4)
  have htype : type ⟨s₁, base3, r0, r1, r2⟩ = 0b1001 := by
    show 0x89#8 &&& 0xF#8 = 0b1001
    decide
  have hpresent : isPresent ⟨s₁, base3, r0, r1, r2⟩ = true := by
    show (0x89#8 &&& 0x80#8 != 0) = true
    decide
  have hbusy : isBusy ⟨s₁, base3, r0, r1, r2⟩ = false := by
    show (0x89#8 &&& 0xF#8 &&& 0x2#8 != 0) = false
    decide
  simp only [ofLimit, checkBuilt, ofBytes_eq, ← hs₁, kassert, Exec.check_bind_eq_ok, hlimit, hbase,
    hpriv, hgran, htype, hpresent, hbusy, true_and, Exec.pure_eq, Except.ok.injEq]
  constructor
  · rintro ⟨h0, rfl, rfl, rfl, rfl, rfl⟩
    rw [hs₁, (extract_eq_iff limit).mpr h0]
    exact ⟨⟨h0, rfl, rfl, rfl, rfl⟩, rfl⟩
  · rintro ⟨⟨h0, rfl, rfl, rfl, rfl⟩, rfl⟩
    rw [hs₁, (extract_eq_iff limit).mpr h0]
    exact ⟨h0, rfl, rfl, rfl, rfl, rfl⟩

/-- Both constructors return, with the same descriptor; the first one has passed its assertions. -/
def Agree (t t' : TaskDescriptor) (base : BitVec 64) (limit : BitVec 32) (a : TaskAttributes) :
    Prop :=
  ∃ d, t.ofLimit base limit = .ok d ∧ t'.ofAttributes ⟨base, limit⟩ a = .ok d

/-- **The two constructors agree** exactly if bits 8 to 15 of the limit are zero and the memory
behind the segment descriptor has held the right values before. -/
theorem agree_iff (t t' : TaskDescriptor) (base : BitVec 64) (limit : BitVec 32)
    (a : TaskAttributes) (h : limit ≤ 0xFFFFF) (ha : Plain a) :
    Agree t t' base limit a ↔ limit.extractLsb' 8 8 = 0 ∧ t.base3 = base.extractLsb' 32 32 ∧
      t.reserved0 = 0 ∧ t.res1Zeros = 0 ∧ t.res2 = 0 := by
  have hset := ofAttributes_eq t' base h ha
  constructor
  · rintro ⟨d, hd, -⟩
    exact ((ofLimit_eq_ok_iff h).mp hd).1
  · intro hc
    exact ⟨_, (ofLimit_eq_ok_iff h).mpr ⟨hc, rfl⟩, hset⟩

/-- A descriptor of zeros. -/
def zeros : TaskDescriptor := ⟨⟨0, 0, 0, 0, 0, 0⟩, 0, 0, 0, 0⟩

/-- The attributes in question. -/
def plain : TaskAttributes := ⟨true, false, true, true, false⟩

theorem plain_plain : Plain plain := ⟨rfl, rfl, rfl, rfl⟩

theorem agree_zeros : Agree zeros zeros 0x12345678 0x67 plain :=
  (agree_iff zeros zeros 0x12345678 0x67 plain (by decide) plain_plain).mpr (by decide)

/-- **A task state segment of more than 256 bytes fails the first assertion**, and so does a base
above 4 GiB the second. -/
theorem not_agree_zeros :
    (¬∀ (t t' : TaskDescriptor) (base : BitVec 64) (limit : BitVec 32) (a : TaskAttributes),
      limit ≤ 0xFFFFF → Plain a → Agree t t' base limit a) ∧
    zeros.ofLimit 0x12345678 0x100 = .error .assertFailed ∧
      zeros.ofLimit 0xFFFF800000000000 0x67 = .error .assertFailed := by
  refine ⟨fun hall ↦ ?_, by decide, by decide⟩
  obtain ⟨d, hd, -⟩ := hall zeros zeros 0x12345678 0x100 plain (by decide) plain_plain
  exact absurd ((ofLimit_eq_ok_iff (by decide)).mp hd).1.1 (by decide)

end TaskDescriptor

end X8664
