import Mathlib.Data.BitVec
import Chisaka.Lib.Bits
import Chisaka.Types

/-!
# Segment descriptors

A segment descriptor scatters a 32-bit base, a 20-bit limit, the access byte and four flags over
six packed fields; one byte holds the upper limit bits next to the flags.  The setters and getters
are those of the class, masks and shifts as they stand there.

`attributes` is what the getters report, together with the two attributes that no getter reports
faithfully: the available bit and the privilege level.  Every setter changes the attributes it
names and no other (`settersFramed`).  What is encoded is what is decoded, with one exception:
`isPrivilaged` shifts the two bits of the privilege level out of the byte, so that it answers `true`
for every descriptor.
-/

set_option autoImplicit false

namespace X8664

open Chisaka

/-! ## Arguments -/

/-- `SegmentAttributes::BaseLimit`. -/
structure BaseLimit where
  /-- `base`, a pointer. -/
  base : BitVec 64
  /-- `limit`. -/
  limit : BitVec 32
  deriving DecidableEq

/-- `SegmentAttributes::AccessByte`. -/
structure AccessByte where
  /-- `present`. -/
  present : Bool
  /-- `privilaged`. -/
  privilaged : Bool
  /-- `isSystemSegment`. -/
  isSystemSegment : Bool
  /-- `type`. -/
  type : BitVec 8
  deriving DecidableEq

/-- `SegmentAttributes::Flags`. -/
structure Flags where
  /-- `isByteGranular`. -/
  isByteGranular : Bool
  /-- `db`. -/
  db : Bool
  /-- `longModeSegment`. -/
  longModeSegment : Bool
  /-- `avl`. -/
  avl : Bool
  deriving DecidableEq

/-- A `bool` stored in a byte. -/
def ofBool (b : Bool) : BitVec 8 := if b then 1 else 0

/-- `SegmentDescriptor`. -/
structure SegmentDescriptor where
  /-- `m_limit0`. -/
  limit0 : BitVec 16
  /-- `m_base0`. -/
  base0 : BitVec 16
  /-- `m_base1`. -/
  base1 : BitVec 8
  /-- `m_accessbyte`: type, s, dpl, p. -/
  accessbyte : BitVec 8
  /-- `m_flags_limit1`: the upper limit bits, avl, l, d/b and g. -/
  flagsLimit1 : BitVec 8
  /-- `m_base2`. -/
  base2 : BitVec 8
  deriving DecidableEq

namespace SegmentDescriptor

/-! ## Setters -/

/-- `SetBaseAddress`. -/
def setBaseAddress (d : SegmentDescriptor) (baseAddress : BitVec 64) : SegmentDescriptor :=
  { d with
    base0 := (baseAddress &&& 0xFFFF#64).setWidth 16
    base1 := ((baseAddress &&& 0xFF#64 <<< 0x10) >>> 0x10).setWidth 8
    base2 := ((baseAddress &&& 0xFF#64 <<< 0x18) >>> 0x18).setWidth 8 }

/-- `SetSegmentLimit`. -/
def setSegmentLimit (d : SegmentDescriptor) (limit : BitVec 32) : Exec SegmentDescriptor := do
  kassert (limit ≤ 0xFFFFF)
  return { d with
    limit0 := (limit &&& 0xFFFF#32).setWidth 16
    flagsLimit1 := d.flagsLimit1 &&& 0xF0#8 ||| ((limit &&& 0xF0000#32) >>> 16).setWidth 8 }

/-- `SetBaseLimit`. -/
def setBaseLimit (d : SegmentDescriptor) (baseLimit : BaseLimit) : Exec SegmentDescriptor :=
  (d.setBaseAddress baseLimit.base).setSegmentLimit baseLimit.limit

/-- The byte that `SetAccessByte` puts together. -/
def accessBuffer (accessByte : AccessByte) : BitVec 8 :=
  let buffer := ofBool accessByte.present
  let buffer := buffer <<< 2
  let buffer := buffer ||| if accessByte.privilaged then 0 else 3
  let buffer := buffer <<< 1
  let buffer := buffer ||| if accessByte.isSystemSegment then 0 else 1
  let buffer := buffer <<< 4
  buffer ||| (accessByte.type &&& 0x0F#8)

/-- `SetAccessByte`. -/
def setAccessByte (d : SegmentDescriptor) (accessByte : AccessByte) : SegmentDescriptor :=
  { d with accessbyte := accessBuffer accessByte }

/-- The nibble that `SetFlags` puts together. -/
def flagbyte (flags : Flags) : BitVec 8 :=
  let flagbyte := ofBool (!flags.isByteGranular)
  let flagbyte := flagbyte <<< 1
  let flagbyte := flagbyte ||| ofBool flags.db
  let flagbyte := flagbyte <<< 1
  let flagbyte := flagbyte ||| ofBool flags.longModeSegment
  let flagbyte := flagbyte <<< 1
  flagbyte ||| ofBool flags.avl

/-- `SetFlags`. -/
def setFlags (d : SegmentDescriptor) (flags : Flags) : SegmentDescriptor :=
  { d with flagsLimit1 := d.flagsLimit1 &&& 0x0F#8 ||| flagbyte flags <<< 4 }

/-- The constructor from the lower limit bits and the two packed bytes.  The base fields have no
initialisers: `d` is what the bytes held before. -/
def ofBytes (d : SegmentDescriptor) (baseAddress : BitVec 64) (limit0 : BitVec 16)
    (accessByte flagsLimit1 : BitVec 8) : SegmentDescriptor :=
  setBaseAddress { d with
    limit0 := limit0
    accessbyte := accessByte
    flagsLimit1 := flagsLimit1 } baseAddress

/-- The constructor from a base and limit, an access byte and flags.  The members have no
initialisers: `d` is what the bytes held before. -/
def new (d : SegmentDescriptor) (baselimit : BaseLimit) (accessbyte : AccessByte)
    (flags : Flags) : Exec SegmentDescriptor := do
  let d ← d.setBaseLimit baselimit
  return (d.setAccessByte accessbyte).setFlags flags

/-! ## Getters -/

/-- `SegmentLimit`. -/
def segmentLimit (d : SegmentDescriptor) : BitVec 32 :=
  (d.flagsLimit1 &&& 0x0F#8).setWidth 32 <<< 16 ||| d.limit0.setWidth 32

/-- `BaseAddress`. -/
def baseAddress (d : SegmentDescriptor) : BitVec 32 :=
  (d.base2.setWidth 32 <<< 8 ||| d.base1.setWidth 32) <<< 16 ||| d.base0.setWidth 32

/-- `IsPresent`. -/
def isPresent (d : SegmentDescriptor) : Bool := d.accessbyte &&& 0x80#8 != 0

/-- `IsPrivilaged`. -/
def isPrivilaged (d : SegmentDescriptor) : Bool :=
  let dpl := (d.accessbyte &&& 0x70#8) >>> 8
  dpl == 0

/-- `IsSystemSegment`. -/
def isSystemSegment (d : SegmentDescriptor) : Bool := !(d.accessbyte &&& 0x10#8 != 0)

/-- `Type`. -/
def type (d : SegmentDescriptor) : BitVec 8 := d.accessbyte &&& 0xF#8

/-- `IsByteGranular`. -/
def isByteGranular (d : SegmentDescriptor) : Bool := !(d.flagsLimit1 &&& 0x80#8 != 0)

/-- `IsDB`. -/
def isDB (d : SegmentDescriptor) : Bool := d.flagsLimit1 &&& 0x40#8 != 0

/-- `IsLongCodeSegment`. -/
def isLongCodeSegment (d : SegmentDescriptor) : Bool := d.flagsLimit1 &&& 0x20#8 != 0

/-! ## The fields of the words -/

section Fields

variable (d : SegmentDescriptor)

theorem setBaseAddress_eq (base : BitVec 64) : d.setBaseAddress base = { d with
    base0 := base.extractLsb' 0 16
    base1 := base.extractLsb' 16 8
    base2 := base.extractLsb' 24 8 } := by
  have h0 := Bits.setWidth_and base 16 16
  have h1 := Bits.setWidth_and_shiftLeft_ushiftRight base 16 8 8
  have h2 := Bits.setWidth_and_shiftLeft_ushiftRight base 24 8 8
  rw [BitVec.setWidth_eq] at h0 h1 h2
  rw [← h0, ← h1, ← h2]
  rfl

theorem setSegmentLimit_eq {limit : BitVec 32} (h : limit ≤ 0xFFFFF) :
    d.setSegmentLimit limit = .ok { d with
      limit0 := limit.extractLsb' 0 16
      flagsLimit1 := d.flagsLimit1 &&& 0xF0#8 ||| (limit.extractLsb' 16 4).setWidth 8 } := by
  have h0 := Bits.setWidth_and limit 16 16
  have h1 := Bits.setWidth_and_shiftLeft_ushiftRight limit 16 4 8
  rw [BitVec.setWidth_eq] at h0
  rw [← h0, ← h1, setSegmentLimit, kassert, Exec.check_of h]
  rfl

/-- The base is the three base fields side by side. -/
theorem baseAddress_eq : d.baseAddress = d.base2 ++ d.base1 ++ d.base0 := by
  have h1 := Bits.shiftLeft_or_setWidth d.base2 d.base1 32
  have h2 := Bits.shiftLeft_or_setWidth (d.base2 ++ d.base1) d.base0 32
  rw [BitVec.setWidth_eq] at h2
  rw [baseAddress, h1, h2]

/-- The limit is the lower half of one byte next to `m_limit0`. -/
theorem toNat_segmentLimit :
    d.segmentLimit.toNat = d.flagsLimit1.toNat % 16 * 2 ^ 16 + d.limit0.toNat := by
  have happ := Bits.shiftLeft_or_setWidth (d.flagsLimit1 &&& 0x0F#8) d.limit0 32
  have hmask : (d.flagsLimit1 &&& 0x0F#8).toNat = d.flagsLimit1.toNat % 16 := by
    rw [BitVec.toNat_and]
    exact Nat.and_two_pow_sub_one_eq_mod d.flagsLimit1.toNat 4
  have hlt := d.limit0.isLt
  rw [segmentLimit, happ, BitVec.toNat_setWidth, BitVec.toNat_append, hmask,
    Bits.shiftLeft_or_of_lt _ hlt]
  exact Nat.mod_eq_of_lt (by omega)

/-- The two halves of a byte do not overlap. -/
theorem halves (x : BitVec 8) : x &&& 0xF0#8 &&& 0x0F#8 = 0 ∧ x &&& 0x0F#8 &&& 0xF0#8 = 0 ∧
    x &&& 0xF0#8 &&& 0xF0#8 = x &&& 0xF0#8 ∧ x &&& 0x0F#8 &&& 0x0F#8 = x &&& 0x0F#8 := by
  revert x
  decide +kernel

/-- The upper limit bits go into the lower half of the byte they share with the flags. -/
theorem lowerHalf (x : BitVec 8) (y : BitVec 4) :
    (x &&& 0xF0#8 ||| y.setWidth 8) &&& 0x0F#8 = y.setWidth 8 ∧
      (x &&& 0xF0#8 ||| y.setWidth 8) &&& 0xF0#8 = x &&& 0xF0#8 := by
  have hy : ∀ y : BitVec 4,
      y.setWidth 8 &&& 0x0F#8 = y.setWidth 8 ∧ y.setWidth 8 &&& 0xF0#8 = 0 := by decide
  obtain ⟨h1, -, h3, -⟩ := halves x
  obtain ⟨hy1, hy2⟩ := hy y
  rw [BitVec.and_or_distrib_right, BitVec.and_or_distrib_right, h1, h3, hy1, hy2]
  exact ⟨BitVec.zero_or, BitVec.or_zero⟩

end Fields

/-! ## Attributes -/

/-- What a descriptor says of its segment. -/
structure Attributes where
  /-- The first address. -/
  baseAddress : BitVec 32
  /-- The limit. -/
  segmentLimit : BitVec 32
  /-- Present. -/
  isPresent : Bool
  /-- Whether the level of privilege is that of the kernel, as `IsPrivilaged` has it. -/
  isPrivilaged : Bool
  /-- The level of privilege itself. -/
  dpl : BitVec 2
  /-- Not a code or data segment. -/
  isSystemSegment : Bool
  /-- The type. -/
  type : BitVec 8
  /-- The limit counts bytes. -/
  isByteGranular : Bool
  /-- The default operand size. -/
  isDB : Bool
  /-- A 64-bit code segment. -/
  isLongCodeSegment : Bool
  /-- The bit that is left to the kernel. -/
  avl : Bool

/-- The attributes of a descriptor.  There is no getter for `dpl` and `avl`. -/
def attributes (d : SegmentDescriptor) : Attributes where
  baseAddress := d.baseAddress
  segmentLimit := d.segmentLimit
  isPresent := d.isPresent
  isPrivilaged := d.isPrivilaged
  dpl := d.accessbyte.extractLsb' 5 2
  isSystemSegment := d.isSystemSegment
  type := d.type
  isByteGranular := d.isByteGranular
  isDB := d.isDB
  isLongCodeSegment := d.isLongCodeSegment
  avl := d.flagsLimit1.getLsbD 4

/-- The attributes in the upper half of the byte they share with the limit. -/
theorem flags_congr {x y : BitVec 8} (h : x &&& 0xF0#8 = y &&& 0xF0#8) :
    x &&& 0x80#8 = y &&& 0x80#8 ∧ x &&& 0x40#8 = y &&& 0x40#8 ∧ x &&& 0x20#8 = y &&& 0x20#8 ∧
      x.getLsbD 4 = y.getLsbD 4 := by
  have hsub : ∀ z : BitVec 8, z &&& 0x80#8 = (z &&& 0xF0#8) &&& 0x80#8 ∧
      z &&& 0x40#8 = (z &&& 0xF0#8) &&& 0x40#8 ∧ z &&& 0x20#8 = (z &&& 0xF0#8) &&& 0x20#8 ∧
      z.getLsbD 4 = (z &&& 0xF0#8).getLsbD 4 := by decide +kernel
  obtain ⟨hx1, hx2, hx3, hx4⟩ := hsub x
  obtain ⟨hy1, hy2, hy3, hy4⟩ := hsub y
  rw [hx1, hx2, hx3, hx4, hy1, hy2, hy3, hy4, h]
  exact ⟨rfl, rfl, rfl, rfl⟩

/-- Each setter changes the attributes it names, and no other. -/
structure SettersFramed : Prop where
  /-- `SetBaseAddress`. -/
  setBaseAddress : ∀ (d : SegmentDescriptor) (base : BitVec 64),
    (d.setBaseAddress base).attributes
      = { d.attributes with baseAddress := (d.setBaseAddress base).baseAddress }
  /-- `SetSegmentLimit`, which asserts that the limit has 20 bits. -/
  setSegmentLimit : ∀ (d d' : SegmentDescriptor) (limit : BitVec 32),
    d.setSegmentLimit limit = .ok d' →
      d'.attributes = { d.attributes with segmentLimit := d'.segmentLimit }
  /-- `SetAccessByte`. -/
  setAccessByte : ∀ (d : SegmentDescriptor) (a : AccessByte), (d.setAccessByte a).attributes
    = { (d.setAccessByte a).attributes with
        baseAddress := d.attributes.baseAddress
        segmentLimit := d.attributes.segmentLimit
        isByteGranular := d.attributes.isByteGranular
        isDB := d.attributes.isDB
        isLongCodeSegment := d.attributes.isLongCodeSegment
        avl := d.attributes.avl }
  /-- `SetFlags`. -/
  setFlags : ∀ (d : SegmentDescriptor) (f : Flags), (d.setFlags f).attributes
    = { d.attributes with
        isByteGranular := (d.setFlags f).isByteGranular
        isDB := (d.setFlags f).isDB
        isLongCodeSegment := (d.setFlags f).isLongCodeSegment
        avl := f.avl }

theorem setSegmentLimit_ok {d d' : SegmentDescriptor} {limit : BitVec 32}
    (h : d.setSegmentLimit limit = .ok d') : limit ≤ 0xFFFFF := by
  by_contra hlt
  rw [setSegmentLimit, kassert, Exec.check_of_not hlt] at h
  cases h

/-- The nibble that `SetFlags` writes is read back, and the limit bits next to it stay. -/
theorem upperHalf (x : BitVec 8) (f : Flags) :
    (x &&& 0x0F#8 ||| flagbyte f <<< 4) &&& 0x0F#8 = x &&& 0x0F#8 ∧
      (!((x &&& 0x0F#8 ||| flagbyte f <<< 4) &&& 0x80#8 != 0)) = f.isByteGranular ∧
      ((x &&& 0x0F#8 ||| flagbyte f <<< 4) &&& 0x40#8 != 0) = f.db ∧
      ((x &&& 0x0F#8 ||| flagbyte f <<< 4) &&& 0x20#8 != 0) = f.longModeSegment ∧
      (x &&& 0x0F#8 ||| flagbyte f <<< 4).getLsbD 4 = f.avl := by
  have hf : flagbyte f <<< 4 &&& 0x0F#8 = 0 ∧
      (!(flagbyte f <<< 4 &&& 0x80#8 != 0)) = f.isByteGranular ∧
      (flagbyte f <<< 4 &&& 0x40#8 != 0) = f.db ∧
      (flagbyte f <<< 4 &&& 0x20#8 != 0) = f.longModeSegment ∧
      (flagbyte f <<< 4).getLsbD 4 = f.avl := by
    obtain ⟨g, b, l, a⟩ := f
    revert g b l a
    decide
  obtain ⟨h0, hg, hb, hl, ha⟩ := hf
  obtain ⟨-, h2, -, h4⟩ := halves x
  have hupper : (x &&& 0x0F#8 ||| flagbyte f <<< 4) &&& 0xF0#8 = flagbyte f <<< 4 &&& 0xF0#8 := by
    rw [BitVec.and_or_distrib_right, h2]
    exact BitVec.zero_or
  obtain ⟨e1, e2, e3, e4⟩ := flags_congr hupper
  refine ⟨?_, by rw [e1, hg], by rw [e2, hb], by rw [e3, hl], by rw [e4, ha]⟩
  rw [BitVec.and_or_distrib_right, h4, h0]
  exact BitVec.or_zero

theorem settersFramed : SettersFramed where
  setBaseAddress _ _ := rfl
  setSegmentLimit d d' limit h := by
    rw [setSegmentLimit_eq d (setSegmentLimit_ok h)] at h
    cases h
    obtain ⟨h1, h2, h3, h4⟩ := flags_congr (lowerHalf d.flagsLimit1 (limit.extractLsb' 16 4)).2
    simp only [attributes, isByteGranular, isDB, isLongCodeSegment, h1, h2, h3, h4]
    rfl
  setAccessByte _ _ := rfl
  setFlags d f := by
    obtain ⟨h0, -, -, -, h4⟩ := upperHalf d.flagsLimit1 f
    simp only [attributes, setFlags, segmentLimit, h0, h4]
    rfl

/-! ## Decoding -/

/-- The getters give back what the descriptor was made from. -/
structure DecodesTo (d : SegmentDescriptor) (bl : BaseLimit) (a : AccessByte) (f : Flags) :
    Prop where
  /-- `BaseAddress`. -/
  baseAddress : d.baseAddress.setWidth 64 = bl.base
  /-- `SegmentLimit`. -/
  segmentLimit : d.segmentLimit = bl.limit
  /-- `IsPresent`. -/
  isPresent : d.isPresent = a.present
  /-- `IsPrivilaged`. -/
  isPrivilaged : d.isPrivilaged = a.privilaged
  /-- `IsSystemSegment`. -/
  isSystemSegment : d.isSystemSegment = a.isSystemSegment
  /-- `Type`. -/
  type : d.type = a.type
  /-- `IsByteGranular`. -/
  isByteGranular : d.isByteGranular = f.isByteGranular
  /-- `IsDB`. -/
  isDB : d.isDB = f.db
  /-- `IsLongCodeSegment`. -/
  isLongCodeSegment : d.isLongCodeSegment = f.longModeSegment

/-- A 32-bit base, a 20-bit limit, and a 4-bit type. -/
structure InRange (bl : BaseLimit) (a : AccessByte) : Prop where
  /-- The base has 32 bits. -/
  base : bl.base < 2 ^ 32
  /-- The limit has 20 bits. -/
  limit : bl.limit ≤ 0xFFFFF
  /-- The type has 4 bits. -/
  type : a.type < 16

/-- A word that is small enough is its low field. -/
theorem setWidth_extract {n w : ℕ} {b : BitVec n} (h : b.toNat < 2 ^ w) :
    (b.extractLsb' 0 w).setWidth n = b := by
  refine BitVec.eq_of_toNat_eq ?_
  simp [Nat.mod_eq_of_lt h, Nat.mod_eq_of_lt b.isLt]

/-- The base fields hold the lower half of an address. -/
theorem baseAddress_setBaseAddress_eq (d : SegmentDescriptor) (base : BitVec 64) :
    (d.setBaseAddress base).baseAddress = base.extractLsb' 0 32 := by
  rw [baseAddress_eq, setBaseAddress_eq]
  have h1 := Bits.extract_append base 16 8 8
  simp only [h1]
  exact Bits.extract_append base 0 16 16

theorem baseAddress_setBaseAddress (d : SegmentDescriptor) {base : BitVec 64}
    (h : base < 2 ^ 32) : (d.setBaseAddress base).baseAddress.setWidth 64 = base := by
  rw [baseAddress_setBaseAddress_eq]
  exact setWidth_extract h

theorem segmentLimit_setSegmentLimit (d : SegmentDescriptor) {limit : BitVec 32}
    (h : limit ≤ 0xFFFFF) :
    ∃ d', d.setSegmentLimit limit = .ok d' ∧ d'.segmentLimit = limit := by
  refine ⟨_, setSegmentLimit_eq d h, ?_⟩
  have hlow := (lowerHalf d.flagsLimit1 (limit.extractLsb' 16 4)).1
  have happ := Bits.shiftLeft_or_setWidth (limit.extractLsb' 16 4) (limit.extractLsb' 0 16) 32
  rw [Bits.extract_append limit 0 16 4] at happ
  have hlt : limit.toNat < 2 ^ 20 := Nat.lt_of_le_of_lt h (by decide)
  rw [segmentLimit]
  simp only [hlow]
  rw [BitVec.setWidth_setWidth (by decide), happ]
  exact setWidth_extract hlt

/-- The access byte is read back, except for the privilege level. -/
theorem accessBuffer_decodes (a : AccessByte) (h : a.type < 16) :
    (accessBuffer a &&& 0x80#8 != 0) = a.present ∧
      (!(accessBuffer a &&& 0x10#8 != 0)) = a.isSystemSegment ∧
      accessBuffer a &&& 0xF#8 = a.type := by
  obtain ⟨p, v, s, t⟩ := a
  obtain ⟨t, rfl⟩ : ∃ u : BitVec 4, t = u.setWidth 8 :=
    ⟨t.extractLsb' 0 4, (setWidth_extract h).symm⟩
  clear h
  revert p v s t
  decide +kernel

/-- **`IsPrivilaged` answers `true` for every descriptor.** -/
theorem isPrivilaged_eq_true (d : SegmentDescriptor) : d.isPrivilaged = true := by
  have h : ∀ x : BitVec 8, ((x &&& 0x70#8) >>> 8 == 0) = true := by decide +kernel
  exact h d.accessbyte

/-- What is built decodes to what it was built from, the privilege aside. -/
theorem new_decodesTo (d : SegmentDescriptor) (bl : BaseLimit) (a : AccessByte) (f : Flags)
    (h : InRange bl a) : ∃ d', d.new bl a f = .ok d' ∧
      (a.privilaged = true → d'.DecodesTo bl a f) := by
  obtain ⟨d₁, hd₁, hlimit⟩ := segmentLimit_setSegmentLimit (d.setBaseAddress bl.base) h.limit
  refine ⟨(d₁.setAccessByte a).setFlags f, ?_, fun hp ↦ ?_⟩
  · rw [new, setBaseLimit, hd₁]
    rfl
  · obtain ⟨ha1, ha2, ha3⟩ := accessBuffer_decodes a h.type
    obtain ⟨hf0, hf1, hf2, hf3, -⟩ := upperHalf d₁.flagsLimit1 f
    have hframe := settersFramed.setSegmentLimit _ _ _ hd₁
    have hbase : d₁.baseAddress = (d.setBaseAddress bl.base).baseAddress :=
      congrArg Attributes.baseAddress hframe
    refine ⟨?_, ?_, ha1, ?_, ha2, ha3, hf1, hf2, hf3⟩
    · rw [show ((d₁.setAccessByte a).setFlags f).baseAddress = d₁.baseAddress from rfl, hbase]
      exact baseAddress_setBaseAddress d h.base
    · rw [← hlimit, segmentLimit, segmentLimit, ← hf0]
      rfl
    · rw [isPrivilaged_eq_true, hp]

/-- A descriptor built from the arguments decodes to them, and the setters keep to the attributes
they name. -/
def RoundTrips (d : SegmentDescriptor) (bl : BaseLimit) (a : AccessByte) (f : Flags) : Prop :=
  (∃ d', d.new bl a f = .ok d' ∧ d'.DecodesTo bl a f) ∧ SettersFramed

/-- **A descriptor decodes to what it was built from exactly when the segment is privileged.** -/
theorem roundTrips_iff_privilaged (d : SegmentDescriptor) (bl : BaseLimit) (a : AccessByte)
    (f : Flags) (h : InRange bl a) : d.RoundTrips bl a f ↔ a.privilaged = true := by
  constructor
  · rintro ⟨⟨d', -, hd'⟩, -⟩
    rw [← hd'.isPrivilaged, isPrivilaged_eq_true]
  · intro hp
    obtain ⟨d', hd', hdec⟩ := new_decodesTo d bl a f h
    exact ⟨⟨d', hd', hdec hp⟩, settersFramed⟩

/-- A flat data segment for user programs. -/
def userData : AccessByte := ⟨true, false, false, 2⟩

/-- Base 0, and the largest limit. -/
def flat : BaseLimit := ⟨0, 0xFFFFF⟩

theorem roundTrips_iff_privilaged_userData :
    RoundTrips ⟨0, 0, 0, 0, 0, 0⟩ flat userData ⟨false, true, false, false⟩ ↔
      userData.privilaged = true :=
  roundTrips_iff_privilaged _ flat userData _ ⟨by decide, by decide, by decide⟩

/-- **A segment of privilege level 3 is reported as privileged.** -/
theorem not_roundTrips_userData : ¬∀ (d : SegmentDescriptor) (bl : BaseLimit) (a : AccessByte)
    (f : Flags), InRange bl a → d.RoundTrips bl a f := by
  intro h
  obtain ⟨⟨d', -, hd'⟩, -⟩ := h ⟨0, 0, 0, 0, 0, 0⟩ flat userData ⟨false, true, false, false⟩
    ⟨by decide, by decide, by decide⟩
  have hp := hd'.isPrivilaged
  rw [isPrivilaged_eq_true] at hp
  exact absurd hp (by decide)

end SegmentDescriptor

end X8664
