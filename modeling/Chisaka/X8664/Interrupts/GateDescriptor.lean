import Mathlib.Data.BitVec
import Chisaka.Lib.Bits
import Chisaka.Types

/-!
# Gate descriptors

An entry of the interrupt descriptor table scatters the address of its handler over three fields,
and packs the presence, the privilege level and the type of the gate into one byte.

There are two constructors with arguments.  One assigns the access byte, the other one turns what
the memory held before into it, by three setters in a row.  Both make the same `gate`, which decodes
to the arguments (`ofOffset_eq`, `ofAttributes_eq`, `gate_decodes`); and a setter changes what it
names and nothing else (`settersFramed`).
-/

set_option autoImplicit false

namespace X8664

open Chisaka

/-- `InterruptAttributes::GateAttributes`. -/
structure GateAttributes where
  /-- `offset`. -/
  offset : BitVec 64
  /-- `segmentSelector`. -/
  segmentSelector : BitVec 16
  /-- `isPresent`. -/
  isPresent : Bool
  deriving DecidableEq

/-- `CALL_GATE_TYPE`. -/
def callGateType : BitVec 8 := 0b1110

/-- `GateDescriptor`: its members, in the order of its 16 bytes. -/
@[ext] structure GateDescriptor where
  /-- `m_offset0`. -/
  offset0 : BitVec 16
  /-- `m_segmentSelector`. -/
  segmentSelector : BitVec 16
  /-- `m_zeros_ist`. -/
  zerosIst : BitVec 8
  /-- `m_accessByte`: type, dpl, p. -/
  accessByte : BitVec 8
  /-- `m_offset1`. -/
  offset1 : BitVec 16
  /-- `m_offset2`. -/
  offset2 : BitVec 32
  /-- `m_reserved`. -/
  reserved : BitVec 32
  deriving DecidableEq

namespace GateDescriptor

/-! ## Getters -/

/-- `Offset`. -/
def offset (g : GateDescriptor) : BitVec 64 :=
  let addr := g.offset2.setWidth 64
  let addr := addr <<< 16
  let addr := addr ||| g.offset1.setWidth 64
  let addr := addr <<< 16
  addr ||| g.offset0.setWidth 64

/-- `Ist`. -/
def ist (g : GateDescriptor) : BitVec 8 := g.zerosIst &&& 0x0F#8

/-- `Type`. -/
def type (g : GateDescriptor) : BitVec 8 := g.accessByte &&& 0xF#8

/-- `IsPivilaged`. -/
def isPivilaged (g : GateDescriptor) : Bool :=
  if g.accessByte &&& 0b0110#8 <<< 4 ≠ 0 then false else true

/-- `IsPresent`. -/
def isPresent (g : GateDescriptor) : Bool := g.accessByte &&& 0x80#8 != 0

/-! ## Setters -/

/-- `SetOffset`, of an address or of a pointer. -/
def setOffset (g : GateDescriptor) (offset : BitVec 64) : GateDescriptor :=
  { g with
    offset0 := (offset &&& 0xFFFF#64).setWidth 16
    offset1 := ((offset &&& 0xFFFF#64 <<< 0x10) >>> 0x10).setWidth 16
    offset2 := ((offset &&& 0xFFFFFFFF#64 <<< 0x20) >>> 0x20).setWidth 32 }

/-- `SetSegmentSelector`. -/
def setSegmentSelector (g : GateDescriptor) (segmentSelector : BitVec 16) : GateDescriptor :=
  { g with segmentSelector := segmentSelector }

/-- `SetSegmentType`. -/
def setSegmentType (g : GateDescriptor) : GateDescriptor :=
  { g with accessByte := g.accessByte &&& 0xF0#8 ||| callGateType }

/-- `SetPrivilageLevel`. -/
def setPrivilageLevel (g : GateDescriptor) : GateDescriptor :=
  { g with accessByte := g.accessByte &&& 0x8F#8 }

/-- `SetPresent`. -/
def setPresent (g : GateDescriptor) : GateDescriptor :=
  { g with accessByte := g.accessByte ||| 0x80#8 }

/-- `ClearPresent`. -/
def clearPresent (g : GateDescriptor) : GateDescriptor :=
  { g with accessByte := g.accessByte &&& 0x7F#8 }

/-! ## Constructors

`g` is what the bytes held before. -/

/-- `GateDescriptor()`. -/
def new (g : GateDescriptor) : Exec GateDescriptor := do
  let g := g.setSegmentType
  kassert (g.type = callGateType)
  return g

/-- `GateDescriptor(offset, segmentSelector, present)`. -/
def ofOffset (g : GateDescriptor) (offset : BitVec 64) (segmentSelector : BitVec 16)
    (present : Bool) : GateDescriptor :=
  let g := { g with zerosIst := 0, reserved := 0 }
  let g := { g with segmentSelector := segmentSelector, accessByte := 0b0000000#8 ||| callGateType }
  let g := g.setOffset offset
  let g := g.setSegmentType
  if present then g.setPresent else g.clearPresent

/-- `GateDescriptor(args)`. -/
def ofAttributes (g : GateDescriptor) (args : GateAttributes) : GateDescriptor :=
  let g := { g with zerosIst := 0, reserved := 0 }
  let g := g.setOffset args.offset
  let g := g.setSegmentSelector args.segmentSelector
  let g := g.setSegmentType
  let g := g.setPrivilageLevel
  if args.isPresent then g.setPresent else g.clearPresent

/-! ## What they should do -/

/-- What the getters report, and the bits that no getter reports. -/
structure Attributes where
  /-- `Offset`. -/
  offset : BitVec 64
  /-- `SegmentSelector`. -/
  segmentSelector : BitVec 16
  /-- `IsPresent`. -/
  isPresent : Bool
  /-- `Type`. -/
  type : BitVec 8
  /-- `IsPivilaged`. -/
  isPivilaged : Bool
  /-- `Ist`. -/
  ist : BitVec 8
  /-- The privilege level, of which `IsPivilaged` says whether it is 0, and the bit below. -/
  level : BitVec 8
  /-- The byte of `Ist`. -/
  zerosIst : BitVec 8
  /-- `m_reserved`. -/
  reserved : BitVec 32

/-- The attributes of a gate. -/
def attributes (g : GateDescriptor) : Attributes where
  offset := g.offset
  segmentSelector := g.segmentSelector
  isPresent := g.isPresent
  type := g.type
  isPivilaged := g.isPivilaged
  ist := g.ist
  level := g.accessByte &&& 0x70#8
  zerosIst := g.zerosIst
  reserved := g.reserved

/-- **A gate is the one that was asked for**: an interrupt gate of ring 0 without a stack of its
own. -/
structure DecodesTo (g : GateDescriptor) (offset : BitVec 64) (segmentSelector : BitVec 16)
    (present : Bool) : Prop where
  /-- `Offset`. -/
  offset : g.offset = offset
  /-- `SegmentSelector`. -/
  segmentSelector : g.segmentSelector = segmentSelector
  /-- `IsPresent`. -/
  isPresent : g.isPresent = present
  /-- `Type`: a 64-bit interrupt gate. -/
  type : g.type = 0xE
  /-- `IsPivilaged`. -/
  isPivilaged : g.isPivilaged = true
  /-- `Ist`. -/
  ist : g.ist = 0

/-- **A setter changes the attribute that it names, and no other.** -/
structure SettersFramed (g : GateDescriptor) : Prop where
  /-- `SetOffset`. -/
  setOffset : ∀ offset, (g.setOffset offset).attributes = { g.attributes with offset := offset }
  /-- `SetSegmentSelector`. -/
  setSegmentSelector : ∀ selector, (g.setSegmentSelector selector).attributes
    = { g.attributes with segmentSelector := selector }
  /-- `SetPresent`. -/
  setPresent : g.setPresent.attributes = { g.attributes with isPresent := true }
  /-- `ClearPresent`. -/
  clearPresent : g.clearPresent.attributes = { g.attributes with isPresent := false }

/-! ## What they do -/

variable {g : GateDescriptor}

/-- The offset is its three fields side by side. -/
theorem offset_eq (g : GateDescriptor) : g.offset = g.offset2 ++ g.offset1 ++ g.offset0 := by
  have h := Bits.shiftLeft_or_setWidth (g.offset2 ++ g.offset1) g.offset0 64
  rw [BitVec.setWidth_eq, ← Bits.shiftLeft_or_setWidth] at h
  exact h

theorem setOffset_eq (g : GateDescriptor) (a : BitVec 64) : g.setOffset a = { g with
    offset0 := a.extractLsb' 0 16
    offset1 := a.extractLsb' 16 16
    offset2 := a.extractLsb' 32 32 } := by
  have h0 := Bits.setWidth_and a 16 16
  have h1 := Bits.setWidth_and_shiftLeft_ushiftRight a 16 16 16
  have h2 := Bits.setWidth_and_shiftLeft_ushiftRight a 32 32 32
  rw [BitVec.setWidth_eq] at h0 h1 h2
  rw [← h0, ← h1, ← h2]
  rfl

/-- An address in three fields is read back whole. -/
theorem offset_of_fields {a : BitVec 64} (h0 : g.offset0 = a.extractLsb' 0 16)
    (h1 : g.offset1 = a.extractLsb' 16 16) (h2 : g.offset2 = a.extractLsb' 32 32) :
    g.offset = a := by
  rw [offset_eq, h0, h1, h2, Bits.extract_append a 16 16 32, Bits.extract_append a 0 16 48]
  exact BitVec.extractLsb'_eq_self

/-- The assertion of the constructor without arguments holds. -/
theorem new_eq (g : GateDescriptor) : g.new = .ok g.setSegmentType := by
  have hbyte : ∀ x : BitVec 8, (x &&& 0xF0#8 ||| callGateType) &&& 0xF#8 = callGateType := by
    decide
  have htype : g.setSegmentType.type = callGateType := hbyte g.accessByte
  rw [new, kassert, Exec.check_of htype]
  rfl

/-! ### The setters -/

/-- What `SetPresent` does to the access byte. -/
theorem setPresent_byte (x : BitVec 8) : ((x ||| 0x80#8) &&& 0x80#8 != 0) = true ∧
    (x ||| 0x80#8) &&& 0xF#8 = x &&& 0xF#8 ∧ (x ||| 0x80#8) &&& 0x70#8 = x &&& 0x70#8 ∧
      (x ||| 0x80#8) &&& 0b0110#8 <<< 4 = x &&& 0b0110#8 <<< 4 := by
  revert x
  decide

/-- What `ClearPresent` does to it. -/
theorem clearPresent_byte (x : BitVec 8) : (x &&& 0x7F#8 &&& 0x80#8 != 0) = false ∧
    x &&& 0x7F#8 &&& 0xF#8 = x &&& 0xF#8 ∧ x &&& 0x7F#8 &&& 0x70#8 = x &&& 0x70#8 ∧
      x &&& 0x7F#8 &&& 0b0110#8 <<< 4 = x &&& 0b0110#8 <<< 4 := by
  revert x
  decide

theorem settersFramed (g : GateDescriptor) : g.SettersFramed := by
  refine ⟨fun a ↦ ?_, fun _ ↦ rfl, ?_, ?_⟩
  · have ha : (g.setOffset a).offset = a := by
      rw [setOffset_eq]
      exact offset_of_fields rfl rfl rfl
    rw [attributes, ha]
    rfl
  · obtain ⟨hpresent, htype, hlevel, hring⟩ := setPresent_byte g.accessByte
    simp only [attributes, setPresent, isPresent, type, isPivilaged, hpresent, htype, hlevel, hring]
    rfl
  · obtain ⟨hpresent, htype, hlevel, hring⟩ := clearPresent_byte g.accessByte
    simp only [attributes, clearPresent, isPresent, type, isPivilaged, hpresent, htype, hlevel,
      hring]
    rfl

/-! ### The constructors -/

/-- The gate of a handler. -/
def gate (offset : BitVec 64) (segmentSelector : BitVec 16) (present : Bool) : GateDescriptor where
  offset0 := offset.extractLsb' 0 16
  segmentSelector := segmentSelector
  zerosIst := 0
  accessByte := if present then 0x8E else 0x0E
  offset1 := offset.extractLsb' 16 16
  offset2 := offset.extractLsb' 32 32
  reserved := 0

/-- The access byte that is assigned. -/
theorem ofOffset_eq (g : GateDescriptor) (offset : BitVec 64) (selector : BitVec 16)
    (present : Bool) : g.ofOffset offset selector present = gate offset selector present := by
  have hset : (0b0000000#8 ||| callGateType) &&& 0xF0#8 ||| callGateType ||| 0x80#8 = 0x8E := by
    decide
  have hclear : ((0b0000000#8 ||| callGateType) &&& 0xF0#8 ||| callGateType) &&& 0x7F#8 = 0x0E := by
    decide
  simp only [ofOffset, setOffset_eq, setSegmentType, setPresent, clearPresent, hset, hclear]
  cases present <;> rfl

/-- **The access byte that is turned into it**, whatever the memory held before. -/
theorem ofAttributes_eq (g : GateDescriptor) (args : GateAttributes) :
    g.ofAttributes args = gate args.offset args.segmentSelector args.isPresent := by
  have hset : ∀ x : BitVec 8,
      (x &&& 0xF0#8 ||| callGateType) &&& 0x8F#8 ||| 0x80#8 = 0x8E := by decide
  have hclear : ∀ x : BitVec 8,
      (x &&& 0xF0#8 ||| callGateType) &&& 0x8F#8 &&& 0x7F#8 = 0x0E := by decide
  obtain ⟨offset, selector, present⟩ := args
  simp only [ofAttributes, setOffset_eq, setSegmentSelector, setSegmentType, setPrivilageLevel,
    setPresent, clearPresent, hset, hclear]
  cases present <;> rfl

theorem gate_decodes (offset : BitVec 64) (selector : BitVec 16) (present : Bool) :
    (gate offset selector present).DecodesTo offset selector present := by
  have hbyte : ∀ b : Bool, ((if b then 0x8E#8 else 0x0E#8) &&& 0x80#8 != 0) = b ∧
      (if b then 0x8E#8 else 0x0E#8) &&& 0xF#8 = 0xE ∧
      (if (if b then 0x8E#8 else 0x0E#8) &&& 0b0110#8 <<< 4 ≠ 0 then false else true) = true := by
    decide
  obtain ⟨hpresent, htype, hring⟩ := hbyte present
  have hist : (gate offset selector present).ist = 0 := BitVec.zero_and
  exact ⟨offset_of_fields rfl rfl rfl, rfl, hpresent, htype, hring, hist⟩

/-- **Both constructors make the gate that was asked for**, over any memory, and the setters keep
what they do not name. -/
theorem gate_built_and_framed (g g' : GateDescriptor) (offset : BitVec 64) (selector : BitVec 16)
    (present : Bool) :
    g.ofOffset offset selector present = g'.ofAttributes ⟨offset, selector, present⟩ ∧
      (g.ofOffset offset selector present).DecodesTo offset selector present ∧
      g.SettersFramed := by
  rw [ofOffset_eq, ofAttributes_eq]
  exact ⟨rfl, gate_decodes offset selector present, g.settersFramed⟩

end GateDescriptor

end X8664
