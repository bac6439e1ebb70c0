import Chisaka.Drivers.Ahci.Structs

/-!
# The attributes of a command header

A `CommandHeader` packs eight of its attributes into two bytes.  Every attribute has a getter and a
setter, which are those of the class, masks and shifts as they stand there.  `attributes` is what
the getters report, and a `Setting` is a call of a setter.

A setter should change the attribute that it names, and no other (`SetsOnly`).  `Prefetchable` and
`Write` are set in one byte and read from the other, and the port multiplier is shifted out of its
byte, both ways; `setsOnly_iff` says when a setter is right all the same.

The entry for a buffer has three attributes, which are fixed when it is made.  It reports that it
interrupts whether or not it was made so (`decodes_iff`).
-/

set_option autoImplicit false

namespace Chisaka.Ahci

namespace CommandHeader

/-! ## Getters and setters -/

/-- `MASK_C`. -/
def maskC : BitVec 8 := 0x04

/-- `MASK_B`. -/
def maskB : BitVec 8 := 0x02

/-- `MASK_R`. -/
def maskR : BitVec 8 := 0x01

/-- `MASK_P`. -/
def maskP : BitVec 8 := 0x80

/-- `MASK_W`. -/
def maskW : BitVec 8 := 0x40

/-- `MASK_A`. -/
def maskA : BitVec 8 := 0x20

/-- `MASK_CFL`. -/
def maskCfl : BitVec 8 := 0x1F

/-- What the setters of flags do to a byte. -/
def setFlag (mask : BitVec 8) (b : Bool) (byte : BitVec 8) : BitVec 8 :=
  if b then byte ||| mask else byte &&& ~~~mask

/-- `SetPrdtl`. -/
def setPrdtl (newPrdtl : BitVec 16) (h : CommandHeader) : CommandHeader :=
  { h with prdtl := newPrdtl }

/-- `GetPortMultiplier`.  The mask is for a word of which this is the upper half. -/
def getPortMultiplier (h : CommandHeader) : BitVec 8 :=
  (h.pmpCBR.setWidth 32 &&& 0xFFFF0000#32).setWidth 8

/-- `SetPortMultiplier`. -/
def setPortMultiplier (newPmp : BitVec 8) (h : CommandHeader) : CommandHeader :=
  { h with pmpCBR := (h.pmpCBR.setWidth 32 ||| newPmp.setWidth 32 <<< 8).setWidth 8 }

/-- `C`. -/
def c (h : CommandHeader) : Bool := h.pmpCBR &&& 0x4#8 != 0

/-- `SetC`. -/
def setC (b : Bool) (h : CommandHeader) : CommandHeader :=
  { h with pmpCBR := setFlag maskC b h.pmpCBR }

/-- `Bist`. -/
def bist (h : CommandHeader) : Bool := h.pmpCBR &&& maskB != 0

/-- `SetBist`. -/
def setBist (b : Bool) (h : CommandHeader) : CommandHeader :=
  { h with pmpCBR := setFlag maskB b h.pmpCBR }

/-- `Reset`. -/
def reset (h : CommandHeader) : Bool := h.pmpCBR &&& maskR != 0

/-- `SetReset`. -/
def setReset (b : Bool) (h : CommandHeader) : CommandHeader :=
  { h with pmpCBR := setFlag maskR b h.pmpCBR }

/-- `Prefetchable`: it looks at the byte of the port multiplier. -/
def prefetchable (h : CommandHeader) : Bool := h.pmpCBR &&& maskP != 0

/-- `SetPrefetchable`. -/
def setPrefetchable (b : Bool) (h : CommandHeader) : CommandHeader :=
  { h with pWACfl := setFlag maskP b h.pWACfl }

/-- `Write`: it looks at the byte of the port multiplier. -/
def write (h : CommandHeader) : Bool := h.pmpCBR &&& maskW != 0

/-- `SetWrite`. -/
def setWrite (b : Bool) (h : CommandHeader) : CommandHeader :=
  { h with pWACfl := setFlag maskW b h.pWACfl }

/-- `Atapi`. -/
def atapi (h : CommandHeader) : Bool := h.pWACfl &&& maskA != 0

/-- `SetAtapi`. -/
def setAtapi (b : Bool) (h : CommandHeader) : CommandHeader :=
  { h with pWACfl := setFlag maskA b h.pWACfl }

/-- `SetCfl`. -/
def setCfl (val : BitVec 8) (h : CommandHeader) : Exec CommandHeader := do
  kassert (val ≤ 0x10)
  return { h with pWACfl := h.pWACfl &&& ~~~maskCfl ||| val }

/-- `SetPrdbc`. -/
def setPrdbc (val : BitVec 32) (h : CommandHeader) : CommandHeader := { h with prdbc := val }

/-- `SetCommandTableBase`. -/
def setCommandTableBase (addr : BitVec 64) (h : CommandHeader) : CommandHeader :=
  { h with
    ctbau := (addr >>> 32).setWidth 32
    ctba := (addr &&& 0xFFFFFFFF#64).setWidth 32 }

/-! ## What the setters should do -/

/-- What the getters report. -/
@[ext] structure Attributes where
  /-- `GetPrdtl`. -/
  prdtl : BitVec 16
  /-- `GetPortMultiplier`. -/
  portMultiplier : BitVec 8
  /-- `C`. -/
  c : Bool
  /-- `Bist`. -/
  bist : Bool
  /-- `Reset`. -/
  reset : Bool
  /-- `Prefetchable`. -/
  prefetchable : Bool
  /-- `Write`. -/
  write : Bool
  /-- `Atapi`. -/
  atapi : Bool
  /-- `Cfl`. -/
  cfl : BitVec 8
  /-- `Prdbc`. -/
  prdbc : BitVec 32
  /-- `CommandTableBase`. -/
  commandTableBase : BitVec 64

/-- The attributes of a header. -/
def attributes (h : CommandHeader) : Attributes where
  prdtl := h.prdtl
  portMultiplier := h.getPortMultiplier
  c := h.c
  bist := h.bist
  reset := h.reset
  prefetchable := h.prefetchable
  write := h.write
  atapi := h.atapi
  cfl := h.cfl
  prdbc := h.prdbc
  commandTableBase := h.commandTableBase

/-- A call of a setter. -/
inductive Setting
  | prdtl (v : BitVec 16)
  | portMultiplier (v : BitVec 8)
  | c (b : Bool)
  | bist (b : Bool)
  | reset (b : Bool)
  | prefetchable (b : Bool)
  | write (b : Bool)
  | atapi (b : Bool)
  | cfl (v : BitVec 8)
  | prdbc (v : BitVec 32)
  | commandTableBase (v : BitVec 64)

namespace Setting

/-- The setter. -/
def apply (h : CommandHeader) : Setting → Exec CommandHeader
  | prdtl v => return h.setPrdtl v
  | portMultiplier v => return h.setPortMultiplier v
  | c b => return h.setC b
  | bist b => return h.setBist b
  | reset b => return h.setReset b
  | prefetchable b => return h.setPrefetchable b
  | write b => return h.setWrite b
  | atapi b => return h.setAtapi b
  | cfl v => h.setCfl v
  | prdbc v => return h.setPrdbc v
  | commandTableBase v => return h.setCommandTableBase v

/-- What it should do to the attributes. -/
def change (a : Attributes) : Setting → Attributes
  | prdtl v => { a with prdtl := v }
  | portMultiplier v => { a with portMultiplier := v }
  | c b => { a with c := b }
  | bist b => { a with bist := b }
  | reset b => { a with reset := b }
  | prefetchable b => { a with prefetchable := b }
  | write b => { a with write := b }
  | atapi b => { a with atapi := b }
  | cfl v => { a with cfl := v }
  | prdbc v => { a with prdbc := v }
  | commandTableBase v => { a with commandTableBase := v }

end Setting

/-- The setter returns, the getter of its attribute then reports the value that was set, and all
other getters report what they did before. -/
def SetsOnly (h : CommandHeader) (s : Setting) : Prop :=
  ∃ h', s.apply h = .ok h' ∧ h'.attributes = s.change h.attributes

/-- A setting that does its work: the port multiplier is to be 0, `Prefetchable` and `Write` are to
be what two bits next to the port multiplier are already, or the frame is not too long. -/
def Setting.Sound (h : CommandHeader) : Setting → Prop
  | .portMultiplier v => v = 0
  | .prefetchable b => h.pmpCBR.getLsbD 7 = b
  | .write b => h.pmpCBR.getLsbD 6 = b
  | .cfl v => v ≤ 0x10
  | _ => True

/-! ## What the setters do -/

variable {mask m byte : BitVec 8} {b : Bool} {h : CommandHeader}

/-- A flag that was set is reported as it was set. -/
theorem setFlag_self (hm : mask ≠ 0) : (setFlag mask b byte &&& mask != 0) = b := by
  cases b with
  | false => rw [setFlag, if_neg Bool.false_ne_true, Bits.and_not_and_self, bne_self_eq_false]
  | true => rw [setFlag, if_pos rfl, Bits.or_and_self, bne_iff_ne.mpr hm]

/-- Other bits of the byte stay. -/
theorem setFlag_and (hm : mask &&& m = 0) : setFlag mask b byte &&& m = byte &&& m := by
  cases b with
  | false => exact Bits.and_not_and hm
  | true => exact Bits.or_and hm

/-- The port multiplier is always reported to be 0. -/
theorem getPortMultiplier_eq (h : CommandHeader) : h.getPortMultiplier = 0 := by
  rw [getPortMultiplier, BitVec.setWidth_and, BitVec.setWidth_setWidth_of_le _ (by decide)]
  exact BitVec.and_zero

/-- Setting it changes nothing. -/
theorem setPortMultiplier_eq (v : BitVec 8) (h : CommandHeader) : h.setPortMultiplier v = h := by
  have hbyte : (h.pmpCBR.setWidth 32 ||| v.setWidth 32 <<< 8).setWidth 8 = h.pmpCBR := by
    rw [BitVec.or_comm, Bits.shiftLeft_or_setWidth, BitVec.setWidth_setWidth_of_le _ (by decide),
      BitVec.setWidth_append_eq_right]
  rw [setPortMultiplier, hbyte]

/-- Other flags of the byte are reported as before. -/
theorem setFlag_other (hm : mask &&& m = 0) :
    (setFlag mask b byte &&& m != 0) = (byte &&& m != 0) := by
  rw [setFlag_and hm]

theorem getPortMultiplier_congr (h h' : CommandHeader) :
    h'.getPortMultiplier = h.getPortMultiplier := by
  rw [getPortMultiplier_eq, getPortMultiplier_eq]

/-! ### The byte of the port multiplier -/

theorem attributes_setC (b : Bool) (h : CommandHeader) :
    (h.setC b).attributes = { h.attributes with c := b } :=
  Attributes.ext rfl (getPortMultiplier_congr _ _) (setFlag_self (by decide))
    (setFlag_other (by decide)) (setFlag_other (by decide)) (setFlag_other (by decide))
    (setFlag_other (by decide)) rfl rfl rfl rfl

theorem attributes_setBist (b : Bool) (h : CommandHeader) :
    (h.setBist b).attributes = { h.attributes with bist := b } :=
  Attributes.ext rfl (getPortMultiplier_congr _ _) (setFlag_other (by decide))
    (setFlag_self (by decide)) (setFlag_other (by decide)) (setFlag_other (by decide))
    (setFlag_other (by decide)) rfl rfl rfl rfl

theorem attributes_setReset (b : Bool) (h : CommandHeader) :
    (h.setReset b).attributes = { h.attributes with reset := b } :=
  Attributes.ext rfl (getPortMultiplier_congr _ _) (setFlag_other (by decide))
    (setFlag_other (by decide)) (setFlag_self (by decide)) (setFlag_other (by decide))
    (setFlag_other (by decide)) rfl rfl rfl rfl

/-! ### The other byte -/

/-- **`SetPrefetchable` changes nothing that is reported.** -/
theorem attributes_setPrefetchable (b : Bool) (h : CommandHeader) :
    (h.setPrefetchable b).attributes = h.attributes :=
  Attributes.ext rfl rfl rfl rfl rfl rfl rfl (setFlag_other (by decide)) (setFlag_and (by decide))
    rfl rfl

/-- **Nor does `SetWrite`.** -/
theorem attributes_setWrite (b : Bool) (h : CommandHeader) :
    (h.setWrite b).attributes = h.attributes :=
  Attributes.ext rfl rfl rfl rfl rfl rfl rfl (setFlag_other (by decide)) (setFlag_and (by decide))
    rfl rfl

theorem attributes_setAtapi (b : Bool) (h : CommandHeader) :
    (h.setAtapi b).attributes = { h.attributes with atapi := b } :=
  Attributes.ext rfl rfl rfl rfl rfl rfl rfl (setFlag_self (by decide)) (setFlag_and (by decide))
    rfl rfl

/-- A frame that is not too long fits into its field. -/
theorem attributes_setCfl {v : BitVec 8} (hv : v ≤ 0x10) (h : CommandHeader) :
    ∃ h', h.setCfl v = .ok h' ∧ h'.attributes = { h.attributes with cfl := v } := by
  have hfit : ∀ v : BitVec 8, v ≤ 0x10 → v &&& maskCfl = v ∧ v &&& maskA = 0 := by decide
  obtain ⟨hcfl, hatapi⟩ := hfit v hv
  refine ⟨{ h with pWACfl := h.pWACfl &&& ~~~maskCfl ||| v }, ?_, ?_⟩
  · rw [setCfl, kassert, Exec.check_of hv]
    rfl
  have hA : (h.pWACfl &&& ~~~maskCfl ||| v) &&& maskA = h.pWACfl &&& maskA := by
    rw [Bits.or_and hatapi, Bits.and_not_and (by decide)]
  have hCfl : (h.pWACfl &&& ~~~maskCfl ||| v) &&& maskCfl = v := by
    rw [BitVec.and_or_distrib_right, Bits.and_not_and_self, hcfl]
    exact BitVec.zero_or
  exact Attributes.ext rfl rfl rfl rfl rfl rfl rfl (congrArg (· != 0) hA) hCfl rfl rfl

/-- A flag is a bit. -/
theorem flag_eq_getLsbD (byte : BitVec 8) (i : ℕ) :
    (byte &&& BitVec.twoPow 8 i != 0) = byte.getLsbD i := by
  rw [Bool.eq_iff_iff, bne_iff_ne, Bits.and_twoPow_ne_zero]

/-- **A setter does what it should exactly when the setting is sound.** -/
theorem setsOnly_iff (h : CommandHeader) (s : Setting) : SetsOnly h s ↔ s.Sound h := by
  have hreturn : ∀ h' : CommandHeader, s.apply h = .ok h' →
      (SetsOnly h s ↔ h'.attributes = s.change h.attributes) := by
    intro h' hh'
    constructor
    · rintro ⟨h'', hh'', ha⟩
      obtain rfl := Except.ok.inj (hh'.symm.trans hh'')
      exact ha
    · exact fun ha ↦ ⟨h', hh', ha⟩
  cases s with
  | prdtl v => exact iff_of_true ⟨_, rfl, rfl⟩ trivial
  | portMultiplier v =>
    rw [hreturn _ rfl, setPortMultiplier_eq]
    refine ⟨fun ha ↦ ?_, fun hv ↦ ?_⟩
    · have hpm := congrArg Attributes.portMultiplier ha
      exact hpm.symm.trans (getPortMultiplier_eq h)
    · have hv : v = 0 := hv
      rw [hv]
      exact Attributes.ext rfl (getPortMultiplier_eq h) rfl rfl rfl rfl rfl rfl rfl rfl rfl
  | c b => exact iff_of_true ⟨_, rfl, attributes_setC b h⟩ trivial
  | bist b => exact iff_of_true ⟨_, rfl, attributes_setBist b h⟩ trivial
  | reset b => exact iff_of_true ⟨_, rfl, attributes_setReset b h⟩ trivial
  | prefetchable b =>
    have hbit : h.prefetchable = h.pmpCBR.getLsbD 7 := flag_eq_getLsbD h.pmpCBR 7
    rw [hreturn _ rfl, attributes_setPrefetchable]
    refine ⟨fun ha ↦ hbit.symm.trans (congrArg Attributes.prefetchable ha), fun hb ↦ ?_⟩
    exact Attributes.ext rfl rfl rfl rfl rfl (hbit.trans hb) rfl rfl rfl rfl rfl
  | write b =>
    have hbit : h.write = h.pmpCBR.getLsbD 6 := flag_eq_getLsbD h.pmpCBR 6
    rw [hreturn _ rfl, attributes_setWrite]
    refine ⟨fun ha ↦ hbit.symm.trans (congrArg Attributes.write ha), fun hb ↦ ?_⟩
    exact Attributes.ext rfl rfl rfl rfl rfl rfl (hbit.trans hb) rfl rfl rfl rfl
  | atapi b => exact iff_of_true ⟨_, rfl, attributes_setAtapi b h⟩ trivial
  | cfl v =>
    refine ⟨?_, fun hv ↦ attributes_setCfl hv h⟩
    rintro ⟨h', hh', -⟩
    have hh' : h.setCfl v = .ok h' := hh'
    rw [setCfl, kassert, Exec.check_bind_eq_ok] at hh'
    exact hh'.1
  | prdbc v => exact iff_of_true ⟨_, rfl, rfl⟩ trivial
  | commandTableBase v =>
    refine iff_of_true ⟨_, rfl, ?_⟩ trivial
    exact Attributes.ext rfl rfl rfl rfl rfl rfl rfl rfl rfl rfl (Bits.halves_eq v)

end CommandHeader

/-! ## The entry of the buffer -/

namespace PrdtEntry

/-- `InterruptOnCompletion`. -/
def interruptOnCompletion (e : PrdtEntry) : Bool := e.iDbc >>> 31 != 0

/-- An entry is made, and it reports what it was made from. -/
def Decodes (dataBase : BitVec 64) (interrupt : Bool) (dataSize : BitVec 32) : Prop :=
  ∃ e, PrdtEntry.new dataBase interrupt dataSize = .ok e ∧ e.dataBaseAddress = dataBase ∧
    e.interruptOnCompletion = interrupt ∧ e.dataByteCount = dataSize

variable {dataBase : BitVec 64} {interrupt : Bool} {dataSize : BitVec 32}

/-- The word with the size, whatever `interrupt` is. -/
theorem new_eq_ok (ha : dataBase &&& 1#64 = 0) (hodd : dataSize &&& 1#32 ≠ 0) :
    PrdtEntry.new dataBase interrupt dataSize = .ok {
      dba := (dataBase &&& 0xFFFFFFFF#64).setWidth 32
      dbau := (dataBase >>> 32).setWidth 32
      resvered := 0
      iDbc := dataSize &&& 0x3FFFFF#32 ||| 0x80000000#32 } := by
  rw [PrdtEntry.new, kassert, Exec.check_of ha, kassert, Exec.check_of hodd]
  cases interrupt with
  | false => rfl
  | true =>
    have htwice : dataSize &&& 0x3FFFFF#32 ||| 0x80000000#32 ||| 0x80000000#32
        = dataSize &&& 0x3FFFFF#32 ||| 0x80000000#32 := by
      rw [BitVec.or_assoc, BitVec.or_self]
    simp only [Exec.ok_bind, if_pos, htwice, Exec.pure_eq]

/-- **An entry reports the address and the size that it was made from**, and that it interrupts. -/
theorem new_spec (ha : dataBase &&& 1#64 = 0) (hodd : dataSize &&& 1#32 ≠ 0)
    (hlt : dataSize.toNat < 2 ^ 22) : ∃ e, PrdtEntry.new dataBase interrupt dataSize = .ok e ∧
      e.dataBaseAddress = dataBase ∧ e.interruptOnCompletion = true ∧
      e.dataByteCount = dataSize := by
  refine ⟨_, new_eq_ok ha hodd, Bits.halves_eq dataBase, ?_, ?_⟩
  · rw [interruptOnCompletion, bne_iff_ne, BitVec.ushiftRight_or_distrib]
    exact fun h ↦ absurd (BitVec.or_eq_zero_iff.mp h).2 (by decide)
  · have hmask : dataSize &&& 0x3FFFFF#32 = dataSize := by
      refine BitVec.eq_of_toNat_eq ?_
      rw [BitVec.toNat_and, show (0x3FFFFF#32).toNat = 2 ^ 22 - 1 from rfl,
        Nat.and_two_pow_sub_one_eq_mod, Nat.mod_eq_of_lt hlt]
    show (dataSize &&& 0x3FFFFF#32 ||| 0x80000000#32) &&& 0x3FFFFF#32 = dataSize
    rw [hmask, Bits.or_and (by decide), hmask]

/-- So it decodes to what it was made from if it was to interrupt. -/
theorem decodes_iff (ha : dataBase &&& 1#64 = 0) (hodd : dataSize &&& 1#32 ≠ 0)
    (hlt : dataSize.toNat < 2 ^ 22) :
    Decodes dataBase interrupt dataSize ↔ interrupt = true := by
  obtain ⟨e, he, haddr, hint, hsize⟩ := new_spec ha hodd hlt
  constructor
  · rintro ⟨e', he', -, hint', -⟩
    obtain rfl := Except.ok.inj (he.symm.trans he')
    exact hint'.symm.trans hint
  · rintro rfl
    exact ⟨e, he, haddr, hint, hsize⟩

end PrdtEntry

/-! ## Both -/

/-- **A setting changes its attribute and no other exactly when it is sound, and an entry decodes to
what it was made from exactly when it was to interrupt.** -/
theorem setsOnly_and_decodes_iff (h : CommandHeader) (s : CommandHeader.Setting)
    (dataBase : BitVec 64) (interrupt : Bool) (dataSize : BitVec 32)
    (ha : dataBase &&& 1#64 = 0) (hodd : dataSize &&& 1#32 ≠ 0) (hlt : dataSize.toNat < 2 ^ 22) :
    (CommandHeader.SetsOnly h s ↔ s.Sound h) ∧
      (PrdtEntry.Decodes dataBase interrupt dataSize ↔ interrupt = true) :=
  ⟨CommandHeader.setsOnly_iff h s, PrdtEntry.decodes_iff ha hodd hlt⟩

theorem setsOnly_and_decodes_iff_empty :
    (CommandHeader.SetsOnly ⟨0, 0, 0, 0, 0, 0⟩ (.write true) ↔
        CommandHeader.Setting.Sound ⟨0, 0, 0, 0, 0, 0⟩ (.write true)) ∧
      (PrdtEntry.Decodes 0x3000 false 511 ↔ false = true) :=
  setsOnly_and_decodes_iff ⟨0, 0, 0, 0, 0, 0⟩ (.write true) 0x3000 false 511 (by decide)
    (by decide) (by decide)

/-- **`SetWrite(true)` on an empty header** leaves `Write()` false. -/
theorem not_setsOnly_write : ¬∀ (h : CommandHeader) (s : CommandHeader.Setting),
    (∀ v, s = .portMultiplier v → v < 16) → (∀ v, s = .cfl v → v ≤ 0x10) →
      CommandHeader.SetsOnly h s := by
  intro h
  have hset := h ⟨0, 0, 0, 0, 0, 0⟩ (.write true) (fun v hv ↦ by cases hv) fun v hv ↦ by cases hv
  have hsound : (0 : BitVec 8).getLsbD 6 = true := (CommandHeader.setsOnly_iff _ _).mp hset
  exact absurd hsound (by decide)

end Chisaka.Ahci
