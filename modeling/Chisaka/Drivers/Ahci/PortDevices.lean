import Mathlib.Tactic.Common
import Chisaka.Lib.Exec
import Chisaka.Lib.Bits

/-!
# The devices behind the ports

`InitPorts` finds the ports that are implemented, and `SetPortDevices` asks each of them whether a
device is behind it.  `HasDevice` answers from two registers of the port: the device must not be
busy, and there must be a link to it (`DET`), or the link must be asleep (`IPM`).

The mask for `IPM` is shifted where the register should be, as `>>` binds tighter than `&`, so that
the test for `IPM` is a test for `DET` too (`ipmTest_iff`).  `detects_iff` says for which values of
the registers the answer is right all the same.

A port is here what tells of a device, and the rest of it, and of the controller, is in `Initialise`
(`PortViews`).
-/

set_option autoImplicit false

namespace Chisaka.Ahci.PortDevices

/-! ## A port -/

/-- The registers of a port that tell whether there is a device. -/
structure PortStatus where
  /-- `tfd`. -/
  tfd : BitVec 32
  /-- `ssts`. -/
  ssts : BitVec 32
  deriving DecidableEq

/-- `AhciPort`, as far as devices go. -/
structure Port where
  /-- What `m_registers` points to, unless it is null. -/
  registers : Option PortStatus := none
  /-- `m_present`. -/
  present : Bool := false
  /-- `m_devicePresent`. -/
  devicePresent : Bool := false
  deriving DecidableEq

/-- `TFD_STS_STATUS_BSY`. -/
def tfdStsStatusBsy : BitVec 32 := 0x80

/-- `TFD_STS_STATUS_DRQ`. -/
def tfdStsStatusDrq : BitVec 32 := 0x08

/-- `SATA_STATUS_IPM`. -/
def sataStatusIpm : BitVec 32 := 0xF00

/-- `SATA_STATUS_DET`. -/
def sataStatusDet : BitVec 32 := 0x0F

/-- `ipmTest`.  As in the source, the shift is of the mask. -/
def ipmTest (ssts : BitVec 32) : Bool :=
  ssts &&& sataStatusIpm >>> 8 = 2 || ssts &&& sataStatusIpm >>> 8 = 6 ||
    ssts &&& sataStatusIpm >>> 8 = 8

/-- `HasDevice`. -/
def hasDevice (p : Port) : Exec Bool := do
  let r ← p.registers.elim (.error .nullDeref) .ok
  if r.tfd &&& tfdStsStatusBsy ≠ 0 then return false
  if r.tfd &&& tfdStsStatusDrq ≠ 0 then return false
  let sstsTest := r.ssts &&& sataStatusDet = 0x03 || ipmTest r.ssts
  return sstsTest

/-! ## The ports of the driver -/

/-- A loop over all ports, which replaces each of them. -/
def forPorts (f : ℕ → Port → Exec Port) (ports : ℕ → Port) : Exec (ℕ → Port) :=
  (List.range 32).foldlM (fun ports i ↦ do
    let p ← f i (ports i)
    return Function.update ports i p) ports

/-- What `InitPorts` does for a port, whose registers the hardware has in memory. -/
def initPort (piVal : BitVec 32) (hardware : ℕ → PortStatus) (i : ℕ) (p : Port) : Exec Port :=
  if piVal.getLsbD i then return { p with registers := some (hardware i), present := true }
  else return p

/-- `InitPorts`. -/
def initPorts (piVal : BitVec 32) (hardware : ℕ → PortStatus) : (ℕ → Port) → Exec (ℕ → Port) :=
  forPorts (initPort piVal hardware)

/-- What `SetPortDevices` does for a port. -/
def setPortDevice (p : Port) : Exec Port :=
  if p.present = true then do
    if ← hasDevice p then return { p with devicePresent := true } else return p
  else return p

/-- `SetPortDevices`. -/
def setPortDevices (enabled : Bool) (ports : ℕ → Port) : Exec (ℕ → Port) := do
  Exec.check (enabled = true)
  forPorts (fun _ ↦ setPortDevice) ports

/-- What `Initialise` does for the devices, with the ports as the constructor has made them. -/
def initDevices (enabled : Bool) (piVal : BitVec 32) (hardware : ℕ → PortStatus) :
    Exec (ℕ → Port) := do
  let ports ← initPorts piVal hardware fun _ ↦ {}
  setPortDevices enabled ports

/-! ## What they should do -/

namespace PortStatus

/-- The field `DET` of `ssts`. -/
def det (r : PortStatus) : BitVec 4 := r.ssts.extractLsb' 0 4

/-- The field `IPM` of `ssts`. -/
def ipm (r : PortStatus) : BitVec 4 := r.ssts.extractLsb' 8 4

/-- `BSY` or `DRQ`. -/
def Busy (r : PortStatus) : Prop := r.tfd.getLsbD 7 = true ∨ r.tfd.getLsbD 3 = true

end PortStatus

/-- The values of `IPM` for a link that is asleep. -/
def Asleep (x : BitVec 4) : Prop := x = 2 ∨ x = 6 ∨ x = 8

instance (x : BitVec 4) : Decidable (Asleep x) := inferInstanceAs (Decidable (_ ∨ _))

/-- There is a device behind a port with these registers. -/
def PortStatus.HasDevice (r : PortStatus) : Prop := ¬r.Busy ∧ (r.det = 3 ∨ Asleep r.ipm)

/-- `DevicePresent` of port `i` says whether there is a device behind it. -/
def Detects (enabled : Bool) (piVal : BitVec 32) (hardware : ℕ → PortStatus) (i : ℕ) : Prop :=
  ∃ ports, initDevices enabled piVal hardware = .ok ports ∧
    ((ports i).devicePresent = true ↔ piVal.getLsbD i = true ∧ (hardware i).HasDevice)

/-! ## What they do -/

variable {piVal : BitVec 32} {hardware : ℕ → PortStatus} {i : ℕ} {p : Port} {r : PortStatus}

/-- The low four bits of a register, as a number. -/
theorem and_eq_iff (b : BitVec 32) (k : ℕ) (hk : k < 16) :
    b &&& 0x0F#32 = BitVec.ofNat 32 k ↔ b.extractLsb' 0 4 = BitVec.ofNat 4 k := by
  have hmask : (0x0F#32).toNat = 2 ^ 4 - 1 := rfl
  rw [← BitVec.toNat_inj, ← BitVec.toNat_inj, BitVec.toNat_and, BitVec.extractLsb'_toNat, hmask,
    Nat.and_two_pow_sub_one_eq_mod, Nat.shiftRight_zero, BitVec.toNat_ofNat, BitVec.toNat_ofNat,
    Nat.mod_eq_of_lt (show k < 2 ^ 32 by omega), Nat.mod_eq_of_lt (show k < 2 ^ 4 by omega)]

/-- **The test for `IPM` looks at `DET`.** -/
theorem ipmTest_iff : ipmTest r.ssts = true ↔ Asleep r.det := by
  have hmask : sataStatusIpm >>> 8 = 0x0F#32 := rfl
  simp only [ipmTest, hmask, Bool.or_eq_true, decide_eq_true_eq, Asleep, PortStatus.det, or_assoc]
  exact or_congr (and_eq_iff _ 2 (by decide))
    (or_congr (and_eq_iff _ 6 (by decide)) (and_eq_iff _ 8 (by decide)))

theorem bsy_iff : r.tfd &&& tfdStsStatusBsy ≠ 0 ↔ r.tfd.getLsbD 7 = true :=
  Bits.and_twoPow_ne_zero r.tfd 7

theorem drq_iff : r.tfd &&& tfdStsStatusDrq ≠ 0 ↔ r.tfd.getLsbD 3 = true :=
  Bits.and_twoPow_ne_zero r.tfd 3

/-- **What `HasDevice` answers**, in terms of the fields. -/
theorem hasDevice_of_registers (hr : p.registers = some r) :
    ∃ b, hasDevice p = .ok b ∧ (b = true ↔ ¬r.Busy ∧ (r.det = 3 ∨ Asleep r.det)) := by
  rw [hasDevice, hr]
  simp only [Option.elim_some, Exec.ok_bind]
  by_cases hbsy : r.tfd.getLsbD 7 = true
  · rw [if_pos (bsy_iff.mpr hbsy)]
    exact ⟨false, rfl, iff_of_false Bool.false_ne_true fun h ↦ h.1 (.inl hbsy)⟩
  rw [if_neg (mt bsy_iff.mp hbsy)]
  by_cases hdrq : r.tfd.getLsbD 3 = true
  · rw [if_pos (drq_iff.mpr hdrq)]
    exact ⟨false, rfl, iff_of_false Bool.false_ne_true fun h ↦ h.1 (.inr hdrq)⟩
  rw [if_neg (mt drq_iff.mp hdrq)]
  have hbusy : ¬r.Busy := not_or.mpr ⟨hbsy, hdrq⟩
  have hdet : r.ssts &&& sataStatusDet = 0x03 ↔ r.det = 3 := and_eq_iff _ 3 (by decide)
  refine ⟨_, rfl, ?_⟩
  rw [and_iff_right hbusy, Bool.or_eq_true, decide_eq_true_eq, hdet, ipmTest_iff]

/-! ### All ports -/

/-- The loop over the ports returns if it does for each of them. -/
theorem forPorts_returns {f : ℕ → Port → Exec Port} {g g' : ℕ → Port}
    (h : ∀ i < 32, f i (g i) = .ok (g' i)) :
    ∃ ports, forPorts f g = .ok ports ∧ ∀ i < 32, ports i = g' i := by
  refine ⟨fun i ↦ if i < 32 then g' i else g i, ?_, fun i hi ↦ if_pos hi⟩
  exact Exec.foldlM_range_update.mpr ⟨fun i hi ↦ by rw [if_pos hi, h i hi],
    fun _ hi ↦ if_neg (Nat.not_lt.mpr hi)⟩

/-- What becomes of a port that the constructor has made. -/
theorem setPortDevice_spec (piVal : BitVec 32) (hardware : ℕ → PortStatus) (i : ℕ) :
    ∃ p q, initPort piVal hardware i {} = .ok p ∧ setPortDevice p = .ok q ∧
      (q.devicePresent = true ↔ piVal.getLsbD i = true ∧
        ¬(hardware i).Busy ∧ ((hardware i).det = 3 ∨ Asleep (hardware i).det)) := by
  by_cases hi : piVal.getLsbD i = true
  · obtain ⟨b, hb, hiff⟩ := hasDevice_of_registers
      (p := ⟨some (hardware i), true, false⟩) rfl
    refine ⟨⟨some (hardware i), true, false⟩, ⟨some (hardware i), true, b⟩, if_pos hi, ?_, ?_⟩
    · rw [setPortDevice, if_pos rfl, hb]
      cases b <;> rfl
    · rw [and_iff_right hi]
      exact hiff
  · exact ⟨{}, {}, if_neg hi, if_neg Bool.false_ne_true,
      iff_of_false Bool.false_ne_true fun h ↦ hi h.1⟩

/-- **What both functions do**: a port has a device exactly when it is implemented, it is not busy,
and `DET` is one of four values. -/
theorem initDevices_spec (piVal : BitVec 32) (hardware : ℕ → PortStatus) :
    ∃ ports, initDevices true piVal hardware = .ok ports ∧
      ∀ i < 32, ((ports i).devicePresent = true ↔ piVal.getLsbD i = true ∧
        ¬(hardware i).Busy ∧ ((hardware i).det = 3 ∨ Asleep (hardware i).det)) := by
  choose p q hp hq hiff using setPortDevice_spec piVal hardware
  obtain ⟨ports, hinit, hports⟩ :=
    forPorts_returns (f := initPort piVal hardware) fun i _ ↦ hp i
  obtain ⟨ports', hset, hports'⟩ := forPorts_returns (f := fun _ ↦ setPortDevice) (g := ports)
    fun i hi ↦ by rw [hports i hi, hq]
  refine ⟨ports', ?_, fun i hi ↦ ?_⟩
  · rw [initDevices, initPorts, hinit, Exec.ok_bind, setPortDevices, Exec.check_of rfl,
      Exec.ok_bind, hset]
  · rw [hports' i hi]
    exact hiff i

/-- **A port is detected rightly** if it is not implemented, or busy, or linked, or if `DET` and
`IPM` both have one of the values of a link that is asleep, or neither has. -/
theorem detects_iff (enabled : Bool) (piVal : BitVec 32) (hardware : ℕ → PortStatus) (i : ℕ)
    (hen : enabled = true) (hi : i < 32) : Detects enabled piVal hardware i ↔
      piVal.getLsbD i = false ∨ (hardware i).Busy ∨ (hardware i).det = 3 ∨
        (Asleep (hardware i).det ↔ Asleep (hardware i).ipm) := by
  subst hen
  obtain ⟨ports, hports, hiff⟩ := initDevices_spec piVal hardware
  have hdet : Detects true piVal hardware i ↔
      ((ports i).devicePresent = true ↔ piVal.getLsbD i = true ∧ (hardware i).HasDevice) := by
    constructor
    · rintro ⟨ports', hports', h⟩
      obtain rfl := Except.ok.inj (hports.symm.trans hports')
      exact h
    · exact fun h ↦ ⟨ports, hports, h⟩
  rw [hdet, hiff i hi, PortStatus.HasDevice]
  cases piVal.getLsbD i with
  | false => simp
  | true =>
    simp only [true_and, Bool.true_eq_false, false_or]
    rw [and_congr_right_iff, or_iff_not_imp_left (a := (hardware i).Busy)]
    refine imp_congr_right fun _ ↦ ?_
    by_cases h3 : (hardware i).det = 3
    · simp only [h3, true_or]
    · rw [or_iff_right h3, or_iff_right h3, or_iff_right h3]

/-- A port whose link is asleep, and about to be made. -/
def sleeping : PortStatus := ⟨0, 0x601⟩

theorem detects_iff_sleeping : Detects true 1 (fun _ ↦ sleeping) 0 ↔
    (1#32).getLsbD 0 = false ∨ sleeping.Busy ∨ sleeping.det = 3 ∨
      (Asleep sleeping.det ↔ Asleep sleeping.ipm) :=
  detects_iff true 1 (fun _ ↦ sleeping) 0 rfl (by decide)

/-- **A device that is asleep** is not seen. -/
theorem not_detects_sleeping : ¬∀ (piVal : BitVec 32) (hardware : ℕ → PortStatus),
    ∀ i < 32, Detects true piVal hardware i := by
  intro h
  obtain ⟨ports, hports, hiff⟩ := initDevices_spec 1 fun _ ↦ sleeping
  obtain ⟨ports', hports', h0⟩ := h 1 (fun _ ↦ sleeping) 0 (by decide)
  obtain rfl := Except.ok.inj (hports.symm.trans hports')
  have hbusy : ¬sleeping.Busy := by
    rintro (h | h) <;> exact absurd h (by decide)
  have hdevice := h0.mpr ⟨by decide, hbusy, .inr (.inr (.inl (by decide)))⟩
  have hcode := ((hiff 0 (by decide)).mp hdevice).2.2
  exact absurd hcode (by decide)

end Chisaka.Ahci.PortDevices
