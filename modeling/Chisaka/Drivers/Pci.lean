import Mathlib.Data.BitVec
import Mathlib.Data.List.Basic

/-!
# Finding PCI functions

A register in the configuration space has an address with fields for the bus, the device and the
function, of eight, five and three bits.  `FormConfigAddress` puts them together without cutting
them to size, and `PrintEnumeratePCI` tries ten functions of a device where there are eight.  The
fourth bit of a function number falls on the lowest bit of the device: functions 8 and 9 are
functions 0 and 1 of the device with this bit set (`locate_address`).

So every function is found, but some more than once (`printEnumeratePCI_finds`): the first two of a
device with an odd number are found three times, under three names, of which one is right.
-/

set_option autoImplicit false

namespace Drivers.Pci

/-! ## Addresses -/

/-- `FormConfigAddress`. -/
def formConfigAddress (enable : Bool) (busn devn funcn regOffset : BitVec 8) : BitVec 32 :=
  let bus := busn.setWidth 32
  let dev := devn.setWidth 32
  let func := funcn.setWidth 32
  let address := (BitVec.ofBool enable).setWidth 32
  let address := address <<< 31
  let address := address ||| bus <<< 16
  let address := address ||| dev <<< 11
  let address := address ||| func <<< 8
  address ||| (regOffset &&& 0xFC#8).setWidth 32

/-- A function of a device on a bus. -/
structure Location where
  /-- The bus. -/
  bus : BitVec 8
  /-- The device. -/
  device : BitVec 5
  /-- The function. -/
  function : BitVec 3
  deriving DecidableEq

/-- The function that an address selects. -/
def locate (address : BitVec 32) : Location where
  bus := address.extractLsb' 16 8
  device := address.extractLsb' 11 5
  function := address.extractLsb' 8 3

/-- **The host bridge**: what is read at `CONFIG_DATA` when `CONFIG_ADDRESS` holds an address.
`devices` are the registers of each function, of which those that do not exist read as ones. -/
def hostBridge (devices : Location → BitVec 6 → BitVec 32) (address : BitVec 32) : BitVec 32 :=
  if address.getLsbD 31 then devices (locate address) (address.extractLsb' 2 6) else 0xFFFFFFFF

/-! ## Enumeration -/

/-- What `PrintEnumeratePCI` prints of a function. -/
structure Report where
  /-- `bus`. -/
  bus : ℕ
  /-- `dev`. -/
  dev : ℕ
  /-- `func`. -/
  func : ℕ
  /-- `ids`. -/
  ids : BitVec 32
  /-- `classes`. -/
  classes : BitVec 32
  /-- `interruptInfo`. -/
  interruptInfo : BitVec 32
  deriving DecidableEq

/-- The address of a register of the function with these numbers. -/
def address (bus dev func : ℕ) (regOffset : BitVec 8) : BitVec 32 :=
  formConfigAddress true (BitVec.ofNat 8 bus) (BitVec.ofNat 8 dev) (BitVec.ofNat 8 func) regOffset

/-- The body of the loops of `PrintEnumeratePCI`.  `inl` is what is read at `CONFIG_DATA` after an
address was written to `CONFIG_ADDRESS`. -/
def probe (inl : BitVec 32 → BitVec 32) (bus dev func : ℕ) : Option Report :=
  let ids := inl (address bus dev func 0)
  if ids &&& 0xFFFF#32 = 0xFFFF then none
  else
    let classes := inl (address bus dev func 0x08)
    let interruptInfo := inl (address bus dev func 0x3c)
    some ⟨bus, dev, func, ids, classes, interruptInfo⟩

/-- `PrintEnumeratePCI`. -/
def printEnumeratePCI (inl : BitVec 32 → BitVec 32) : List Report :=
  (List.range 256).flatMap fun bus ↦ (List.range 32).flatMap fun dev ↦
    (List.range 10).filterMap fun func ↦ probe inl bus dev func

/-- The function that a report is about. -/
def Report.location (r : Report) : Location := locate (address r.bus r.dev r.func 0)

/-- A function exists: its vendor is not all ones. -/
def Present (devices : Location → BitVec 6 → BitVec 32) (loc : Location) : Prop :=
  devices loc 0 &&& 0xFFFF#32 ≠ 0xFFFF

instance (devices : Location → BitVec 6 → BitVec 32) : DecidablePred (Present devices) :=
  fun loc ↦ inferInstanceAs (Decidable (devices loc 0 &&& 0xFFFF#32 ≠ 0xFFFF))

/-! ## What an address selects -/

variable {bus dev func i k : ℕ} {regOffset : BitVec 8}

/-- The bits of an address. -/
theorem getLsbD_formConfigAddress (enable : Bool) (b d f r : BitVec 8) (hk : k < 32) :
    (formConfigAddress enable b d f r).getLsbD k = (decide (k = 31) && enable ||
      !decide (k < 16) && b.getLsbD (k - 16) || !decide (k < 11) && d.getLsbD (k - 11) ||
      !decide (k < 8) && f.getLsbD (k - 8) || r.getLsbD k && (0xFC#8).getLsbD k) := by
  have hsub : ∀ j, k - j < 32 := fun j ↦ by omega
  have htop : (!decide (k < 31) && (decide (k - 31 = 0) && enable)) =
      (decide (k = 31) && enable) := by
    by_cases h31 : k = 31
    · simp [h31]
    · simp [h31, show k < 31 by omega]
  simp only [formConfigAddress, BitVec.getLsbD_or, BitVec.getLsbD_shiftLeft,
    BitVec.getLsbD_setWidth, BitVec.getLsbD_and, BitVec.getLsbD_ofBool, hk, hsub, decide_true,
    Bool.true_and, htop]

/-- No field reaches above its number. -/
theorem getLsbD_ofNat_of_lt {n w : ℕ} (h : n < 2 ^ w) (hi : w ≤ i) :
    (BitVec.ofNat 8 n).getLsbD i = false := by
  have hlt : n < 2 ^ i := h.trans_le (Nat.pow_le_pow_right (by decide) hi)
  rw [BitVec.getLsbD_ofNat, Nat.testBit_lt_two_pow hlt, Bool.and_false]

theorem getLsbD_ofNat_testBit {n : ℕ} (hi : i < 8) :
    (BitVec.ofNat 8 n).getLsbD i = n.testBit i := by
  rw [BitVec.getLsbD_ofNat, decide_eq_true hi, Bool.true_and]

/-- **Which function is probed**: the upper bit of the function number goes to the device. -/
theorem locate_address (hdev : dev < 32) (hfunc : func < 16) (r : BitVec 8) :
    locate (address bus dev func r) =
      ⟨BitVec.ofNat 8 bus, BitVec.ofNat 5 (dev ||| func / 8), BitVec.ofNat 3 func⟩ := by
  have hr : ∀ k, 8 ≤ k → r.getLsbD k = false := fun k hk ↦ BitVec.getLsbD_of_ge r k hk
  rw [locate, Location.mk.injEq]
  refine ⟨BitVec.eq_of_getLsbD_eq fun i hi ↦ ?_, BitVec.eq_of_getLsbD_eq fun i hi ↦ ?_,
    BitVec.eq_of_getLsbD_eq fun i hi ↦ ?_⟩
  · rw [BitVec.getLsbD_extractLsb', address, getLsbD_formConfigAddress _ _ _ _ _ (by omega),
      hr _ (by omega), getLsbD_ofNat_of_lt (w := 5) hdev (by omega),
      getLsbD_ofNat_of_lt (w := 4) hfunc (by omega), show 16 + i - 16 = i by omega]
    simp [hi, show ¬(16 + i = 31) by omega]
  · have hbits : (BitVec.ofNat 5 (dev ||| func / 8)).getLsbD i =
        (dev.testBit i || func.testBit (3 + i)) := by
      rw [BitVec.getLsbD_ofNat, decide_eq_true hi, Bool.true_and, Nat.testBit_or,
        show func / 8 = func / 2 ^ 3 from rfl, Nat.testBit_div_two_pow, Nat.add_comm]
    rw [hbits, BitVec.getLsbD_extractLsb', address, getLsbD_formConfigAddress _ _ _ _ _ (by omega),
      hr _ (by omega), show 11 + i - 11 = i by omega, show 11 + i - 8 = 3 + i by omega,
      getLsbD_ofNat_testBit (n := dev) (by omega), getLsbD_ofNat_testBit (n := func) (by omega)]
    simp [hi, show ¬(11 + i = 31) by omega, show 11 + i < 16 by omega, show ¬(11 + i < 11) by omega,
      show ¬(11 + i < 8) by omega]
  · have hbits : (BitVec.ofNat 3 func).getLsbD i = func.testBit i := by
      rw [BitVec.getLsbD_ofNat, decide_eq_true hi, Bool.true_and]
    rw [hbits, BitVec.getLsbD_extractLsb', address, getLsbD_formConfigAddress _ _ _ _ _ (by omega),
      hr _ (by omega), show 8 + i - 8 = i by omega, getLsbD_ofNat_testBit (n := func) (by omega)]
    simp [hi, show ¬(8 + i = 31) by omega, show 8 + i < 16 by omega, show 8 + i < 11 by omega,
      show ¬(8 + i < 8) by omega]

/-- The host bridge answers with the register of that function. -/
theorem hostBridge_address (devices : Location → BitVec 6 → BitVec 32) (r : BitVec 8) :
    hostBridge devices (address bus dev func r) =
      devices (locate (address bus dev func r)) (r.extractLsb' 2 6) := by
  have h31 : (address bus dev func r).getLsbD 31 = true := by
    rw [address, getLsbD_formConfigAddress _ _ _ _ _ (by decide)]
    simp
  have hreg : (address bus dev func r).extractLsb' 2 6 = r.extractLsb' 2 6 := by
    refine BitVec.eq_of_getLsbD_eq fun i hi ↦ ?_
    rw [BitVec.getLsbD_extractLsb', BitVec.getLsbD_extractLsb', address,
      getLsbD_formConfigAddress _ _ _ _ _ (by omega)]
    have hmask : (0xFC#8).getLsbD (2 + i) = true := by
      have hall : ∀ i < 6, (0xFC#8).getLsbD (2 + i) = true := by decide
      exact hall i hi
    simp [hi, hmask, show ¬(2 + i = 31) by omega, show 2 + i < 16 by omega,
      show 2 + i < 11 by omega, show 2 + i < 8 by omega]
  rw [hostBridge, if_pos h31, hreg]

/-- A probe finds the function that its numbers select. -/
theorem probe_hostBridge (devices : Location → BitVec 6 → BitVec 32) (hdev : dev < 32)
    (hfunc : func < 10) :
    probe (hostBridge devices) bus dev func =
      let loc := locate (address bus dev func 0)
      if Present devices loc then
        some ⟨bus, dev, func, devices loc 0, devices loc 2, devices loc 15⟩
      else none := by
  have hloc : ∀ r, locate (address bus dev func r) = locate (address bus dev func 0) := fun r ↦ by
    rw [locate_address hdev (by omega), locate_address hdev (by omega)]
  have hids : (0 : BitVec 8).extractLsb' 2 6 = 0 := by decide
  have hclasses : (0x08 : BitVec 8).extractLsb' 2 6 = 2 := by decide
  have hinterrupt : (0x3c : BitVec 8).extractLsb' 2 6 = 15 := by decide
  simp only [probe, hostBridge_address, hloc, hids, hclasses, hinterrupt]
  by_cases hpresent : Present devices (locate (address bus dev func 0))
  · rw [if_pos hpresent]
    exact if_neg hpresent
  · rw [if_neg hpresent]
    exact if_pos (not_not.mp hpresent)

/-! ## What is found -/

/-- The numbers of device and function under which a function is found, in this order. -/
def names (loc : Location) : List (ℕ × ℕ) :=
  let dev := loc.device.toNat
  let func := loc.function.toNat
  if dev % 2 = 1 ∧ func < 2 then [(dev - 1, func + 8), (dev, func), (dev, func + 8)]
  else [(dev, func)]

/-- Of a list of lists only one is not empty. -/
theorem flatMap_range_eq {α : Type} {n b : ℕ} {f : ℕ → List α} (hb : b < n)
    (hf : ∀ x < n, x ≠ b → f x = []) : (List.range n).flatMap f = f b := by
  induction n with
  | zero => exact absurd hb (Nat.not_lt_zero b)
  | succ n ih =>
    rw [List.range_succ, List.flatMap_append, List.flatMap_singleton]
    rcases Nat.lt_succ_iff_lt_or_eq.mp hb with hlt | rfl
    · rw [ih hlt fun x hx ↦ hf x (by omega), hf n (by omega) (by omega), List.append_nil]
    · have hnil : (List.range b).flatMap f = [] := by
        rw [List.flatMap_eq_nil_iff]
        intro x hx
        have := List.mem_range.mp hx
        exact hf x (by omega) (by omega)
      rw [hnil, List.nil_append]

/-- The numbers among those tried that select a device and a function. -/
theorem tried_eq_names (loc : Location) :
    ((List.range 32).flatMap fun dev ↦ (List.range 10).filterMap fun func ↦
      if (dev ||| func / 8) = loc.device.toNat ∧ func % 8 = loc.function.toNat then
        some (dev, func)
      else none) = names loc := by
  have htable : ∀ d < 32, ∀ f < 8, ((List.range 32).flatMap fun dev ↦
      (List.range 10).filterMap fun func ↦
        if (dev ||| func / 8) = d ∧ func % 8 = f then some (dev, func) else none) =
      if d % 2 = 1 ∧ f < 2 then [(d - 1, f + 8), (d, f), (d, f + 8)] else [(d, f)] := by
    decide +kernel
  exact htable _ loc.device.isLt _ loc.function.isLt

/-- A probe selects a function, up to its bus. -/
theorem locate_address_eq_iff {loc : Location} (hbus : bus = loc.bus.toNat) (hdev : dev < 32)
    (hfunc : func < 10) (r : BitVec 8) : locate (address bus dev func r) = loc ↔
      (dev ||| func / 8) = loc.device.toNat ∧ func % 8 = loc.function.toNat := by
  have hor : (dev ||| func / 8) < 2 ^ 5 := Nat.or_lt_two_pow (by omega) (by omega)
  rw [locate_address hdev (by omega), Location.mk.injEq, hbus, BitVec.ofNat_toNat,
    BitVec.setWidth_eq, ← BitVec.toNat_inj (x := BitVec.ofNat 5 _),
    ← BitVec.toNat_inj (x := BitVec.ofNat 3 func), BitVec.toNat_ofNat, BitVec.toNat_ofNat,
    Nat.mod_eq_of_lt hor, eq_self, true_and]

/-- What the probes of one bus find of a function. -/
theorem filter_probes (devices : Location → BitVec 6 → BitVec 32) (loc : Location) :
    (((List.range 32).flatMap fun dev ↦ (List.range 10).filterMap fun func ↦
      probe (hostBridge devices) loc.bus.toNat dev func).filter fun r ↦ r.location = loc) =
      if Present devices loc then (names loc).map fun n ↦
        ⟨loc.bus.toNat, n.1, n.2, devices loc 0, devices loc 2, devices loc 15⟩
      else [] := by
  have hprobe : ∀ dev < 32, ∀ func < 10,
      (probe (hostBridge devices) loc.bus.toNat dev func).filter (fun r ↦ r.location = loc) =
        if Present devices loc then
          (if (dev ||| func / 8) = loc.device.toNat ∧ func % 8 = loc.function.toNat then
            some (dev, func) else none).map fun n ↦
              ⟨loc.bus.toNat, n.1, n.2, devices loc 0, devices loc 2, devices loc 15⟩
        else none := by
    intro dev hdev func hfunc
    have hiff : locate (address loc.bus.toNat dev func 0) = loc ↔
        (dev ||| func / 8) = loc.device.toNat ∧ func % 8 = loc.function.toNat :=
      locate_address_eq_iff rfl hdev hfunc 0
    rw [probe_hostBridge devices hdev hfunc]
    by_cases hloc : locate (address loc.bus.toNat dev func 0) = loc
    · rw [if_pos (hiff.mp hloc), hloc]
      by_cases hpresent : Present devices loc
      · simp only [if_pos hpresent, Option.map_some]
        rw [Option.filter_some]
        exact if_pos (decide_eq_true hloc)
      · simp only [if_neg hpresent, Option.filter_none]
    · rw [if_neg (mt hiff.mpr hloc), Option.map_none, ite_self]
      by_cases hpresent : Present devices (locate (address loc.bus.toNat dev func 0))
      · simp only [if_pos hpresent]
        rw [Option.filter_some]
        exact if_neg fun h ↦ hloc (of_decide_eq_true h)
      · simp only [if_neg hpresent, Option.filter_none]
  have hfilter : ∀ dev < 32, ((List.range 10).filterMap fun func ↦
      probe (hostBridge devices) loc.bus.toNat dev func).filter (fun r ↦ r.location = loc) =
        (List.range 10).filterMap fun func ↦ if Present devices loc then
          (if (dev ||| func / 8) = loc.device.toNat ∧ func % 8 = loc.function.toNat then
            some (dev, func) else none).map fun n ↦
              ⟨loc.bus.toNat, n.1, n.2, devices loc 0, devices loc 2, devices loc 15⟩
        else none := by
    intro dev hdev
    rw [List.filter_filterMap]
    refine List.filterMap_congr fun func hfunc ↦ ?_
    exact hprobe dev hdev func (List.mem_range.mp hfunc)
  rw [List.filter_flatMap, List.flatMap_congr fun dev hdev ↦ hfilter dev (List.mem_range.mp hdev)]
  split
  · rw [← tried_eq_names, List.map_flatMap]
    refine List.flatMap_congr fun dev _ ↦ ?_
    rw [List.map_filterMap]
  · rw [List.flatMap_eq_nil_iff]
    intro dev _
    exact List.filterMap_eq_nil_iff.mpr fun _ _ ↦ rfl

/-- **The enumeration finds every function that exists**, with its own registers, and reports it
under `names`: once, or three times for functions 0 and 1 of an odd device. -/
theorem printEnumeratePCI_finds (devices : Location → BitVec 6 → BitVec 32) (loc : Location) :
    ((printEnumeratePCI (hostBridge devices)).filter fun r ↦ r.location = loc) =
      if Present devices loc then (names loc).map fun n ↦
        ⟨loc.bus.toNat, n.1, n.2, devices loc 0, devices loc 2, devices loc 15⟩
      else [] := by
  rw [printEnumeratePCI, List.filter_flatMap, flatMap_range_eq loc.bus.isLt, filter_probes]
  -- No probe of another bus is about this function.
  intro bus hbus hne
  rw [List.filter_eq_nil_iff]
  intro r hr
  obtain ⟨dev, hdev, hr⟩ := List.mem_flatMap.mp hr
  obtain ⟨func, hfunc, hr⟩ := List.mem_filterMap.mp hr
  have hdev := List.mem_range.mp hdev
  have hfunc := List.mem_range.mp hfunc
  have hlocation : r.location = locate (address bus dev func 0) := by
    rw [probe_hostBridge devices hdev hfunc] at hr
    dsimp only at hr
    split at hr
    · cases hr
      rfl
    · cases hr
  have hbusOf : r.location.bus.toNat = bus := by
    rw [hlocation, locate_address hdev (by omega), BitVec.toNat_ofNat, Nat.mod_eq_of_lt hbus]
  rw [decide_eq_true_eq]
  rintro rfl
  exact hne hbusOf.symm

end Drivers.Pci
