import Chisaka.Drivers.Ahci.InitialiseSteps

/-!
# Views of the ports

`AhciDriver`, `PortDevices` and `PortIdle` each embed what their functions work with of a port, and
nothing of the other registers, of the controller behind them, and of the time that goes by between
two reads.  `Initialise` embeds all of it.  Here the parts are views of the whole: `State.driver`
has the registers that send commands, `State.devices` those that tell of a device, and
`State.idlePort` the command register.

A function of a part is the function of the whole, as the view shows it:

* `initPorts_driver` and `initPorts_devices` are `InitPorts`;
* `hasDevice_devices` and `setPortDevices_devices` are `HasDevice` and `SetPortDevices`, under a
  controller that does not change its mind on devices (`Controller.Steady`), as the whole reads the
  registers anew for every test, and `initDevices_devices` is both `InitPorts` and that;
* `idle_idlePort`, `forceIdle_idlePort` and `forceRound_idlePort` are `Idle`, `ForceIdle` and what
  `ForceHbaIdle` does for a port, under a controller that does nothing to a command register but
  stop engines (`Controller.Settles`).

`InitMemory` of the whole is made of that of the driver from the start.

What is proved of a part then holds of the whole.  So `ForceHbaIdle` returns if software has stopped
the engines of all ports (`Stopped.forceHbaIdle`).  `settling` is a controller of both kinds.
-/

set_option autoImplicit false

namespace Chisaka.Ahci.Initialise

open PortDevices (PortStatus tfdStsStatusBsy tfdStsStatusDrq sataStatusIpm)
open PortIdle (Engine settle combinedMask forceEngine)

variable {ctl : Controller} {s s' : State} {i : ℕ}

/-! ## Finding the ports -/

/-- The registers that send commands. -/
def Registers.commands (r : Registers) : PortRegisters := ⟨r.clistb, r.fisb, r.sact, r.ci⟩

/-- **`InitPorts` of the driver** that sends commands. -/
theorem initPorts_driver (s : State) : (initPorts ctl s).driver =
    (access ctl s).driver.initPorts (access ctl s).hba.pi
      fun i ↦ ((access ctl s).hba.ports i).commands := by
  rw [initPorts_eq, AhciDriver.initPorts, State.driver]
  refine congrArg (fun ports ↦ (⟨s.enabled, ports, fun _ ↦ none, fun _ ↦ none⟩ : AhciDriver)) ?_
  funext i
  by_cases hi : (access ctl s).hba.pi.getLsbD i = true
  · simp only [if_pos hi, if_pos (And.intro (BitVec.lt_of_getLsbD hi) hi)]
    rfl
  · simp only [if_neg hi, if_neg fun h : i < 32 ∧ _ ↦ hi h.2]
    rfl

/-! ## Devices -/

/-- The registers that tell of a device. -/
def Registers.status (r : Registers) : PortStatus := ⟨r.tfd, r.ssts⟩

/-- The ports, as far as devices go. -/
def State.devices (s : State) (i : ℕ) : PortDevices.Port where
  registers := if (s.ports i).mapped then some (s.hba.ports i).status else none
  present := (s.ports i).present
  devicePresent := (s.ports i).devicePresent

/-- The controller does not change its mind on devices. -/
def Controller.Steady (ctl : Controller) : Prop :=
  ∀ n h i, ((ctl.act n h).ports i).status = (h.ports i).status

/-- **`InitPorts` for the devices.** -/
theorem initPorts_devices (s : State) : PortDevices.initPorts (access ctl s).hba.pi
      (fun i ↦ ((access ctl s).hba.ports i).status) (access ctl s).devices =
    .ok (initPorts ctl s).devices := by
  rw [initPorts_eq]
  refine Exec.foldlM_range_update.mpr ⟨fun i _ ↦ ?_, fun i hi ↦ ?_⟩
  · rw [PortDevices.initPort]
    by_cases hi : (access ctl s).hba.pi.getLsbD i = true
    · simp only [State.devices, if_pos hi]
      rfl
    · simp only [State.devices, if_neg hi]
      rfl
  · have hpi : ¬(access ctl s).hba.pi.getLsbD i = true :=
      fun h ↦ Nat.not_lt.mpr hi (BitVec.lt_of_getLsbD h)
    simp only [State.devices, if_neg hpi]
    rfl

/-- Nothing has changed that tells of a device. -/
structure Stays (s s' : State) : Prop where
  /-- What the driver remembers. -/
  ports : s'.ports = s.ports
  /-- What the controller shows. -/
  status : ∀ i, (s'.hba.ports i).status = (s.hba.ports i).status

theorem Stays.refl (s : State) : Stays s s := ⟨rfl, fun _ ↦ rfl⟩

theorem Stays.access (hc : ctl.Steady) (h : Stays s s') : Stays s (access ctl s') :=
  ⟨h.ports, fun i ↦ (hc s'.accesses s'.hba i).trans (h.status i)⟩

theorem Stays.devices (h : Stays s s') : s'.devices = s.devices := by
  funext i
  simp only [State.devices, h.ports, h.status]

theorem readPort_tfd (hc : ctl.Steady) (h : Stays s s') (hm : (s.ports i).mapped = true) :
    readPort ctl i Registers.tfd s' = .ok ((s.hba.ports i).tfd, access ctl s') := by
  rw [readPort, if_pos (h.ports ▸ hm)]
  exact congrArg (fun r : PortStatus ↦ Except.ok (r.tfd, access ctl s')) ((h.access hc).status i)

theorem readPort_ssts (hc : ctl.Steady) (h : Stays s s') (hm : (s.ports i).mapped = true) :
    readPort ctl i Registers.ssts s' = .ok ((s.hba.ports i).ssts, access ctl s') := by
  rw [readPort, if_pos (h.ports ▸ hm)]
  exact congrArg (fun r : PortStatus ↦ Except.ok (r.ssts, access ctl s')) ((h.access hc).status i)

theorem ipmIs_eq (hc : ctl.Steady) (h : Stays s s') (hm : (s.ports i).mapped = true)
    (v : BitVec 32) : ipmIs ctl i v s' =
      .ok (decide ((s.hba.ports i).ssts &&& sataStatusIpm >>> 8 = v), access ctl s') := by
  rw [ipmIs, readPort_ssts hc h hm]
  rfl

/-- The three tests see one value. -/
theorem ipmTest_returns (hc : ctl.Steady) (h : Stays s s') (hm : (s.ports i).mapped = true) :
    (ipmTest ctl i s').Returns fun q ↦
      q.1 = PortDevices.ipmTest (s.hba.ports i).ssts ∧ Stays s q.2 := by
  have h₁ := h.access hc
  have h₂ := h₁.access hc
  rw [ipmTest, PortDevices.ipmTest, ipmIs_eq hc h hm, Exec.ok_bind]
  by_cases hv₂ : (s.hba.ports i).ssts &&& sataStatusIpm >>> 8 = 2
  · simp only [hv₂, decide_true, Bool.true_or, if_true]
    exact .ok ⟨rfl, h₁⟩
  simp only [hv₂, decide_false, Bool.false_or, Bool.false_eq_true, if_false]
  rw [ipmIs_eq hc h₁ hm, Exec.ok_bind]
  by_cases hv₆ : (s.hba.ports i).ssts &&& sataStatusIpm >>> 8 = 6
  · simp only [hv₆, decide_true, Bool.true_or, if_true]
    exact .ok ⟨rfl, h₂⟩
  simp only [hv₆, decide_false, Bool.false_or, Bool.false_eq_true, if_false]
  rw [ipmIs_eq hc h₂ hm]
  exact .ok ⟨rfl, h₂.access hc⟩

/-- `HasDevice` answers as it does for the port alone. -/
theorem hasDevice_returns (hc : ctl.Steady) (hm : (s.ports i).mapped = true) :
    (hasDevice ctl i s).Returns fun q ↦
      PortDevices.hasDevice (s.devices i) = .ok q.1 ∧ Stays s q.2 := by
  have h₁ := (Stays.refl s).access hc
  have h₂ := h₁.access hc
  have hr : (s.devices i).registers = some (s.hba.ports i).status := if_pos hm
  rw [hasDevice, PortDevices.hasDevice, hr, readPort_tfd hc (.refl s) hm]
  simp only [Option.elim_some, Exec.ok_bind]
  have hs : (s.hba.ports i).status = ⟨(s.hba.ports i).tfd, (s.hba.ports i).ssts⟩ := rfl
  rw [hs]
  by_cases hbsy : (s.hba.ports i).tfd &&& tfdStsStatusBsy ≠ 0
  · rw [if_pos hbsy, if_pos hbsy]
    exact .ok ⟨rfl, h₁⟩
  rw [if_neg hbsy, if_neg hbsy, readPort_tfd hc h₁ hm, Exec.ok_bind]
  by_cases hdrq : (s.hba.ports i).tfd &&& tfdStsStatusDrq ≠ 0
  · rw [if_pos hdrq, if_pos hdrq]
    exact .ok ⟨rfl, h₂⟩
  rw [if_neg hdrq, if_neg hdrq]
  refine (ipmTest_returns hc h₂ hm).bind ?_
  rintro ⟨asleep, t⟩ ⟨rfl, ht⟩
  rw [readPort_ssts hc ht hm]
  exact .ok ⟨rfl, ht.access hc⟩

/-- **`HasDevice`** of the port alone. -/
theorem hasDevice_devices (hc : ctl.Steady) (s : State) (i : ℕ) :
    PortDevices.hasDevice (s.devices i) = (hasDevice ctl i s).map Prod.fst := by
  by_cases hm : (s.ports i).mapped = true
  · obtain ⟨q, hq, hsmall, -⟩ := hasDevice_returns hc hm
    rw [hq, hsmall]
    rfl
  · have hr : (s.devices i).registers = none := if_neg hm
    rw [hasDevice, PortDevices.hasDevice, hr, readPort, if_neg hm]
    rfl

theorem setPort_devices (i : ℕ) (s : State) :
    (setPort i (fun p ↦ { p with devicePresent := true }) s).devices =
      Function.update s.devices i { s.devices i with devicePresent := true } := by
  funext j
  by_cases hj : j = i
  · subst hj
    simp only [State.devices, setPort, Function.update_self]
  · rw [Function.update_of_ne hj]
    simp only [State.devices, setPort, Function.update_of_ne hj]

/-- A round of `SetPortDevices` is what the port alone does. -/
theorem setPortDevice_devices (hc : ctl.Steady) (s : State) (i : ℕ) :
    (do
      let p ← PortDevices.setPortDevice (s.devices i)
      return Function.update s.devices i p) =
      (if (s.ports i).present then setPortDevice ctl i s else return s).map State.devices := by
  have hpres : (s.devices i).present = (s.ports i).present := rfl
  rw [PortDevices.setPortDevice, hpres]
  by_cases hp : (s.ports i).present = true
  · rw [if_pos hp, if_pos hp, setPortDevice]
    by_cases hm : (s.ports i).mapped = true
    · obtain ⟨⟨found, t⟩, hq, hsmall, ht⟩ := hasDevice_returns hc hm
      rw [hq, hsmall]
      cases found with
      | false =>
        exact congrArg Except.ok ((Function.update_eq_self i s.devices).trans ht.devices.symm)
      | true =>
        refine congrArg Except.ok ?_
        rw [setPort_devices, ht.devices]
        rfl
    · have hr : (s.devices i).registers = none := if_neg hm
      rw [hasDevice, PortDevices.hasDevice, hr, readPort, if_neg hm]
      rfl
  · rw [if_neg hp, if_neg hp]
    exact congrArg Except.ok (Function.update_eq_self i s.devices)

/-- **`SetPortDevices`** of the ports alone. -/
theorem setPortDevices_devices (hc : ctl.Steady) (s : State) :
    PortDevices.setPortDevices s.enabled s.devices =
      (setPortDevices ctl s).map State.devices := by
  rw [PortDevices.setPortDevices, setPortDevices, kassert]
  by_cases hen : s.enabled = true
  · rw [Exec.check_of hen, Exec.ok_bind, Exec.ok_bind]
    exact Exec.foldlM_map (setPortDevice_devices hc) (List.range 32) s
  · rw [Exec.check_of_not hen]
    rfl

/-- Both, with the ports as the constructor has made them. -/
theorem initDevices_devices (hc : ctl.Steady) (hports : ∀ i, s.ports i = {}) :
    PortDevices.initDevices s.enabled (access ctl s).hba.pi
        (fun i ↦ ((access ctl s).hba.ports i).status) =
      (setPortDevices ctl (initPorts ctl s)).map State.devices := by
  have hfresh : (access ctl s).devices = fun _ ↦ {} := by
    funext i
    rw [State.devices, show (access ctl s).ports i = {} from hports i]
    rfl
  have henabled : (initPorts ctl s).enabled = s.enabled := by
    rw [initPorts_eq]
    rfl
  rw [PortDevices.initDevices, ← hfresh, initPorts_devices, Exec.ok_bind, ← henabled,
    setPortDevices_devices hc]

/-! ## Stopping a port -/

/-- A port, as far as its command register goes. -/
def State.idlePort (s : State) (i : ℕ) : PortIdle.Port where
  present := (s.ports i).present
  cmd := (s.hba.ports i).cmd
  accesses := s.accesses

/-- The controller does nothing to a command register but stop engines: those that `c` says have
come to rest by then. -/
def Controller.Settles (ctl : Controller) (c : ℕ → PortIdle.Controller) : Prop :=
  ∀ n h i, ((ctl.act n h).ports i).cmd = settle (c i n) (h.ports i).cmd

variable {c : ℕ → PortIdle.Controller}

theorem access_idlePort (hc : ctl.Settles c) (s : State) (i : ℕ) :
    (access ctl s).idlePort i = PortIdle.access (c i) (s.idlePort i) :=
  congrArg (fun cmd ↦ (⟨(s.ports i).present, cmd, s.accesses + 1⟩ : PortIdle.Port))
    (hc s.accesses s.hba i)

/-- `CommandStatus` of the port alone is a read of the command register. -/
theorem commandStatus_idlePort (hc : ctl.Settles c) (s : State) (i : ℕ) :
    PortIdle.commandStatus (c i) (s.idlePort i) =
      (((access ctl s).hba.ports i).cmd, (access ctl s).idlePort i) := by
  rw [PortIdle.commandStatus, ← access_idlePort hc]
  rfl

/-- **`Idle`** of the port alone. -/
theorem idle_idlePort (hc : ctl.Settles c) (s : State) (i : ℕ) :
    PortIdle.idle (c i) (s.idlePort i) =
      (decide (((access ctl s).hba.ports i).cmd &&& combinedMask = 0),
        (access ctl s).idlePort i) := by
  rw [PortIdle.idle, commandStatus_idlePort hc]
  by_cases h0 : ((access ctl s).hba.ports i).cmd &&& combinedMask = 0
  · simp only [h0, ne_eq, not_true_eq_false, if_false, decide_true]
  · simp only [h0, ne_eq, not_false_eq_true, if_true, decide_false]

/-- **`ForceIdle`** of the port alone. -/
theorem forceIdle_idlePort (hc : ctl.Settles c) (hm : (s.ports i).mapped = true) :
    PortIdle.forceIdle (c i) (s.idlePort i) =
      (forceIdle ctl i s).map fun s' ↦ s'.idlePort i := by
  rw [PortIdle.forceIdle, commandStatus_idlePort hc, forceIdle, readPort, if_pos hm, Exec.ok_bind]
  simp only
  cases forceEngine .command ((access ctl s).hba.ports i).cmd with
  | error e => rfl
  | ok cmd₁ =>
    simp only [Exec.ok_bind]
    cases forceEngine .fis cmd₁ with
    | error e => rfl
    | ok cmd₂ => rfl

/-- The test of `Idle` and, if it fails, `ForceIdle`: a round of `ForceHbaIdle`. -/
def forceRound (ctl : Controller) (i : ℕ) (s : State) : Exec State := do
  let (cmd, s) ← readPort ctl i Registers.cmd s
  if cmd &&& combinedMask = 0 then return s else forceIdle ctl i s

/-- **A round of `ForceHbaIdle`** of the port alone. -/
theorem forceRound_idlePort (hc : ctl.Settles c) (hm : (s.ports i).mapped = true)
    (hp : (s.ports i).present = true) : PortIdle.forcePort (c i) (s.idlePort i) =
      (forceRound ctl i s).map fun s' ↦ s'.idlePort i := by
  have hpres : (s.idlePort i).present = true := hp
  rw [PortIdle.forcePort, if_pos hpres, idle_idlePort hc, forceRound, readPort, if_pos hm,
    Exec.ok_bind]
  simp only [decide_eq_true_eq]
  by_cases h0 : ((access ctl s).hba.ports i).cmd &&& combinedMask = 0
  · rw [if_pos h0, if_pos h0]
    rfl
  · rw [if_neg h0, if_neg h0]
    exact forceIdle_idlePort hc hm

/-- Nothing but time goes by in a round. -/
theorem forceRound_eq_ok (h : forceRound ctl i s = .ok s') :
    s' = access ctl s ∨ s' = access ctl (access ctl s) := by
  have hread {r : BitVec 32 × State} {t : State} (hr : readPort ctl i Registers.cmd t = .ok r) :
      r.2 = access ctl t := by
    rw [readPort] at hr
    split at hr
    · rw [← Except.ok.inj hr]
    · cases hr
  obtain ⟨⟨cmd, t⟩, hr, h⟩ := Exec.bind_eq_ok.mp h
  obtain rfl : t = access ctl s := hread hr
  simp only at h
  by_cases h0 : cmd &&& combinedMask = 0
  · rw [if_pos h0] at h
    exact .inl (Except.ok.inj h).symm
  · rw [if_neg h0] at h
    obtain ⟨⟨cmd', t'⟩, hr', h⟩ := Exec.bind_eq_ok.mp h
    simp only at h
    obtain ⟨cmd₁, -, h⟩ := Exec.bind_eq_ok.mp h
    obtain ⟨cmd₂, -, h⟩ := Exec.bind_eq_ok.mp h
    obtain rfl := Except.ok.inj h
    exact .inr (hread hr')

/-- Software has stopped the engines of all ports. -/
def Stopped (s : State) : Prop := ∀ i (e : Engine), (s.hba.ports i).cmd &&& e.control = 0

theorem Stopped.access (h : Stopped s) (hc : ctl.Settles c) : Stopped (access ctl s) := by
  intro i e
  rw [Initialise.access, hc, PortIdle.settle_control, h]

/-- A round gets past a port that is stopped. -/
theorem Stopped.forceRound (h : Stopped s) (hc : ctl.Settles c)
    (hm : (s.ports i).mapped = true) (hp : (s.ports i).present = true) :
    (forceRound ctl i s).Returns fun s' ↦ Stopped s' ∧ s'.ports = s.ports := by
  obtain ⟨p, hport⟩ : ∃ p, PortIdle.forcePort (c i) (s.idlePort i) = .ok p :=
    PortIdle.forcePort_returns (h i)
  rw [forceRound_idlePort hc hm hp] at hport
  cases hround : Initialise.forceRound ctl i s with
  | error e =>
    rw [hround] at hport
    cases hport
  | ok s' =>
    refine .ok ?_
    rcases forceRound_eq_ok hround with rfl | rfl
    · exact ⟨h.access hc, rfl⟩
    · exact ⟨(h.access hc).access hc, rfl⟩

/-- **`ForceHbaIdle` returns** if software has stopped all ports. -/
theorem Stopped.forceHbaIdle (h : Stopped s) (hc : ctl.Settles c) (hen : s.enabled = true)
    (hm : ∀ i, (s.ports i).present = true → (s.ports i).mapped = true) :
    ∃ s', forceHbaIdle ctl s = .ok s' := by
  have hround : ∀ i ∈ List.range 32, ∀ t, Stopped t ∧ t.ports = s.ports →
      ∃ t', (if (t.ports i).present then Initialise.forceRound ctl i t else return t) = .ok t' ∧
        Stopped t' ∧ t'.ports = s.ports := by
    rintro i - t ⟨ht, hports⟩
    by_cases hp : (t.ports i).present = true
    · obtain ⟨t', ht', hstopped, hports'⟩ := ht.forceRound hc (hports ▸ hm i (hports ▸ hp)) hp
      exact ⟨t', (if_pos hp).trans ht', hstopped, hports'.trans hports⟩
    · exact ⟨t, if_neg hp, ht, hports⟩
  obtain ⟨s', hs', -⟩ := Exec.foldlM_returns hround ⟨h, rfl⟩
  refine ⟨s', ?_⟩
  rw [Initialise.forceHbaIdle, kassert, Exec.check_of hen, Exec.ok_bind]
  exact hs'

/-! ## A controller -/

theorem settle_getLsbD (atRest : Engine → Bool) (cmd : BitVec 32) {e : Engine} {k : ℕ}
    (hk : e.control.getLsbD k = true) : (settle atRest cmd).getLsbD k = cmd.getLsbD k := by
  have hcontrol : (settle atRest cmd &&& e.control).getLsbD k = (cmd &&& e.control).getLsbD k :=
    congrArg (BitVec.getLsbD · k) (PortIdle.settle_control atRest)
  simp only [BitVec.getLsbD_and, hk, Bool.and_true] at hcontrol
  exact hcontrol

/-- A controller that does nothing but stop engines. -/
def settling (c : ℕ → PortIdle.Controller) : Controller where
  act n h :=
    { h with ports := fun i ↦ { h.ports i with cmd := settle (c i n) (h.ports i).cmd } }
  pi _ _ := rfl
  bases _ _ _ := ⟨rfl, rfl⟩
  soft n h hq := by
    refine ⟨hq, rfl, rfl, fun i ↦ ?_⟩
    have hst := settle_getLsbD (c i n) (h.ports i).cmd (e := .command) (k := 0) (by decide)
    have hfre := settle_getLsbD (c i n) (h.ports i).cmd (e := .fis) (k := 4) (by decide)
    simp only [Registers.soft, hst, hfre]

theorem settling_settles (c : ℕ → PortIdle.Controller) : (settling c).Settles c :=
  fun _ _ _ ↦ rfl

theorem settling_steady (c : ℕ → PortIdle.Controller) : (settling c).Steady := fun _ _ _ ↦ rfl

end Chisaka.Ahci.Initialise
