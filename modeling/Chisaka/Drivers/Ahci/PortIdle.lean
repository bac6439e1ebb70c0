import Mathlib.Tactic.Common
import Chisaka.Lib.Bits
import Chisaka.Lib.Exec

/-!
# Stopping a port

The command register of a port has two pairs of bits: software runs an `Engine` with the one, and
the controller says with the other whether it still runs.  `ForceIdle` should stop both engines, so
that `Idle` holds.

The register belongs to the controller too, which may change it whenever software is not looking.
So it is embedded with a `Controller`, which says for every access to the register which engines
have come to rest by then, and the running bit of such an engine is cleared if software has cleared
the other one (`settle`).

`ForceIdle` clears the bits in a copy of the register, and waits for the copy.  `forcesIdle_iff`
says what is left of it: the port is idle afterwards if software had stopped it before.

A port is here its command register, and the rest of it, and of the controller, is in `Initialise`
(`PortViews`).
-/

set_option autoImplicit false

namespace Chisaka.Ahci.PortIdle

/-! ## The command register -/

/-- `CMD_ST`. -/
def cmdSt : BitVec 32 := 0x00000001

/-- `CMD_FRE`. -/
def cmdFre : BitVec 32 := 0x00000010

/-- `CMD_FR`. -/
def cmdFr : BitVec 32 := 0x00004000

/-- `CMD_CR`. -/
def cmdCr : BitVec 32 := 0x00008000

/-- The two engines of a port: the one for commands, and the one for received frames. -/
inductive Engine
  | command
  | fis
  deriving DecidableEq

namespace Engine

/-- The bit with which software runs the engine. -/
def control : Engine → BitVec 32
  | command => cmdSt
  | fis => cmdFre

/-- The bit with which the controller says that it runs. -/
def running : Engine → BitVec 32
  | command => cmdCr
  | fis => cmdFr

end Engine

/-- Which engines have come to rest before an access to the register. -/
abbrev Controller := ℕ → Engine → Bool

/-- The running bit of an engine at rest is cleared, if software has cleared the other bit. -/
def settleEngine (atRest : Engine → Bool) (e : Engine) (cmd : BitVec 32) : BitVec 32 :=
  if atRest e = true ∧ cmd &&& e.control = 0 then cmd &&& ~~~e.running else cmd

/-- What the controller does to the register before an access. -/
def settle (atRest : Engine → Bool) (cmd : BitVec 32) : BitVec 32 :=
  settleEngine atRest .fis (settleEngine atRest .command cmd)

/-! ## A port -/

/-- `AhciPort`, as far as its command register goes. -/
structure Port where
  /-- `m_present`. -/
  present : Bool
  /-- The command register. -/
  cmd : BitVec 32
  /-- How often it was accessed. -/
  accesses : ℕ
  deriving DecidableEq

/-- An access to the command register. -/
def access (ctl : Controller) (p : Port) : Port :=
  { p with cmd := settle (ctl p.accesses) p.cmd, accesses := p.accesses + 1 }

/-- `CommandStatus`, when it is read. -/
def commandStatus (ctl : Controller) (p : Port) : BitVec 32 × Port :=
  ((access ctl p).cmd, access ctl p)

/-- `COMBINED_MASK`. -/
def combinedMask : BitVec 32 := cmdSt ||| cmdFre ||| cmdFr ||| cmdCr

/-- `Idle`. -/
def idle (ctl : Controller) (p : Port) : Bool × Port :=
  let (cmdstatus, p) := commandStatus ctl p
  (if cmdstatus &&& combinedMask ≠ 0 then false else true, p)

/-- The loop that waits for a bit of `cmdstatus`, which is a variable of `ForceIdle`: nobody else
changes it. -/
def waitBody (cmdstatus bit : BitVec 32) (_ : Unit) : Exec (Unit ⊕ Unit) :=
  if cmdstatus &&& bit ≠ 0 then return .inl () else return .inr ()

/-- What `ForceIdle` does for an engine, with the variable `cmdstatus`. -/
def forceEngine (e : Engine) (cmdstatus : BitVec 32) : Exec (BitVec 32) :=
  if cmdstatus &&& e.control ≠ 0 then do
    let cmdstatus := cmdstatus &&& ~~~e.control
    Loop.exec (waitBody cmdstatus e.running) ()
    return cmdstatus
  else return cmdstatus

/-- `ForceIdle`. -/
def forceIdle (ctl : Controller) (p : Port) : Exec Port := do
  let (cmdstatus, p) := commandStatus ctl p
  let cmdstatus ← forceEngine .command cmdstatus
  let _ ← forceEngine .fis cmdstatus
  return p

/-! ## The ports of the driver -/

/-- `AhciDriver`, as far as the command registers of its ports go. -/
structure Hba where
  /-- `AhciEnabled`. -/
  enabled : Bool
  /-- `m_ports`. -/
  ports : ℕ → Port

/-- `HbaIdle`. -/
def hbaIdle (ctl : ℕ → Controller) (h : Hba) : Bool :=
  (List.range 32).all fun i ↦ !(h.ports i).present || (idle (ctl i) (h.ports i)).1

/-- What `ForceHbaIdle` does for a port. -/
def forcePort (ctl : Controller) (p : Port) : Exec Port :=
  if p.present = true then
    let (isIdle, p) := idle ctl p
    if isIdle then return p else forceIdle ctl p
  else return p

/-- `ForceHbaIdle`. -/
def forceHbaIdle (ctl : ℕ → Controller) (h : Hba) : Exec Hba := do
  Exec.check (h.enabled = true)
  let ports ← (List.range 32).foldlM (fun ports i ↦ do
    let p ← forcePort (ctl i) (ports i)
    return Function.update ports i p) h.ports
  return { h with ports := ports }

/-! ## What it should do -/

/-- `ForceIdle` returns, and then `Idle` holds. -/
def ForcesIdle (ctl : Controller) (p : Port) : Prop :=
  ∃ p', forceIdle ctl p = .ok p' ∧ (idle ctl p').1 = true

/-- `ForceHbaIdle` returns, and then `HbaIdle` holds. -/
def ForcesHbaIdle (ctl : ℕ → Controller) (h : Hba) : Prop :=
  ∃ h', forceHbaIdle ctl h = .ok h' ∧ hbaIdle ctl h' = true

/-- Software has stopped both engines of the port, and after `n` accesses they do not run. -/
def Quiet (ctl : Controller) (n : ℕ) (p : Port) : Prop :=
  ∀ e : Engine, p.cmd &&& e.control = 0 ∧
    (p.cmd &&& e.running = 0 ∨ ∃ k < n, ctl (p.accesses + k) e = true)

/-! ## What it does -/

variable {ctl : Controller} {p p' : Port} {cmd cmd' : BitVec 32} {e e' : Engine} {n m : ℕ}

/-- The controller leaves the bits of software alone. -/
theorem settleEngine_control (atRest : Engine → Bool) :
    settleEngine atRest e cmd &&& e'.control = cmd &&& e'.control := by
  rw [settleEngine]
  split
  · exact Bits.and_not_and (by cases e <;> cases e' <;> rfl)
  · rfl

theorem settleEngine_running_of_ne (atRest : Engine → Bool) (h : e ≠ e') :
    settleEngine atRest e cmd &&& e'.running = cmd &&& e'.running := by
  rw [settleEngine]
  split
  · refine Bits.and_not_and ?_
    cases e <;> cases e' <;> first | rfl | exact absurd rfl h
  · rfl

theorem settleEngine_running (atRest : Engine → Bool) :
    settleEngine atRest e cmd &&& e.running = 0 ↔
      cmd &&& e.running = 0 ∨ atRest e = true ∧ cmd &&& e.control = 0 := by
  rw [settleEngine]
  split
  · rename_i h
    refine iff_of_true ?_ (.inr h)
    exact Bits.and_not_and_self
  · rename_i h
    rw [or_iff_left h]

theorem settle_control (atRest : Engine → Bool) :
    settle atRest cmd &&& e.control = cmd &&& e.control := by
  rw [settle, settleEngine_control, settleEngine_control]

/-- **An engine runs until it has come to rest** after software has stopped it. -/
theorem settle_running (atRest : Engine → Bool) : settle atRest cmd &&& e.running = 0 ↔
    cmd &&& e.running = 0 ∨ atRest e = true ∧ cmd &&& e.control = 0 := by
  rw [settle]
  cases e with
  | command => rw [settleEngine_running_of_ne _ (by decide), settleEngine_running]
  | fis =>
    rw [settleEngine_running, settleEngine_control, settleEngine_running_of_ne _ (by decide)]

/-- An access is one of the accesses that a port needs to be quiet. -/
theorem quiet_access : Quiet ctl n (access ctl p) ↔ Quiet ctl (n + 1) p := by
  refine forall_congr' fun e ↦ ?_
  rw [access, settle_control, settle_running, Nat.exists_lt_succ_left]
  simp only [Nat.add_zero, Nat.add_assoc, Nat.add_comm 1]
  tauto

/-- A port that is quiet stays so. -/
theorem Quiet.mono (h : Quiet ctl n p) (hn : n ≤ m) : Quiet ctl m p := fun e ↦
  ⟨(h e).1, (h e).2.imp_right fun ⟨k, hk, hctl⟩ ↦ ⟨k, Nat.lt_of_lt_of_le hk hn, hctl⟩⟩

theorem and_combinedMask : cmd &&& combinedMask = 0 ↔
    ∀ e : Engine, cmd &&& e.control = 0 ∧ cmd &&& e.running = 0 := by
  have hmask : cmd &&& combinedMask = 0 ↔ ((cmd &&& cmdSt = 0 ∧ cmd &&& cmdFre = 0) ∧
      cmd &&& cmdFr = 0) ∧ cmd &&& cmdCr = 0 := by
    rw [combinedMask, BitVec.and_or_distrib_left, BitVec.and_or_distrib_left,
      BitVec.and_or_distrib_left]
    exact BitVec.or_eq_zero_iff.trans (and_congr_left' (BitVec.or_eq_zero_iff.trans
      (and_congr_left' BitVec.or_eq_zero_iff)))
  rw [hmask]
  constructor
  · rintro ⟨⟨⟨hst, hfre⟩, hfr⟩, hcr⟩ e
    cases e with
    | command => exact ⟨hst, hcr⟩
    | fis => exact ⟨hfre, hfr⟩
  · intro h
    exact ⟨⟨⟨(h .command).1, (h .fis).1⟩, (h .fis).2⟩, (h .command).2⟩

/-- **`Idle` holds of a port that is quiet by the time it looks.** -/
theorem idle_iff : (idle ctl p).1 = true ↔ Quiet ctl 1 p := by
  have h0 : (access ctl p).cmd &&& combinedMask = 0 ↔ Quiet ctl 0 (access ctl p) := by
    rw [and_combinedMask, Quiet]
    simp
  rw [← quiet_access, ← h0, idle, commandStatus]
  simp

/-! ### Stopping a port -/

/-- The copy has the running bit as it was. -/
theorem and_not_control_running :
    cmd &&& ~~~e.control &&& e'.running = cmd &&& e'.running :=
  Bits.and_not_and (by cases e <;> cases e' <;> rfl)

theorem and_not_control_control (h : e ≠ e') :
    cmd &&& ~~~e.control &&& e'.control = cmd &&& e'.control := by
  refine Bits.and_not_and ?_
  cases e <;> cases e' <;> first | rfl | exact absurd rfl h

/-- Nothing is done for an engine that software has stopped. -/
theorem forceEngine_of_stopped (h : cmd &&& e.control = 0) : forceEngine e cmd = .ok cmd :=
  if_neg (not_not.mpr h)

/-- The wait for an engine that does not run is over at once. -/
theorem forceEngine_of_atRest (hc : cmd &&& e.control ≠ 0) (hr : cmd &&& e.running = 0) :
    forceEngine e cmd = .ok (cmd &&& ~~~e.control) := by
  have hwait : waitBody (cmd &&& ~~~e.control) e.running () = .ok (.inr ()) := by
    rw [waitBody, and_not_control_running, if_neg (not_not.mpr hr)]
    rfl
  rw [forceEngine, if_pos hc]
  simp only [Loop.exec_inr hwait, Exec.ok_bind, Exec.pure_eq]

/-- **The wait for an engine that runs is never over**, as the copy does not change. -/
theorem forceEngine_diverges (hc : cmd &&& e.control ≠ 0) (hr : cmd &&& e.running ≠ 0) :
    forceEngine e cmd = .error .diverges := by
  have hwait : Loop.exec (waitBody (cmd &&& ~~~e.control) e.running) () = .error .diverges := by
    refine Loop.run_diverges (fun _ ↦ True) (fun _ _ ↦ ⟨(), ?_, trivial⟩) _ trivial
    rw [waitBody, and_not_control_running, if_pos hr]
    rfl
  rw [forceEngine, if_pos hc]
  simp only [hwait, Exec.error_bind]

/-- `ForceIdle` gets past an engine that is stopped or at rest, and past no other. -/
theorem forceEngine_spec :
    (∃ cmd', forceEngine e cmd = .ok cmd') ↔ cmd &&& e.control = 0 ∨ cmd &&& e.running = 0 := by
  by_cases hc : cmd &&& e.control = 0
  · exact iff_of_true ⟨cmd, forceEngine_of_stopped hc⟩ (.inl hc)
  by_cases hr : cmd &&& e.running = 0
  · exact iff_of_true ⟨_, forceEngine_of_atRest hc hr⟩ (.inr hr)
  · rw [forceEngine_diverges hc hr]
    exact iff_of_false (fun ⟨_, h⟩ ↦ nomatch h) (not_or.mpr ⟨hc, hr⟩)

/-- It leaves the bits of the other engine as they were. -/
theorem forceEngine_frame (e' : Engine) (h : forceEngine e cmd = .ok cmd') (he : e ≠ e') :
    cmd' &&& e'.control = cmd &&& e'.control ∧ cmd' &&& e'.running = cmd &&& e'.running := by
  rw [forceEngine] at h
  split at h
  · obtain ⟨-, -, h⟩ := Exec.bind_eq_ok.mp h
    obtain rfl := Except.ok.inj h
    exact ⟨and_not_control_control he, and_not_control_running⟩
  · obtain rfl := Except.ok.inj h
    exact ⟨rfl, rfl⟩

/-- **`ForceIdle` returns** if no engine runs that software has not stopped, and it does not write
the register. -/
theorem forceIdle_eq_ok : forceIdle ctl p = .ok p' ↔
    (∀ e : Engine, (access ctl p).cmd &&& e.control = 0 ∨ (access ctl p).cmd &&& e.running = 0) ∧
      p' = access ctl p := by
  rw [forceIdle, commandStatus]
  generalize access ctl p = q
  constructor
  · intro h
    obtain ⟨cmd₁, h₁, h⟩ := Exec.bind_eq_ok.mp h
    obtain ⟨cmd₂, h₂, h⟩ := Exec.bind_eq_ok.mp h
    obtain ⟨hcontrol, hrunning⟩ := forceEngine_frame .fis h₁ (by decide)
    refine ⟨fun e ↦ ?_, (Except.ok.inj h).symm⟩
    cases e with
    | command => exact forceEngine_spec.mp ⟨cmd₁, h₁⟩
    | fis => rw [← hcontrol, ← hrunning]; exact forceEngine_spec.mp ⟨cmd₂, h₂⟩
  · rintro ⟨hq, rfl⟩
    obtain ⟨cmd₁, h₁⟩ := forceEngine_spec.mpr (hq .command)
    obtain ⟨hcontrol, hrunning⟩ := forceEngine_frame .fis h₁ (by decide)
    obtain ⟨cmd₂, h₂⟩ : ∃ cmd₂, forceEngine .fis cmd₁ = .ok cmd₂ := by
      rw [forceEngine_spec, hcontrol, hrunning]
      exact hq .fis
    simp only [h₁, h₂, Exec.ok_bind, Exec.pure_eq]

/-- A port that software has stopped gets through `ForceIdle`. -/
theorem Quiet.forceIdle (h : Quiet ctl n p) : forceIdle ctl p = .ok (access ctl p) :=
  forceIdle_eq_ok.mpr ⟨fun e ↦ .inl ((settle_control _).trans (h e).1), rfl⟩

theorem forcesIdle_port : ForcesIdle ctl p ↔ Quiet ctl 2 p := by
  constructor
  · rintro ⟨p', hp', hidle⟩
    rw [(forceIdle_eq_ok.mp hp').2, idle_iff] at hidle
    exact quiet_access.mp hidle
  · intro h
    exact ⟨access ctl p, h.forceIdle, idle_iff.mpr (quiet_access.mpr h)⟩

/-- What `ForceHbaIdle` does for a port makes it idle if the port is quiet by then. -/
theorem forcePort_spec (hp : p.present = true) :
    (∃ p', forcePort ctl p = .ok p' ∧ (idle ctl p').1 = true) ↔ Quiet ctl 3 p := by
  have hidle : (idle ctl p).2 = access ctl p := rfl
  rw [forcePort, if_pos hp]
  simp only [hidle]
  by_cases h : (idle ctl p).1 = true
  · have h1 := idle_iff.mp h
    refine iff_of_true ⟨access ctl p, if_pos h, idle_iff.mpr ?_⟩ (h1.mono (by decide))
    exact quiet_access.mpr (h1.mono (by decide))
  · simp only [if_neg h]
    exact forcesIdle_port.trans quiet_access

/-- What `ForceHbaIdle` does for a port returns if software has stopped it, even if it still
runs. -/
theorem forcePort_returns (hstopped : ∀ e : Engine, p.cmd &&& e.control = 0) :
    ∃ p', forcePort ctl p = .ok p' := by
  rw [forcePort]
  split
  · simp only
    split
    · exact ⟨_, rfl⟩
    · have hcontrol (e : Engine) : (access ctl (idle ctl p).2).cmd &&& e.control = 0 :=
        (settle_control _).trans ((settle_control _).trans (hstopped e))
      exact ⟨_, forceIdle_eq_ok.mpr ⟨fun e ↦ .inl (hcontrol e), rfl⟩⟩
  · exact ⟨p, rfl⟩

theorem forcePort_present (h : forcePort ctl p = .ok p') : p'.present = p.present := by
  rw [forcePort] at h
  split at h
  · simp only at h
    split at h
    · rw [← Except.ok.inj h]
      rfl
    · rw [(forceIdle_eq_ok.mp h).2]
      rfl
  · rw [← Except.ok.inj h]

theorem hbaIdle_iff {ctl : ℕ → Controller} {h : Hba} : hbaIdle ctl h = true ↔
    ∀ i < 32, (h.ports i).present = true → (idle (ctl i) (h.ports i)).1 = true := by
  rw [hbaIdle, List.all_eq_true]
  refine forall_congr' fun i ↦ ?_
  rw [List.mem_range]
  cases (h.ports i).present <;> simp

theorem forcesHbaIdle_iff {ctl : ℕ → Controller} {h : Hba} (hen : h.enabled = true) :
    ForcesHbaIdle ctl h ↔
      ∀ i < 32, (h.ports i).present = true → Quiet (ctl i) 3 (h.ports i) := by
  constructor
  · rintro ⟨h', hh', hidle⟩ i hi hpres
    obtain ⟨-, -, hh'⟩ := Exec.bind_eq_ok.mp hh'
    obtain ⟨ports, hports, hh'⟩ := Exec.bind_eq_ok.mp hh'
    obtain rfl := Except.ok.inj hh'
    have hport := (Exec.foldlM_range_update.mp hports).1 i hi
    refine (forcePort_spec hpres).mp ⟨ports i, hport, hbaIdle_iff.mp hidle i hi ?_⟩
    exact (forcePort_present hport).trans hpres
  · intro hq
    have hport : ∀ i, ∃ p', (i < 32 → forcePort (ctl i) (h.ports i) = .ok p' ∧
        (p'.present = true → (idle (ctl i) p').1 = true)) ∧ (32 ≤ i → p' = h.ports i) := by
      intro i
      by_cases hi : i < 32
      · by_cases hpres : (h.ports i).present = true
        · obtain ⟨p', hp', hidle⟩ := (forcePort_spec hpres).mpr (hq i hi hpres)
          exact ⟨p', fun _ ↦ ⟨hp', fun _ ↦ hidle⟩, fun h ↦ absurd hi (Nat.not_lt.mpr h)⟩
        · exact ⟨h.ports i, fun _ ↦ ⟨if_neg hpres, fun h ↦ absurd h hpres⟩, fun _ ↦ rfl⟩
      · exact ⟨h.ports i, fun h ↦ absurd h hi, fun _ ↦ rfl⟩
    choose ports hports using hport
    have hloop := Exec.foldlM_range_update.mpr
      ⟨fun i hi ↦ ((hports i).1 hi).1, fun i hi ↦ (hports i).2 hi⟩
    refine ⟨{ h with ports := ports }, ?_, hbaIdle_iff.mpr fun i hi ↦ ((hports i).1 hi).2⟩
    rw [forceHbaIdle, Exec.check_of hen, Exec.ok_bind, hloop]
    rfl

/-- **`ForceIdle` makes a port idle exactly when software had stopped it already**, and the engines
come to rest before `Idle` looks; and so does `ForceHbaIdle` for the ports that are present. -/
theorem forcesIdle_iff (ctl : Controller) (p : Port) (ctls : ℕ → Controller) (h : Hba)
    (hen : h.enabled = true) :
    (ForcesIdle ctl p ↔ Quiet ctl 2 p) ∧ (ForcesHbaIdle ctls h ↔
      ∀ i < 32, (h.ports i).present = true → Quiet (ctls i) 3 (h.ports i)) :=
  ⟨forcesIdle_port, forcesHbaIdle_iff hen⟩

/-- A controller whose engines are always at rest. -/
def prompt : Controller := fun _ _ ↦ true

/-- A port with the command engine running, as software wants it. -/
def runningPort : Port := ⟨true, 0x8001, 0⟩

/-- A driver whose ports are all like this. -/
def runningHba : Hba := ⟨true, fun _ ↦ runningPort⟩

theorem forcesIdle_iff_runningPort :
    (ForcesIdle prompt runningPort ↔ Quiet prompt 2 runningPort) ∧
      (ForcesHbaIdle (fun _ ↦ prompt) runningHba ↔ ∀ i < 32,
        (runningHba.ports i).present = true → Quiet prompt 3 (runningHba.ports i)) :=
  forcesIdle_iff prompt runningPort (fun _ ↦ prompt) runningHba rfl

/-- **Waiting for the copy of a running port** does not end, however prompt the controller is. -/
theorem not_forcesIdle_runningPort : ¬∀ (ctl : Controller) (p : Port),
    (∀ (e : Engine) (n : ℕ), ∃ k, n ≤ k ∧ ctl k e = true) → ForcesIdle ctl p := by
  intro h
  obtain ⟨p', hp', -⟩ := h prompt runningPort fun _ n ↦ ⟨n, Nat.le_refl n, rfl⟩
  rcases (forceIdle_eq_ok.mp hp').1 .command with h0 | h0 <;> revert h0 <;> decide

end Chisaka.Ahci.PortIdle
