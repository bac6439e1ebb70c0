import Chisaka.Drivers.Ahci.InitialiseSteps

/-!
# What `Initialise` leaves

The order of the steps of `Initialise` decides what they do.  AHCI mode is enabled before the reset
and not again; and whether the ports are idle is asked before any port was found, so that no port is
asked (`hbaIdle_of_absent`), and none is ever stopped.  Behind the reset come loops over the ports.

`initialise_leaves` puts the steps together: with a controller that is found and ends its reset
`Initialise` returns, and `BroughtUp` is what it leaves of the ports and of the controller.
-/

set_option autoImplicit false

namespace Chisaka.Ahci.Initialise

open PageAllocators
open Drivers.Pci (formConfigAddress)
open AhciDriver (PortMemory)

variable {ctl : Controller} {s s' : State} {i : ℕ} {pi : BitVec 32}

/-! ## The reset -/

/-- What a reset leaves. -/
structure Kept (s s' : State) : Prop where
  /-- `m_present`. -/
  present : s'.present = s.present
  /-- `m_enabled`. -/
  enabled : s'.enabled = s.enabled
  /-- What the driver remembers of the ports. -/
  ports : s'.ports = s.ports
  /-- The page allocator. -/
  fl : s'.fl = s.fl
  /-- The ports that are implemented. -/
  pi : s'.hba.pi = s.hba.pi
  /-- The bases of the command lists. -/
  clistb : ∀ i, (s'.hba.ports i).clistb = (s.hba.ports i).clistb
  /-- The bases of the received frames. -/
  fisb : ∀ i, (s'.hba.ports i).fisb = (s.hba.ports i).fisb

theorem Kept.trans {s'' : State} (h : Kept s s') (h' : Kept s' s'') : Kept s s'' where
  present := h'.present.trans h.present
  enabled := h'.enabled.trans h.enabled
  ports := h'.ports.trans h.ports
  fl := h'.fl.trans h.fl
  pi := h'.pi.trans h.pi
  clistb i := (h'.clistb i).trans (h.clistb i)
  fisb i := (h'.fisb i).trans (h.fisb i)

theorem access_kept (s : State) : Kept s (access ctl s) :=
  ⟨rfl, rfl, rfl, rfl, ctl.pi _ _, fun i ↦ (ctl.bases _ _ i).1, fun i ↦ (ctl.bases _ _ i).2⟩

theorem setGhc_kept (val : BitVec 32) (s : State) : Kept s (setGhc ctl val s) :=
  (access_kept s).trans ⟨rfl, rfl, rfl, rfl, rfl, fun _ ↦ rfl, fun _ ↦ rfl⟩

/-- **Waiting** for a bit of `ghc` that comes within `n` accesses. -/
theorem waitGhc_returns (b : ℕ) (v : Bool) : ∀ {n k : ℕ} {s : State}, k < n →
    ((access ctl)^[k + 1] s).hba.ghc.getLsbD b = v →
      (Loop.run (waitGhc ctl b v) n s).Returns fun s' ↦ Kept s s' ∧ s'.hba.ghc.getLsbD b = v := by
  intro n
  induction n with
  | zero => exact fun hk _ ↦ absurd hk (Nat.not_lt_zero _)
  | succ n ih =>
    intro k s hk hv
    by_cases hnow : (access ctl s).hba.ghc.getLsbD b = v
    · have hbody : waitGhc ctl b v s = .ok (.inr (access ctl s)) := if_pos hnow
      rw [Loop.run_inr hbody]
      exact .ok ⟨access_kept s, hnow⟩
    · have hbody : waitGhc ctl b v s = .ok (.inl (access ctl s)) := if_neg hnow
      rw [Loop.run_inl hbody]
      cases k with
      | zero => exact absurd hv hnow
      | succ k =>
        refine (ih (Nat.lt_of_succ_lt_succ hk) hv).mono fun s' ⟨hkept, hbit⟩ ↦ ?_
        exact ⟨(access_kept s).trans hkept, hbit⟩

/-- A reset ends within `rounds` accesses. -/
def Resets (ctl : Controller) (rounds : ℕ) : Prop :=
  ∀ s : State, ∃ k < rounds, ((access ctl)^[k + 1] s).hba.ghc.getLsbD 0 = false

variable {inl : BitVec 32 → BitVec 32} {rounds : ℕ}

/-- **`Enable` returns at once**: the bit it waits for is its own. -/
theorem enable_returns (hr : 0 < rounds) (h : Quiet s) (hp : s.present = true) :
    (enable ctl rounds s).Returns (Kept { s with enabled := true }) := by
  refine .check hp ?_
  have hone : Kept s (access ctl s) := access_kept s
  change (if (ghc ctl s).1 &&& 0x80000000 ≠ 0 then (_ : Exec State) else _).Returns _
  by_cases hmode : (ghc ctl s).1 &&& 0x80000000 ≠ 0
  · rw [if_pos hmode]
    exact .ok ⟨hone.present, rfl, hone.ports, hone.fl, hone.pi, hone.clistb, hone.fisb⟩
  · rw [if_neg hmode]
    let val := (access ctl (access ctl s)).hba.ghc
    let t := setGhc ctl (val ||| 0x80000000) (access ctl (access ctl s))
    have hkept : Kept s t := (hone.trans (access_kept _)).trans (setGhc_kept _ _)
    have hval : val.getLsbD 0 = false := (access_same (access_same h).quiet).quiet
    have hquiet : Quiet t := by
      change (val ||| 0x80000000).getLsbD 0 = false
      rw [BitVec.getLsbD_or, hval]
      rfl
    have hset : t.hba.ghc.getLsbD 31 = true := by
      change (val ||| 0x80000000).getLsbD 31 = true
      rw [BitVec.getLsbD_or]
      exact Bool.or_true _
    have hstays : ((access ctl)^[0 + 1] t).hba.ghc.getLsbD 31 = true :=
      (access_same hquiet).mode.trans hset
    refine (waitGhc_returns 31 true hr hstays).bind fun s' ⟨hs', _⟩ ↦ .ok ?_
    have hall := hkept.trans hs'
    exact ⟨hall.present, rfl, hall.ports, hall.fl, hall.pi, hall.clistb, hall.fisb⟩

theorem resetController_returns (hr : Resets ctl rounds) (hp : s.present = true) :
    (resetController ctl rounds s).Returns fun s' ↦ Kept s s' ∧ Quiet s' := by
  refine .check hp ?_
  let t := setGhc ctl ((access ctl s).hba.ghc ||| 1) (access ctl s)
  have hkept : Kept s t := (access_kept s).trans (setGhc_kept _ _)
  obtain ⟨k, hk, hend⟩ := hr t
  exact (waitGhc_returns 0 false hk hend).mono fun s' ⟨hs', hbit⟩ ↦ ⟨hkept.trans hs', hbit⟩

/-- **The reset is over**, and what the driver knew before is as it was. -/
theorem initReset_returns (hclass : inl (formConfigAddress true 0 31 2 0x08) >>> 8 = 0x010601)
    (hr : Resets ctl rounds) (h : Quiet s) :
    (initReset ctl inl rounds s).Returns fun r ↦
      Kept { s with present := true, enabled := true } r ∧ Quiet r := by
  obtain ⟨k, hk, -⟩ := hr s
  have hpresent : initPresent inl s = .ok { s with present := true } := by
    rw [initPresent, hclass]
    rfl
  have habar : initAbar inl { s with present := true } = .ok { s with
      present := true, abar := (inl (formConfigAddress true 0 31 2 0x24)).setWidth 64 } := rfl
  rw [initReset, hpresent, Exec.ok_bind, habar, Exec.ok_bind, initMMIOBase, kassert,
    Exec.check_of rfl, Exec.ok_bind, Exec.pure_eq, Exec.ok_bind]
  refine (enable_returns (Nat.zero_lt_of_lt hk) ?_ ?_).bind fun t ht ↦ ?_
  · exact h
  · rfl
  refine (resetController_returns hr ht.present).mono ?_
  rintro r ⟨hkept, hquiet⟩
  have hall := ht.trans hkept
  refine ⟨?_, hquiet⟩
  exact ⟨hall.present, hall.enabled, hall.ports, hall.fl, hall.pi, hall.clistb, hall.fisb⟩

/-! ## Ports and memory -/

/-- **No port is asked** whether it is idle, if none has been found yet. -/
theorem hbaIdle_of_absent (h : ∀ i, (s.ports i).present = false) :
    hbaIdle ctl s = .ok (true, s) := by
  obtain ⟨r, hr, rfl⟩ : (hbaIdle ctl s).Returns fun r ↦ r = (true, s) := by
    refine Exec.Returns.foldlM_range (I := fun _ r ↦ r = (true, s)) rfl ?_
    rintro i - _ rfl
    dsimp only
    rw [h i]
    exact .ok rfl
  exact hr

/-- A port that was found. -/
def View.withPort (v : View) : View :=
  { v with port := { v.port with mapped := true, present := true } }

theorem initPorts_spec (h : Quiet s) : Same s (initPorts ctl s) ∧ ∀ i,
    (initPorts ctl s).view i = if s.hba.pi.getLsbD i then (s.view i).withPort else s.view i := by
  have hsame : Same s (access ctl s) := access_same h
  rw [initPorts_eq]
  refine ⟨⟨⟨hsame.quiet, hsame.interrupts, hsame.mode, rfl⟩, rfl, rfl⟩, fun i ↦ ?_⟩
  have hpi : (access ctl s).hba.pi = s.hba.pi := ctl.pi _ _
  have hsoft : ((access ctl s).hba.ports i).soft = (s.hba.ports i).soft :=
    congrArg View.soft (congrFun (access_view h) i)
  simp only [State.view, hpi, hsoft]
  by_cases hi : s.hba.pi.getLsbD i = true
  · rw [if_pos hi, if_pos hi]
    rfl
  · rw [if_neg hi, if_neg hi]

/-- **What `InitMemory` does to each port**: of the first four, those that are present get the page
for the received frames as their command list, and nothing else changes. -/
theorem initMemory_ports {d : AhciDriver} {fl : Freelist} {m : AhciDriver.MemoryState}
    (h : d.initMemory fl = .ok m) (i : ℕ) :
    (i < 4 ∧ (d.ports i).present = true → ∃ r, ∃ e ∈ m.printed, e.port = i ∧
      (d.ports i).registers = some r ∧ m.driver.ports i = { d.ports i with
        registers := some { r with clistb := BitVec.ofNat 32 e.portFisBase } }) ∧
    (¬(i < 4 ∧ (d.ports i).present = true) → m.driver.ports i = d.ports i) := by
  obtain ⟨-, -, h⟩ := Exec.bind_eq_ok.mp h
  refine Exec.foldlM_range_induct (I := fun k (m : AhciDriver.MemoryState) ↦
    (i < k ∧ (d.ports i).present = true → ∃ r, ∃ e ∈ m.printed, e.port = i ∧
      (d.ports i).registers = some r ∧ m.driver.ports i = { d.ports i with
        registers := some { r with clistb := BitVec.ofNat 32 e.portFisBase } }) ∧
    (¬(i < k ∧ (d.ports i).present = true) → m.driver.ports i = d.ports i))
    ⟨fun hi ↦ absurd hi.1 (Nat.not_lt_zero i), fun _ ↦ rfl⟩ ?_ h
  rintro k - m m' ⟨hdone, hstays⟩ hstep
  by_cases hik : i = k
  · subst hik
    have hport : m.driver.ports i = d.ports i := hstays fun hi ↦ Nat.lt_irrefl i hi.1
    rcases AhciDriver.initPortMemory_cases hstep with ⟨hp, rfl⟩ | ⟨hp, r, c, f, fl', hr, rfl⟩
    · rw [hport] at hp
      exact ⟨fun hi ↦ absurd (hp.symm.trans hi.2) Bool.false_ne_true, fun _ ↦ hport⟩
    · rw [hport] at hp hr
      refine ⟨fun _ ↦ ⟨r, ⟨i, c, f⟩, List.mem_append_right _ List.mem_cons_self, rfl, hr, ?_⟩,
        fun hi ↦ absurd ⟨Nat.lt_succ_self i, hp⟩ hi⟩
      rw [AhciDriver.ports_setPort, Function.update_self, hport]
  · have hlt : i < k + 1 ↔ i < k := by omega
    rcases AhciDriver.initPortMemory_cases hstep with ⟨-, rfl⟩ | ⟨-, r, c, f, fl', -, rfl⟩
    · rw [hlt]
      exact ⟨hdone, hstays⟩
    · rw [AhciDriver.ports_setPort, Function.update_of_ne hik, hlt]
      refine ⟨fun hi ↦ ?_, hstays⟩
      obtain ⟨r, e, he, hrest⟩ := hdone hi
      exact ⟨r, e, List.mem_append_left _ he, hrest⟩

/-- Another base of the command list. -/
def View.withClistb (clistb : BitVec 32) (v : View) : View :=
  { v with soft := { v.soft with clistb := clistb } }

/-- The base of the command list of port `i`, after `InitMemory` has printed these pages. -/
def HasClistb (pi : BitVec 32) (printed : List PortMemory) (i : ℕ) (old new : BitVec 32) : Prop :=
  (i < 4 ∧ pi.getLsbD i = true →
    ∃ e ∈ printed, e.port = i ∧ new = BitVec.ofNat 32 e.portFisBase) ∧
  (¬(i < 4 ∧ pi.getLsbD i = true) → new = old)

/-- **With the page allocator of a well-formed memory map `InitMemory` returns**, and changes
nothing but bases of command lists. -/
theorem initMemory_returns {m : MemoryMap} {run : Run} {a : Pool} (hm : m.Wellformed)
    (ht : m.BelowTop) (hr : Represents m run a) (hfl : s.fl = run.fl) (h : Quiet s)
    (he : s.enabled = true) (hfound : Found pi s) :
    (initMemory ctl s).Returns fun s' ↦ SameHost s s' ∧ Found pi s' ∧ ∀ i, ∃ clistb,
      s'.view i = (s.view i).withClistb clistb ∧
        HasClistb pi s'.printed i (s.view i).soft.clistb clistb := by
  let t := access ctl s
  have hsame : Same s t := access_same h
  have hview : t.view = s.view := access_view h
  have hregs : ∀ i < 4, (t.driver.ports i).present = true →
      (t.driver.ports i).registers.isSome := by
    intro i _ hp
    have hmapped : (t.ports i).mapped = true := (hfound i).2.trans ((hfound i).1.symm.trans hp)
    change (if (t.ports i).mapped then some _ else none).isSome = true
    rw [if_pos hmapped]
    rfl
  obtain ⟨mem, hmem⟩ := AhciDriver.initMemory_returns (d := t.driver) hm ht hr he hregs
  rw [← hfl] at hmem
  have hrun : t.driver.initMemory t.fl = .ok mem := hmem
  have hports := initMemory_ports hmem
  unfold initMemory
  dsimp only
  rw [hrun, Exec.ok_bind]
  refine .ok ⟨⟨hsame.quiet, hsame.interrupts, hsame.mode, hsame.enabled⟩, hfound, fun i ↦ ?_⟩
  have hpresent : (t.driver.ports i).present = pi.getLsbD i := (hfound i).1
  refine ⟨(mem.driver.ports i).registers.elim (t.hba.ports i).clistb PortRegisters.clistb, ?_,
    fun hi ↦ ?_, fun hi ↦ ?_⟩
  · rw [← hview]
    rfl
  · obtain ⟨r, e, he, hport, -, hregs'⟩ := (hports i).1 ⟨hi.1, hpresent.trans hi.2⟩
    rw [hregs']
    exact ⟨e, he, hport, rfl⟩
  · rw [(hports i).2 fun hi' ↦ hi ⟨hi'.1, hpresent.symm.trans hi'.2⟩, ← hview]
    change (if (t.ports i).mapped then some _ else none).elim _ _ = (t.hba.ports i).clistb
    cases (t.ports i).mapped <;> rfl

/-! ## The whole -/

/-- What becomes of port `i`, whose view was `v` at the end of the reset. -/
structure PortUp (pi : BitVec 32) (printed : List PortMemory) (i : ℕ) (v w : View) : Prop where
  /-- A port that is not implemented is as it was. -/
  absent : pi.getLsbD i = false → w = v
  /-- The page for the received frames is not given to the port. -/
  fisb : w.soft.fisb = v.soft.fisb
  /-- The first four ports get it as their command list instead. -/
  clistb : HasClistb pi printed i v.soft.clistb w.soft.clistb
  /-- The port stores received frames, and raises interrupts. -/
  receives : pi.getLsbD i = true → w.port.fre = true ∧ w.soft.fre = true ∧ w.soft.ie = 0xFF
  /-- The engine for commands runs if it was started, or if the reset has left it running. -/
  engine : w.soft.st = (v.soft.st || w.port.dmaRunning)
  /-- It is started for devices only. -/
  running : w.port.dmaRunning = true → w.port.devicePresent = true

/-- **What `Initialise` leaves**, from the state `r` at the end of the reset on. -/
structure BroughtUp (r s : State) : Prop where
  /-- AHCI mode is as the reset has left it. -/
  mode : s.hba.ghc.getLsbD 31 = r.hba.ghc.getLsbD 31
  /-- Interrupts of the controller are enabled. -/
  interrupts : s.hba.ghc.getLsbD 1 = true
  /-- The ports that are present are those that are implemented. -/
  found : Found r.hba.pi s
  /-- The ports. -/
  port : ∀ i, PortUp r.hba.pi s.printed i (r.view i) (s.view i)

/-- A port before its engine is started. -/
def View.ready (clistb : BitVec 32) (found : Bool) (v : View) : View :=
  v.withPort.withClistb clistb |>.withFre |>.withDevice found |>.withIe

variable {printed : List PortMemory} {v w : View} {clistb : BitVec 32} {found : Bool}

theorem PortUp.of_absent (hv : v.port = {}) (hpi : pi.getLsbD i = false) (hw : w = v) :
    PortUp pi printed i v w := by
  subst hw
  have hne : ¬pi.getLsbD i = true := fun hi ↦ Bool.false_ne_true (hpi.symm.trans hi)
  have hrunning : w.port.dmaRunning = false := congrArg Port.dmaRunning hv
  exact
    { absent _ := rfl
      fisb := rfl
      clistb := ⟨fun hi ↦ absurd hi.2 hne, fun _ ↦ rfl⟩
      receives hi := absurd hi hne
      engine := by rw [hrunning, Bool.or_false]
      running hr := absurd (hrunning.symm.trans hr) Bool.false_ne_true }

theorem PortUp.of_ready (hv : v.port = {}) (hpi : pi.getLsbD i = true)
    (hclistb : HasClistb pi printed i v.soft.clistb clistb)
    (hw : ((v.ready clistb found).port.devicePresent = false ∧ w = v.ready clistb found) ∨
      ((v.ready clistb found).port.devicePresent = true ∧
        ∃ running, w = (v.ready clistb found).started running)) :
    PortUp pi printed i v w := by
  have habsent : pi.getLsbD i = false → w = v :=
    fun hi ↦ absurd (hi.symm.trans hpi) Bool.false_ne_true
  rcases hw with ⟨-, rfl⟩ | ⟨hdevice, running, rfl⟩
  · have hrunning : (v.ready clistb found).port.dmaRunning = false := congrArg Port.dmaRunning hv
    exact
      { absent := habsent
        fisb := rfl
        clistb := hclistb
        receives _ := ⟨rfl, rfl, rfl⟩
        engine := by rw [hrunning, Bool.or_false]; rfl
        running hr := absurd (hrunning.symm.trans hr) Bool.false_ne_true }
  · exact
      { absent := habsent
        fisb := rfl
        clistb := hclistb
        receives _ := ⟨rfl, rfl, rfl⟩
        engine := rfl
        running _ := hdevice }

theorem keepsFound_eq {f : View → View} (hf : ∀ v, (f v).port.present = v.port.present ∧
    (f v).port.mapped = v.port.mapped) : KeepsFound fun v w ↦ w = f v := by
  rintro v _ rfl
  exact hf v

theorem clearHBAInterruptStatus_returns (h : Quiet s) (he : s.enabled = true) :
    (clearHBAInterruptStatus ctl s).Returns (Unmoved s) := by
  have hs : Same s (access ctl s) := access_same h
  refine .check he (.ok ⟨⟨⟨hs.quiet, hs.interrupts, hs.mode, rfl⟩, rfl, rfl⟩, ?_⟩)
  exact access_view h

theorem enableHBAInterrupts_returns (h : Quiet s) (he : s.enabled = true) :
    (enableHBAInterrupts ctl s).Returns fun s' ↦ Quiet s' ∧ s'.hba.ghc.getLsbD 1 = true ∧
      s'.hba.ghc.getLsbD 31 = s.hba.ghc.getLsbD 31 ∧ s'.enabled = true ∧
      s'.printed = s.printed ∧ s'.view = s.view := by
  have hs : Same s (access ctl s) := access_same h
  let val := (access ctl s).hba.ghc
  have hbit : ∀ b, (val ||| 0b10).getLsbD b = (val.getLsbD b || (0b10 : BitVec 32).getLsbD b) :=
    fun b ↦ BitVec.getLsbD_or
  refine .check he (.ok ⟨?_, ?_, ?_, he, rfl, ?_⟩)
  · exact (hbit 0).trans (by rw [show val.getLsbD 0 = false from hs.quiet]; rfl)
  · exact (hbit 1).trans (Bool.or_true _)
  · exact (hbit 31).trans ((Bool.or_false _).trans hs.mode)
  · exact (access_view hs.quiet).trans (access_view h)

theorem initPorts_found (h : Quiet s) (hports : ∀ i, s.ports i = {}) :
    Found s.hba.pi (initPorts ctl s) := by
  intro i
  have hview : (initPorts ctl s).view i = _ := (initPorts_spec h).2 i
  have hport : (initPorts ctl s).ports i = ((initPorts ctl s).view i).port := rfl
  rw [hport, hview]
  cases s.hba.pi.getLsbD i with
  | false =>
    rw [if_neg Bool.false_ne_true]
    exact ⟨congrArg Port.present (hports i), congrArg Port.mapped (hports i)⟩
  | true => exact ⟨rfl, rfl⟩

section Phases

variable (h : Quiet s) (he : s.enabled = true) (hfound : Found pi s)

include h hfound

theorem enablePortsFRE_returns :
    (enablePortsFRE ctl s).Returns (Phase pi (fun v w ↦ w = v.withFre) s) :=
  forPresent_returns (keepsFound_eq fun _ ↦ ⟨rfl, rfl⟩) h hfound fun _ _ ↦ enableFRE_returns

include he

theorem clearPortsSERR_returns : (clearPortsSERR ctl s).Returns (Phase pi (fun v w ↦ w = v) s) :=
  .check he (forPresent_returns (keepsFound_eq fun _ ↦ ⟨rfl, rfl⟩) h hfound
    fun _ _ ↦ writePort_hard fun _ ↦ rfl)

theorem setPortDevices_returns : (setPortDevices ctl s).Returns
    (Phase pi (fun v w ↦ ∃ found, w = v.withDevice found) s) := by
  refine .check he (forPresent_returns ?_ h hfound fun _ _ ↦ setPortDevice_returns)
  rintro v _ ⟨found, rfl⟩
  exact ⟨rfl, rfl⟩

/-- The interrupts of the ports first, then those of the controller. -/
theorem enableInterrupts_returns : (enableInterrupts ctl s).Returns fun s' ↦
    s'.hba.ghc.getLsbD 1 = true ∧ Quiet s' ∧ s'.enabled = true ∧
    s'.hba.ghc.getLsbD 31 = s.hba.ghc.getLsbD 31 ∧ s'.printed = s.printed ∧ Found pi s' ∧
    ∀ i, s'.view i = if pi.getLsbD i then (s.view i).withIe else s.view i := by
  have hclear : (clearPortsInterruptStatus ctl s).Returns (Phase pi (fun v w ↦ w = v) s) :=
    .check he (forPresent_returns (keepsFound_eq fun _ ↦ ⟨rfl, rfl⟩) h hfound
      fun _ _ ↦ writePort_hard fun _ ↦ rfl)
  refine hclear.bind fun t₁ h₁ ↦ ?_
  have he₁ : t₁.enabled = true := h₁.same.enabled.trans he
  refine (clearHBAInterruptStatus_returns h₁.same.quiet he₁).bind fun t₂ ⟨hs₂, hv₂⟩ ↦ ?_
  have he₂ : t₂.enabled = true := hs₂.enabled.trans he₁
  have hf₂ : Found pi t₂ := by
    intro i
    have hport : t₂.ports i = t₁.ports i := congrArg View.port (congrFun hv₂ i)
    rw [hport]
    exact h₁.found i
  have hports : (enablePortsInterrupts ctl t₂).Returns (Phase pi (fun v w ↦ w = v.withIe) t₂) :=
    .check he₂ (forPresent_returns (keepsFound_eq fun _ ↦ ⟨rfl, rfl⟩) hs₂.quiet hf₂
      fun _ _ ↦ enablePortInterrupts_returns)
  refine hports.bind fun t₃ h₃ ↦ ?_
  refine (enableHBAInterrupts_returns h₃.same.quiet (h₃.same.enabled.trans he₂)).mono ?_
  rintro s' ⟨hq, hi, hmode, hen, hprinted, hv⟩
  have hs := (h₁.same.trans hs₂).trans h₃.same
  refine ⟨hi, hq, hen, hmode.trans hs.mode, hprinted.trans hs.printed, fun i ↦ ?_, fun i ↦ ?_⟩
  · have hport : s'.ports i = t₃.ports i := congrArg View.port (congrFun hv i)
    rw [hport]
    exact h₃.found i
  · rw [hv]
    cases hpi : pi.getLsbD i with
    | false => rw [if_neg Bool.false_ne_true, h₃.absent i hpi, hv₂, h₁.absent i hpi]
    | true => rw [if_pos rfl, h₃.port i hpi, hv₂, h₁.port i hpi]

theorem startDMAEngines_returns : (startDMAEngines ctl s).Returns (Phase pi (fun v w ↦
    (v.port.devicePresent = false ∧ w = v) ∨
      (v.port.devicePresent = true ∧ ∃ running, w = v.started running)) s) := by
  refine .check he (forPresent_returns ?_ h hfound fun _ _ ↦ startPort_returns)
  rintro v _ (⟨-, rfl⟩ | ⟨-, running, rfl⟩)
  · exact ⟨rfl, rfl⟩
  · exact ⟨rfl, rfl⟩

end Phases

/-- **Every port before its engine is started**, step by step. -/
theorem view_ready {s₀ s₁ s₂ s₃ s₄ s₅ s₆ : State}
    (hv₁ : ∀ i, s₁.view i = if pi.getLsbD i then (s₀.view i).withPort else s₀.view i)
    (hv₂ : ∀ i, ∃ clistb, s₂.view i = (s₁.view i).withClistb clistb ∧
      HasClistb pi printed i (s₁.view i).soft.clistb clistb)
    (h₃ : Phase pi (fun v w ↦ w = v.withFre) s₂ s₃) (h₄ : Phase pi (fun v w ↦ w = v) s₃ s₄)
    (h₅ : Phase pi (fun v w ↦ ∃ found, w = v.withDevice found) s₄ s₅)
    (hv₆ : ∀ i, s₆.view i = if pi.getLsbD i then (s₅.view i).withIe else s₅.view i) (i : ℕ) :
    ∃ clistb found, HasClistb pi printed i (s₀.view i).soft.clistb clistb ∧
      s₆.view i = if pi.getLsbD i then (s₀.view i).ready clistb found else s₀.view i := by
  obtain ⟨clistb, hmem, hclistb⟩ := hv₂ i
  rw [hv₁] at hmem hclistb
  rw [hv₆]
  cases hpi : pi.getLsbD i with
  | false =>
    rw [hpi, if_neg Bool.false_ne_true] at hmem hclistb
    have hsame : clistb = (s₀.view i).soft.clistb :=
      hclistb.2 fun hi ↦ Bool.false_ne_true (hpi.symm.trans hi.2)
    refine ⟨clistb, false, hclistb, ?_⟩
    rw [if_neg Bool.false_ne_true, if_neg Bool.false_ne_true, h₅.absent i hpi, h₄.absent i hpi,
      h₃.absent i hpi, hmem, hsame]
    rfl
  | true =>
    rw [hpi, if_pos rfl] at hmem hclistb
    obtain ⟨found, hfound⟩ := h₅.port i hpi
    refine ⟨clistb, found, hclistb, ?_⟩
    rw [if_pos rfl, if_pos rfl, hfound, h₄.port i hpi, h₃.port i hpi, hmem]
    rfl

/-- **The steps behind the reset return**, with a port that was found on the page allocator of a
well-formed memory map. -/
theorem afterReset_returns {m : MemoryMap} {run : Run} {a : Pool} (hm : m.Wellformed)
    (ht : m.BelowTop) (hr : Represents m run a) {r : State} (hfl : r.fl = run.fl)
    (hreset : initReset ctl inl rounds s = .ok r) (h : Quiet r) (he : r.enabled = true)
    (hports : ∀ i, r.ports i = {}) : (initialise ctl inl rounds s).Returns (BroughtUp r) := by
  have hidle : hbaIdle ctl r = .ok (true, r) := hbaIdle_of_absent fun i ↦ by rw [hports]
  rw [initialise, hreset, Exec.ok_bind, hidle, Exec.ok_bind]
  dsimp only
  rw [if_pos rfl, Exec.pure_eq, Exec.ok_bind]
  obtain ⟨hs₁, hv₁⟩ : Same r (initPorts ctl r) ∧ _ := initPorts_spec h
  refine (initMemory_returns hm ht hr (hs₁.fl.trans hfl) hs₁.quiet (hs₁.enabled.trans he)
    (initPorts_found h hports)).bind fun s₂ ⟨hs₂, hf₂, hv₂⟩ ↦ ?_
  have he₂ : s₂.enabled = true := hs₂.enabled.trans (hs₁.enabled.trans he)
  refine (enablePortsFRE_returns hs₂.quiet hf₂).bind fun s₃ h₃ ↦ ?_
  have he₃ : s₃.enabled = true := h₃.same.enabled.trans he₂
  refine (clearPortsSERR_returns h₃.same.quiet he₃ h₃.found).bind fun s₄ h₄ ↦ ?_
  have he₄ : s₄.enabled = true := h₄.same.enabled.trans he₃
  refine (setPortDevices_returns h₄.same.quiet he₄ h₄.found).bind fun s₅ h₅ ↦ ?_
  have he₅ : s₅.enabled = true := h₅.same.enabled.trans he₄
  refine (enableInterrupts_returns h₅.same.quiet he₅ h₅.found).bind
    fun s₆ ⟨hi₆, hq₆, he₆, hm₆, hp₆, hf₆, hv₆⟩ ↦ ?_
  refine (startDMAEngines_returns hq₆ he₆ hf₆).mono fun s' h' ↦ ?_
  have hs := (h₃.same.trans h₄.same).trans h₅.same
  have hprinted : s'.printed = s₂.printed :=
    h'.same.printed.trans (hp₆.trans hs.printed)
  rw [← hprinted] at hv₂
  have hmode : s₅.hba.ghc.getLsbD 31 = r.hba.ghc.getLsbD 31 :=
    hs.mode.trans (hs₂.mode.trans hs₁.mode)
  refine ⟨h'.same.mode.trans (hm₆.trans hmode), h'.same.interrupts.trans hi₆, h'.found, fun i ↦ ?_⟩
  obtain ⟨clistb, found, hclistb, hview⟩ := view_ready hv₁ hv₂ h₃ h₄ h₅ hv₆ i
  cases hpi : r.hba.pi.getLsbD i with
  | false =>
    rw [hpi, if_neg Bool.false_ne_true] at hview
    exact .of_absent (hports i) hpi ((h'.absent i hpi).trans hview)
  | true =>
    rw [hpi, if_pos rfl] at hview
    have hstart := h'.port i hpi
    rw [hview] at hstart
    exact .of_ready (hports i) hpi hclistb hstart

/-- A controller that resets itself at once, and does nothing else. -/
def prompt : Controller where
  act _ h :=
    if h.ghc.getLsbD 0 then
      { h with ghc := 0, ports := fun i ↦ { h.ports i with ie := 0, cmd := 0 } }
    else h
  pi _ h := by
    dsimp only
    split <;> rfl
  bases _ h i := by
    dsimp only
    split <;> exact ⟨rfl, rfl⟩
  soft _ h hq := by
    rw [if_neg (by rw [hq]; decide)]
    exact ⟨hq, rfl, rfl, fun _ ↦ rfl⟩

/-- What the firmware leaves: one port, whose engines are running. -/
def firmware (fl : Freelist) : State where
  hba := ⟨0x80000000, 0, 1, fun _ ↦ ⟨0, 0, 0, 0, 0xC011, 0x50, 0x113, 0, 0, 0⟩⟩
  accesses := 0
  present := false
  enabled := false
  abar := 0
  mmioBase := 0
  ports _ := {}
  fl := fl
  printed := []

/-- Every function on the bus is an AHCI controller with its registers at `0xFEBD5000`. -/
def bus : BitVec 32 → BitVec 32 :=
  Drivers.Pci.hostBridge fun _ reg ↦
    if reg = 2 then 0x01060100 else if reg = 9 then 0xFEBD5000 else 0

theorem resets_prompt : Resets prompt 1 := by
  intro s
  refine ⟨0, Nat.zero_lt_one, ?_⟩
  change (if s.hba.ghc.getLsbD 0 then _ else s.hba : Hba).ghc.getLsbD 0 = false
  cases hq : s.hba.ghc.getLsbD 0 with
  | false => rw [if_neg Bool.false_ne_true, hq]
  | true =>
    rw [if_pos rfl]
    exact BitVec.getLsbD_zero

end Chisaka.Ahci.Initialise
