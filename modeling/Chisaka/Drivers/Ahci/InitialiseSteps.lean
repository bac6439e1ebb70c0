import Chisaka.Drivers.Ahci.Initialise

/-!
# Ports while the controller is initialised

A `View` is what driver and controller share of a port: what the driver remembers, and the bits of
software in its registers.  The controller changes no view, unless it is being reset, and so each
step of `Initialise` for a port is a step from one view to another (`StepsTo`): the driver enables
the received frames, clears errors, looks for a device, enables interrupts, starts the engine.

`initPorts_eq` says which ports are found.  `forPresent_returns` lifts a step to the loop over all
ports.  It takes the ports that are implemented a step further and leaves the other ones alone
(`Phase`).
-/

set_option autoImplicit false

namespace Chisaka.Ahci.Initialise

open PortIdle (cmdSt cmdFre cmdCr)
open PortDevices (tfdStsStatusBsy tfdStsStatusDrq)

/-! ## What is shared -/

/-- What driver and controller share of a port. -/
structure View where
  /-- What the driver remembers. -/
  port : Port
  /-- The bits of software. -/
  soft : SoftPort

/-- The view of port `i`. -/
def State.view (s : State) (i : ℕ) : View := ⟨s.ports i, (s.hba.ports i).soft⟩

/-- What no step for a port changes, while no reset is going on. -/
structure SameHost (s s' : State) : Prop where
  /-- No reset begins. -/
  quiet : s'.hba.ghc.getLsbD 0 = false
  /-- Interrupts are enabled or not. -/
  interrupts : s'.hba.ghc.getLsbD 1 = s.hba.ghc.getLsbD 1
  /-- AHCI mode is enabled or not. -/
  mode : s'.hba.ghc.getLsbD 31 = s.hba.ghc.getLsbD 31
  /-- `m_enabled`. -/
  enabled : s'.enabled = s.enabled

/-- Nor do they change the page allocator, and what was printed. -/
structure Same (s s' : State) : Prop extends SameHost s s' where
  /-- The page allocator. -/
  fl : s'.fl = s.fl
  /-- What was printed. -/
  printed : s'.printed = s.printed

/-- No reset is going on. -/
def Quiet (s : State) : Prop := s.hba.ghc.getLsbD 0 = false

/-- A step for port `i`, from one view of it to another. -/
def StepsTo (R : View → View → Prop) (i : ℕ) (s s' : State) : Prop :=
  Same s s' ∧ ∃ w, R (s.view i) w ∧ s'.view = Function.update s.view i w

variable {ctl : Controller} {s s' : State} {i : ℕ} {R : View → View → Prop}
  {reg : Registers → BitVec 32} {set : Registers → Registers}

theorem Quiet.same (h : Quiet s) : Same s s := ⟨⟨h, rfl, rfl, rfl⟩, rfl, rfl⟩

theorem SameHost.trans {s'' : State} (h : SameHost s s') (h' : SameHost s' s'') :
    SameHost s s'' where
  quiet := h'.quiet
  interrupts := h'.interrupts.trans h.interrupts
  mode := h'.mode.trans h.mode
  enabled := h'.enabled.trans h.enabled

theorem Same.trans {s'' : State} (h : Same s s') (h' : Same s' s'') : Same s s'' where
  toSameHost := h.toSameHost.trans h'.toSameHost
  fl := h'.fl.trans h.fl
  printed := h'.printed.trans h.printed

/-! ### Accesses -/

theorem access_same (h : Quiet s) : Same s (access ctl s) := by
  obtain ⟨hq, hi, hm, -⟩ := ctl.soft s.accesses s.hba h
  exact ⟨⟨hq, hi, hm, rfl⟩, rfl, rfl⟩

theorem access_view (h : Quiet s) : (access ctl s).view = s.view := by
  funext i
  exact congrArg (View.mk (s.ports i)) ((ctl.soft s.accesses s.hba h).2.2.2 i)

theorem setPort_view (i : ℕ) (f : Port → Port) (s : State) :
    (setPort i f s).view = Function.update s.view i { s.view i with port := f (s.ports i) } := by
  have hports : (setPort i f s).ports = Function.update s.ports i (f (s.ports i)) := rfl
  funext j
  rw [State.view, hports]
  by_cases hj : j = i
  · subst hj
    rw [Function.update_self, Function.update_self]
    rfl
  · rw [Function.update_of_ne hj, Function.update_of_ne hj]
    rfl

theorem setPort_same (i : ℕ) (f : Port → Port) (h : Quiet s) : Same s (setPort i f s) :=
  ⟨⟨h, rfl, rfl, rfl⟩, rfl, rfl⟩

/-- **Reading** changes nothing, and shows the bits of software as they are. -/
theorem readPort_returns (h : Quiet s) (hm : (s.ports i).mapped = true) :
    (readPort ctl i reg s).Returns fun r ↦ Same s r.2 ∧ r.2.view = s.view ∧
      ∃ q : Registers, q.soft = (s.view i).soft ∧ r.1 = reg q := by
  rw [readPort, if_pos hm]
  refine .ok ⟨access_same h, access_view h, (access ctl s).hba.ports i, ?_, rfl⟩
  exact congrArg View.soft (congrFun (access_view h) i)

/-- **Writing** changes the bits of one port. -/
theorem writePort_returns (h : Quiet s) (hm : (s.ports i).mapped = true) :
    (writePort ctl i set s).Returns (StepsTo (fun v w ↦ ∃ q : Registers, q.soft = v.soft ∧
      w = { v with soft := (set q).soft }) i s) := by
  rw [writePort, if_pos hm]
  have hview : (access ctl s).view = s.view := access_view h
  have hsame : Same s (access ctl s) := access_same h
  refine .ok ⟨⟨⟨hsame.quiet, hsame.interrupts, hsame.mode, rfl⟩, rfl, rfl⟩, _,
    ⟨(access ctl s).hba.ports i, congrArg View.soft (congrFun hview i), rfl⟩, ?_⟩
  funext j
  by_cases hj : j = i
  · subst hj
    rw [Function.update_self, State.view]
    simp only [Function.update_self]
    rfl
  · rw [Function.update_of_ne hj, ← hview, State.view]
    simp only [Function.update_of_ne hj]
    rfl

/-! ### Finding the ports -/

/-- A port that was found. -/
def Port.found (p : Port) : Port := { p with mapped := true, present := true }

/-- **What `InitPorts` does**: it finds the ports that are implemented. -/
theorem initPorts_eq (s : State) : initPorts ctl s = { access ctl s with
    ports := fun i ↦
      if (access ctl s).hba.pi.getLsbD i then (s.ports i).found else s.ports i } := by
  have hloop := Exec.foldl_range_induct (n := 32) (s := access ctl s)
    (f := fun t i ↦ if (access ctl s).hba.pi.getLsbD i then setPort i Port.found t else t)
    (I := fun k t ↦ t = { access ctl s with
      ports := fun i ↦ if i < k ∧ (access ctl s).hba.pi.getLsbD i = true then (s.ports i).found
        else s.ports i }) ?_ ?_
  · refine hloop.trans (congrArg (fun ports ↦ { access ctl s with ports := ports }) ?_)
    funext i
    exact if_congr (and_iff_right_of_imp BitVec.lt_of_getLsbD) rfl rfl
  · simp only [Nat.not_lt_zero, false_and, if_false]
    rfl
  · rintro k - t rfl
    by_cases hk : (access ctl s).hba.pi.getLsbD k = true
    · rw [if_pos hk, setPort]
      refine congrArg (fun ports ↦ { access ctl s with ports := ports }) (funext fun i ↦ ?_)
      by_cases hi : i = k
      · subst hi
        rw [Function.update_self, if_pos ⟨Nat.lt_succ_self i, hk⟩]
        exact congrArg Port.found (if_neg fun h ↦ Nat.lt_irrefl i h.1)
      · rw [Function.update_of_ne hi]
        exact if_congr (and_congr_left fun _ ↦ by omega) rfl rfl
    · rw [if_neg hk]
      refine congrArg (fun ports ↦ { access ctl s with ports := ports }) (funext fun i ↦ ?_)
      refine if_congr (and_congr_left fun hi ↦ ⟨Nat.lt_succ_of_lt, fun hlt ↦ ?_⟩) rfl rfl
      refine Nat.lt_of_le_of_ne (Nat.le_of_lt_succ hlt) ?_
      rintro rfl
      exact hk hi

/-! ### Steps for a port -/

/-- A state with the same views has the same ports. -/
theorem mapped_of_view (hv : s'.view = s.view) (hm : (s.ports i).mapped = true) :
    (s'.ports i).mapped = true := by
  have hport : s'.ports i = s.ports i := congrArg View.port (congrFun hv i)
  rw [hport]
  exact hm

theorem StepsTo.mono {R' : View → View → Prop} (h : StepsTo R i s s')
    (hR : ∀ v w, R v w → R' v w) : StepsTo R' i s s' := by
  obtain ⟨hs, w, hw, hv⟩ := h
  exact ⟨hs, w, hR _ _ hw, hv⟩

/-- A step that begins with what changes no view. -/
theorem StepsTo.after {t : State} (hs : Same s t) (hv : t.view = s.view) (h : StepsTo R i t s') :
    StepsTo R i s s' := by
  obtain ⟨hs', w, hw, hv'⟩ := h
  rw [hv] at hw hv'
  exact ⟨hs.trans hs', w, hw, hv'⟩

/-- A step that leaves the view as it is. -/
theorem StepsTo.of_view (hs : Same s s') (hv : s'.view = s.view) (hR : R (s.view i) (s.view i)) :
    StepsTo R i s s' := ⟨hs, _, hR, hv.trans (Function.update_eq_self i s.view).symm⟩

/-- A step that ends with what the driver remembers. -/
theorem StepsTo.setPort (f : Port → Port) (h : StepsTo R i s s') :
    StepsTo (fun v w ↦ ∃ u, R v u ∧ w = { u with port := f u.port }) i s (setPort i f s') := by
  obtain ⟨hs, u, hu, hv⟩ := h
  have hview : s'.view i = u := by rw [hv, Function.update_self]
  have hport : s'.ports i = u.port := congrArg View.port hview
  refine ⟨hs.trans (setPort_same i f hs.quiet), _, ⟨u, hu, rfl⟩, ?_⟩
  rw [setPort_view, hview, hport, hv, Function.update_idem]

/-- **A change of the command register** is seen in both bits of software. -/
theorem modifyCmd_returns {f : BitVec 32 → BitVec 32} (h : Quiet s)
    (hm : (s.ports i).mapped = true) : (modifyCmd ctl i f s).Returns (StepsTo (fun v w ↦
      ∃ cmd : BitVec 32, cmd.getLsbD 0 = v.soft.st ∧ cmd.getLsbD 4 = v.soft.fre ∧ w = { v with
        soft := { v.soft with st := (f cmd).getLsbD 0, fre := (f cmd).getLsbD 4 } }) i s) := by
  refine (readPort_returns h hm).bind fun ⟨cmd, t⟩ ⟨hs, hv, q, hq, hcmd⟩ ↦ ?_
  obtain rfl : cmd = q.cmd := hcmd
  refine (writePort_returns hs.quiet (mapped_of_view hv hm)).mono fun s' hstep ↦ ?_
  obtain ⟨hs', w, ⟨q', hq', rfl⟩, hv'⟩ := StepsTo.after hs hv hstep
  refine ⟨hs', _, ⟨q.cmd, congrArg SoftPort.st hq, congrArg SoftPort.fre hq, ?_⟩, hv'⟩
  rw [← hq']
  rfl

/-- The ports that were found are those that are implemented. -/
def Found (pi : BitVec 32) (s : State) : Prop :=
  ∀ i, (s.ports i).present = pi.getLsbD i ∧ (s.ports i).mapped = pi.getLsbD i

/-- A loop has taken each implemented port a step further, and left the other ones alone. -/
structure Phase (pi : BitVec 32) (R : View → View → Prop) (s s' : State) : Prop where
  /-- The rest is as it was. -/
  same : Same s s'
  /-- So are the ports that were found. -/
  found : Found pi s'
  /-- A port that is implemented. -/
  port : ∀ i, pi.getLsbD i = true → R (s.view i) (s'.view i)
  /-- A port that is not. -/
  absent : ∀ i, pi.getLsbD i = false → s'.view i = s.view i

/-- A step does not change which ports were found. -/
def KeepsFound (R : View → View → Prop) : Prop :=
  ∀ v w, R v w → w.port.present = v.port.present ∧ w.port.mapped = v.port.mapped

variable {pi : BitVec 32}

/-- **A loop over the ports that are present** is a phase. -/
theorem forPresent_returns {f : ℕ → State → Exec State} (hR : KeepsFound R) (h : Quiet s)
    (hfound : Found pi s)
    (hf : ∀ i s, Quiet s → (s.ports i).mapped = true → (f i s).Returns (StepsTo R i s)) :
    (forPresent f s).Returns (Phase pi R s) := by
  have hloop := Exec.Returns.foldlM_range (n := 32) (s := s)
    (f := fun s i ↦ if (s.ports i).present then f i s else return s)
    (I := fun k s' ↦ Same s s' ∧ ∀ i, (i < k ∧ pi.getLsbD i = true → R (s.view i) (s'.view i)) ∧
      (¬(i < k ∧ pi.getLsbD i = true) → s'.view i = s.view i))
    ⟨h.same, fun i ↦ ⟨fun hi ↦ absurd hi.1 (Nat.not_lt_zero i), fun _ ↦ rfl⟩⟩ ?_
  · refine hloop.mono fun s' ⟨hs, hviews⟩ ↦ ?_
    have hport : ∀ i, pi.getLsbD i = true → R (s.view i) (s'.view i) :=
      fun i hi ↦ (hviews i).1 ⟨BitVec.lt_of_getLsbD hi, hi⟩
    have habsent : ∀ i, pi.getLsbD i = false → s'.view i = s.view i :=
      fun i hi ↦ (hviews i).2 fun hi' ↦ Bool.false_ne_true (hi.symm.trans hi'.2)
    refine ⟨hs, fun i ↦ ?_, hport, habsent⟩
    cases hi : pi.getLsbD i with
    | false =>
      have hsame : s'.ports i = s.ports i := congrArg View.port (habsent i hi)
      rw [hsame, ← hi]
      exact hfound i
    | true =>
      obtain ⟨hp, hm⟩ := hR _ _ (hport i hi)
      exact ⟨hp.trans ((hfound i).1.trans hi), hm.trans ((hfound i).2.trans hi)⟩
  · rintro k hk t ⟨hs, hviews⟩
    have hview : t.view k = s.view k := (hviews k).2 fun hk ↦ Nat.lt_irrefl k hk.1
    have hport : t.ports k = s.ports k := congrArg View.port hview
    rw [hport, (hfound k).1]
    cases hp : pi.getLsbD k with
    | false =>
      rw [if_neg Bool.false_ne_true]
      refine .ok ⟨hs, fun i ↦ ⟨fun hi ↦ ?_, fun hi ↦ ?_⟩⟩
      · have hne : i ≠ k := by
          rintro rfl
          exact Bool.false_ne_true (hp.symm.trans hi.2)
        exact (hviews i).1 ⟨by omega, hi.2⟩
      · exact (hviews i).2 fun hi' ↦ hi ⟨by omega, hi'.2⟩
    | true =>
      rw [if_pos rfl]
      have hm : (t.ports k).mapped = true := by
        rw [hport, (hfound k).2, hp]
      refine (hf k t hs.quiet hm).mono fun s' ⟨hs', w, hw, hv⟩ ↦ ⟨hs.trans hs', fun i ↦ ?_⟩
      rw [hv]
      by_cases hik : i = k
      · subst hik
        rw [Function.update_self]
        rw [hview] at hw
        exact ⟨fun _ ↦ hw, fun hi ↦ absurd ⟨Nat.lt_succ_self i, hp⟩ hi⟩
      · rw [Function.update_of_ne hik]
        exact ⟨fun hi ↦ (hviews i).1 ⟨by omega, hi.2⟩,
          fun hi ↦ (hviews i).2 fun hi' ↦ hi ⟨by omega, hi'.2⟩⟩

/-! ### The steps -/

/-- Received frames are stored. -/
def View.withFre (v : View) : View :=
  ⟨{ v.port with fre := true }, { v.soft with fre := true }⟩

/-- A device was found, or not. -/
def View.withDevice (found : Bool) (v : View) : View :=
  { v with port := { v.port with devicePresent := v.port.devicePresent || found } }

/-- The interrupts of the port are enabled. -/
def View.withIe (v : View) : View := { v with soft := { v.soft with ie := 0xFF } }

/-- The engine for commands was started, or not. -/
def View.started (running : Bool) (v : View) : View :=
  ⟨{ v.port with dmaRunning := running }, { v.soft with st := v.soft.st || running }⟩

theorem enableFRE_returns (h : Quiet s) (hm : (s.ports i).mapped = true) :
    (enableFRE ctl i s).Returns (StepsTo (fun v w ↦ w = v.withFre) i s) := by
  refine (modifyCmd_returns h hm).bind fun t ht ↦ .ok ((ht.setPort _).mono ?_)
  rintro v _ ⟨_, ⟨cmd, hst, -, rfl⟩, rfl⟩
  have hst' : (cmd ||| cmdFre).getLsbD 0 = v.soft.st := by
    rw [BitVec.getLsbD_or, hst]
    exact Bool.or_false _
  have hfre : (cmd ||| cmdFre).getLsbD 4 = true := by
    rw [BitVec.getLsbD_or]
    exact Bool.or_true _
  rw [hst', hfre]
  rfl

/-- A write to registers that are not software's. -/
theorem writePort_hard (hset : ∀ q : Registers, (set q).soft = q.soft) (h : Quiet s)
    (hm : (s.ports i).mapped = true) :
    (writePort ctl i set s).Returns (StepsTo (fun v w ↦ w = v) i s) := by
  refine (writePort_returns h hm).mono fun t ht ↦ ht.mono ?_
  rintro v _ ⟨q, hq, rfl⟩
  exact congrArg (View.mk v.port) ((hset q).trans hq)

/-- Nothing of what driver and controller share has changed. -/
def Unmoved (s t : State) : Prop := Same s t ∧ t.view = s.view

/-- A program that only reads registers of port `i`. -/
def Reads {α : Type} (i : ℕ) (x : State → Exec (α × State)) : Prop :=
  ∀ s, Quiet s → (s.ports i).mapped = true → (x s).Returns fun r ↦ Unmoved s r.2

namespace Reads

variable {α β : Type}

theorem done (h : Quiet s) (a : α) : Exec.Returns (.ok (a, s)) fun r ↦ Unmoved s r.2 :=
  .ok ⟨h.same, rfl⟩

theorem readPort : Reads i (readPort ctl i reg) :=
  fun _ h hm ↦ (readPort_returns h hm).mono fun _ hr ↦ ⟨hr.1, hr.2.1⟩

/-- A program that only reads, and what comes after it. -/
theorem step {x : State → Exec (α × State)} {f : α × State → Exec (β × State)} (hx : Reads i x)
    (h : Quiet s) (hm : (s.ports i).mapped = true)
    (hf : ∀ a t, Quiet t → (t.ports i).mapped = true → (f (a, t)).Returns fun r ↦ Unmoved t r.2) :
    (x s >>= f).Returns fun r ↦ Unmoved s r.2 := by
  refine (hx s h hm).bind fun r ⟨hs, hv⟩ ↦ ?_
  refine (hf r.1 r.2 hs.quiet (mapped_of_view hv hm)).mono fun r' ⟨hs', hv'⟩ ↦ ?_
  exact ⟨hs.trans hs', hv'.trans hv⟩

end Reads

theorem ipmIs_reads (v : BitVec 32) : Reads i (ipmIs ctl i v) :=
  fun _ h hm ↦ Reads.readPort.step h hm fun _ _ h _ ↦ Reads.done h _

theorem ipmTest_reads : Reads i (ipmTest ctl i) := by
  intro s h hm
  refine (ipmIs_reads 2).step h hm fun found t h hm ↦ ?_
  cases found with
  | true => exact Reads.done h _
  | false =>
    refine (ipmIs_reads 6).step h hm fun found t h hm ↦ ?_
    cases found with
    | true => exact Reads.done h _
    | false => exact ipmIs_reads 8 t h hm

/-- `HasDevice` only reads. -/
theorem hasDevice_reads : Reads i (hasDevice ctl i) := by
  intro s h hm
  refine Reads.readPort.step h hm fun tfd t h hm ↦ ?_
  by_cases hbsy : tfd &&& tfdStsStatusBsy ≠ 0
  · simp only [if_pos hbsy]
    exact Reads.done h _
  simp only [if_neg hbsy]
  refine Reads.readPort.step h hm fun tfd t h hm ↦ ?_
  by_cases hdrq : tfd &&& tfdStsStatusDrq ≠ 0
  · simp only [if_pos hdrq]
    exact Reads.done h _
  simp only [if_neg hdrq]
  refine ipmTest_reads.step h hm fun ipmTest t h hm ↦ ?_
  exact Reads.readPort.step h hm fun _ _ h _ ↦ Reads.done h _

theorem setPortDevice_returns (h : Quiet s) (hm : (s.ports i).mapped = true) :
    (setPortDevice ctl i s).Returns (StepsTo (fun v w ↦ ∃ found, w = v.withDevice found) i s) := by
  refine (hasDevice_reads s h hm).bind fun ⟨found, t⟩ ⟨hs, hv⟩ ↦ ?_
  have hstays : StepsTo (fun v w ↦ w = v) i s t := .of_view hs hv rfl
  cases found with
  | false =>
    refine .ok (hstays.mono ?_)
    rintro v _ rfl
    exact ⟨false, by rw [View.withDevice, Bool.or_false]⟩
  | true =>
    refine .ok ((hstays.setPort _).mono ?_)
    rintro v _ ⟨_, rfl, rfl⟩
    exact ⟨true, by rw [View.withDevice, Bool.or_true]⟩

theorem enablePortInterrupts_returns (h : Quiet s) (hm : (s.ports i).mapped = true) :
    (enablePortInterrupts ctl i s).Returns (StepsTo (fun v w ↦ w = v.withIe) i s) := by
  refine (writePort_returns h hm).bind fun t ht ↦ ?_
  obtain ⟨hs, w, ⟨q, hq, rfl⟩, hv⟩ := ht
  have hport : t.view i = (s.view i).withIe := by
    rw [hv, Function.update_self, View.withIe, ← hq]
    rfl
  have hmt : (t.ports i).mapped = true := by
    have hp : t.ports i = s.ports i := congrArg View.port hport
    rw [hp]
    exact hm
  refine (readPort_returns hs.quiet hmt).bind fun ⟨ie, t'⟩ ⟨hs', hv', q', hq', hie⟩ ↦ ?_
  have hvalue : ie = 0xFF := by
    rw [hport] at hq'
    exact hie.trans (congrArg SoftPort.ie hq')
  refine .check (by rw [hvalue]; decide) (.ok ⟨hs.trans hs', _, rfl, ?_⟩)
  rw [hv', ← hport]
  exact hv.trans (by rw [hv, Function.update_self])

/-- What `StartDMAEngines` does for a port: nothing without a device. -/
theorem startPort_returns (h : Quiet s) (hm : (s.ports i).mapped = true) :
    (if (s.ports i).devicePresent then enableDMAEngine ctl i s else return s).Returns
      (StepsTo (fun v w ↦ (v.port.devicePresent = false ∧ w = v) ∨
        (v.port.devicePresent = true ∧ ∃ running, w = v.started running)) i s) := by
  cases hd : (s.ports i).devicePresent with
  | false => exact .ok (.of_view h.same rfl (.inl ⟨hd, rfl⟩))
  | true =>
    rw [if_pos rfl]
    refine (readPort_returns h hm).bind fun ⟨cmd, t⟩ ⟨hs, hv, _⟩ ↦ ?_
    have hdt : (s.view i).port.devicePresent = true := hd
    dsimp only
    by_cases hpre : (decide (cmd &&& cmdCr = 0) && (t.ports i).devicePresent &&
        (t.ports i).fre) = true
    · rw [if_pos hpre]
      refine (modifyCmd_returns hs.quiet (mapped_of_view hv hm)).bind fun t' ht ↦ ?_
      obtain ⟨hs', w, ⟨u, ⟨cmd', hst, hfre, rfl⟩, rfl⟩, hw⟩ :=
        ((StepsTo.after hs hv ht).setPort fun p ↦ { p with dmaRunning := true })
      refine .ok ⟨hs', _, .inr ⟨hdt, true, ?_⟩, hw⟩
      have hst' : (cmd' ||| cmdSt).getLsbD 0 = true := by
        rw [BitVec.getLsbD_or]
        exact Bool.or_true _
      have hfre' : (cmd' ||| cmdSt).getLsbD 4 = (s.view i).soft.fre := by
        rw [BitVec.getLsbD_or, hfre]
        exact Bool.or_false _
      rw [hst', hfre', View.started, Bool.or_true]
    · rw [if_neg hpre]
      have hstays : StepsTo (fun v w ↦ w = v) i s t := .of_view hs hv rfl
      obtain ⟨hs', w, ⟨u, rfl, rfl⟩, hw⟩ :=
        hstays.setPort fun p ↦ { p with dmaRunning := false }
      refine .ok ⟨hs', _, .inr ⟨hdt, false, ?_⟩, hw⟩
      rw [View.started, Bool.or_false]

end Chisaka.Ahci.Initialise
