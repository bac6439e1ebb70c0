import Chisaka.Drivers.Ahci.AhciDriver
import Chisaka.Ram.FreelistRuns

/-!
# The memory of the ports

`InitMemory` allocates a page for the command list of every port and one for the frames that the
port receives, and writes the addresses of both to the same register.  So a port ends up with its
received frames' page, cut to 32 bits, as its command list, and with the register for the received
frames as it was (`initMemory_leaves`).

`InitMemory` works with the page allocator as it is at the time.  For the allocator of a well-formed
memory map it always returns (`initMemory_returns`).
-/

set_option autoImplicit false

namespace Chisaka.Ahci

open PageAllocators

namespace AhciDriver

variable {d : AhciDriver} {fl : Freelist} {s s' : MemoryState} {i : ℕ}

/-- What a round of `InitMemory` does: nothing for a port that is not there, and otherwise two
pages, of which the second is what the command list register holds. -/
theorem initPortMemory_cases (h : initPortMemory s i = .ok s') :
    ((s.driver.ports i).present = false ∧ s' = s) ∨
    ((s.driver.ports i).present = true ∧ ∃ r c f fl', (s.driver.ports i).registers = some r ∧
      s' = ⟨s.printed ++ [⟨i, c, f⟩], s.driver.setPort i { s.driver.ports i with
        registers := some { r with clistb := BitVec.ofNat 32 f } }, fl'⟩) := by
  obtain ⟨p, hp, h⟩ := Exec.bind_eq_ok.mp h
  obtain rfl : s.driver.ports i = p := by
    rw [port] at hp
    split at hp
    · exact Except.ok.inj hp
    · cases hp
  cases hpres : (s.driver.ports i).present with
  | false =>
    rw [hpres, if_neg Bool.false_ne_true] at h
    exact .inl ⟨rfl, (Except.ok.inj h).symm⟩
  | true =>
    rw [hpres, if_pos rfl] at h
    obtain ⟨⟨c, fl₁⟩, -, h⟩ := Exec.bind_eq_ok.mp h
    obtain ⟨-, -, h⟩ := Exec.bind_eq_ok.mp h
    obtain ⟨p₁, hp₁, h⟩ := Exec.bind_eq_ok.mp h
    obtain ⟨⟨f, fl₂⟩, -, h⟩ := Exec.bind_eq_ok.mp h
    obtain ⟨-, -, h⟩ := Exec.bind_eq_ok.mp h
    obtain ⟨p₂, hp₂, h⟩ := Exec.bind_eq_ok.mp h
    cases hr : (s.driver.ports i).registers with
    | none =>
      rw [AhciPort.setCLB, AhciPort.regs, hr] at hp₁
      cases hp₁
    | some r =>
      rw [AhciPort.setCLB, AhciPort.regs, hr] at hp₁
      cases hp₁
      cases hp₂
      exact .inr ⟨rfl, r, c, f, fl₂, rfl, (Except.ok.inj h).symm⟩

/-- **What `InitMemory` leaves in the registers of a port**: the page it printed as the base of the
received frames, in the register of the command list. -/
theorem initMemory_leaves (h : initMemory d fl = .ok s) :
    (∀ j, (s.driver.ports j).present = (d.ports j).present) ∧
    (∀ e ∈ s.printed, ∃ r, (s.driver.ports e.port).registers = some r ∧
      r.clistb = BitVec.ofNat 32 e.portFisBase) := by
  obtain ⟨-, -, h⟩ := Exec.bind_eq_ok.mp h
  -- the lines that were printed belong to earlier rounds, and so do the registers written
  have hinv := Exec.foldlM_range_induct (I := fun i (s : MemoryState) ↦
    (∀ j, (s.driver.ports j).present = (d.ports j).present) ∧
    ∀ e ∈ s.printed, e.port < i ∧ ∃ r, (s.driver.ports e.port).registers = some r ∧
      r.clistb = BitVec.ofNat 32 e.portFisBase)
    ⟨fun _ ↦ rfl, fun _ he ↦ absurd he List.not_mem_nil⟩ ?_ h
  · exact ⟨hinv.1, fun e he ↦ (hinv.2 e he).2⟩
  rintro i - s s' ⟨hpres, hprinted⟩ hs
  rcases initPortMemory_cases hs with ⟨-, rfl⟩ | ⟨-, r, c, f, fl', -, rfl⟩
  · exact ⟨hpres, fun e he ↦ ⟨Nat.lt_succ_of_lt (hprinted e he).1, (hprinted e he).2⟩⟩
  · refine ⟨fun j ↦ ?_, fun e he ↦ ?_⟩
    · rw [ports_setPort]
      by_cases hj : j = i
      · rw [hj, Function.update_self]
        exact hpres i
      · rw [Function.update_of_ne hj]
        exact hpres j
    · rcases List.mem_append.mp he with he | he
      · obtain ⟨hlt, r', hr', hclb⟩ := hprinted e he
        refine ⟨Nat.lt_succ_of_lt hlt, r', ?_, hclb⟩
        rw [ports_setPort, Function.update_of_ne (Nat.ne_of_lt hlt)]
        exact hr'
      · obtain rfl := List.mem_singleton.mp he
        exact ⟨Nat.lt_succ_self i, _, by rw [ports_setPort, Function.update_self], rfl⟩

/-- A page or null is aligned as far as the driver asks for it. -/
theorem check_page {p k : ℕ} (hp : p = 0 ∨ IsPage p) (hk : k ∣ pageSize) :
    kassert (p % k = 0) = .ok () := by
  refine Exec.check_of ?_
  rcases hp with rfl | hp
  · exact Nat.zero_mod k
  · exact Nat.mod_eq_zero_of_dvd (hk.trans (Nat.dvd_of_mod_eq_zero hp.aligned))

/-- **With the page allocator of a well-formed memory map `InitMemory` returns**, if the registers
of the ports have been found. -/
theorem initMemory_returns {m : MemoryMap} {run : Run} {a : Pool} (hm : m.Wellformed)
    (ht : m.BelowTop) (hr : Represents m run a) (he : d.enabled = true)
    (hregs : ∀ i < 4, (d.ports i).present = true → (d.ports i).registers.isSome) :
    ∃ s, initMemory d run.fl = .ok s := by
  -- rounds that are still to come find their port as it was
  have hround : ∀ i < 4, ∀ s : MemoryState, ((∃ held a, Represents m ⟨s.fl, held⟩ a) ∧
      ∀ j, i ≤ j → s.driver.ports j = d.ports j) → ∃ s', initPortMemory s i = .ok s' ∧
        (∃ held a, Represents m ⟨s'.fl, held⟩ a) ∧
        ∀ j, i + 1 ≤ j → s'.driver.ports j = d.ports j := by
    rintro i hi s ⟨⟨held, a, hr⟩, hports⟩
    have hport : s.driver.port i = .ok (d.ports i) := by
      rw [port_of_lt (Nat.lt_trans hi (by decide)), hports i (le_refl i)]
    cases hp : (d.ports i).present with
    | false =>
      refine ⟨s, ?_, ⟨held, a, hr⟩, fun j hj ↦ hports j (by omega)⟩
      rw [initPortMemory, hport, Exec.ok_bind, hp, if_neg Bool.false_ne_true]
      rfl
    | true =>
      obtain ⟨r, hreg⟩ := Option.isSome_iff_exists.mp (hregs i hi hp)
      obtain ⟨c, fl₁, a₁, hc, hr₁, hcp⟩ := hr.allocatePage hm ht
      obtain ⟨f, fl₂, a₂, hf, hr₂, hfp⟩ := hr₁.allocatePage hm ht
      refine ⟨⟨s.printed ++ [⟨i, c, f⟩], s.driver.setPort i { d.ports i with
        registers := some { r with clistb := BitVec.ofNat 32 f } }, fl₂⟩, ?_, ⟨_, a₂, hr₂⟩, ?_⟩
      · rw [initPortMemory, hport, Exec.ok_bind, hp, if_pos rfl]
        simp only [hc, hf, Exec.ok_bind, check_page hcp (show 0x400 ∣ pageSize by decide),
          check_page hfp (show 0x100 ∣ pageSize by decide), AhciPort.setCLB, AhciPort.regs, hreg,
          Option.elim_some, Exec.pure_eq]
      · intro j hj
        rw [ports_setPort, Function.update_of_ne (by omega)]
        exact hports j (by omega)
  rw [initMemory, kassert, Exec.check_of he, Exec.ok_bind]
  obtain ⟨s, hs, -⟩ := Exec.foldlM_range_returns (s := ⟨[], d, run.fl⟩)
    (I := fun i (s : MemoryState) ↦ (∃ held a, Represents m ⟨s.fl, held⟩ a) ∧
      ∀ j, i ≤ j → s.driver.ports j = d.ports j)
    ⟨⟨run.held, a, hr⟩, fun _ _ ↦ rfl⟩ hround
  exact ⟨s, hs⟩

/-! ## What the ports should have -/

/-- The pages that were allocated. -/
def MemoryState.pages (s : MemoryState) : List ℕ :=
  s.printed.flatMap fun e ↦ [e.portCommandBase, e.portFisBase]

/-- Each of the first four ports that is present has the page for its command list as its command
list and the page for its received frames as its received frames, and the pages are distinct and
belong to the driver: none is null, and none is on a list of free pages. -/
structure Programmed (s : MemoryState) : Prop where
  /-- The registers hold the pages. -/
  registers : ∀ i < 4, (s.driver.ports i).present = true → ∃ e ∈ s.printed, e.port = i ∧
    (s.driver.ports i).commandListPtr = .ok e.portCommandBase ∧
    (s.driver.ports i).recievedFisPtr = .ok e.portFisBase
  /-- No page is used twice. -/
  nodup : s.pages.Nodup
  /-- The pages are the driver's. -/
  owned : ∀ p ∈ s.pages, p ≠ 0 ∧ ∀ o L, FreeList s.fl.mem (s.fl.headOf o) L → p ∉ L

/-- A port that is present is not programmed: both pointers would have to be the same page. -/
theorem not_programmed (h : initMemory d fl = .ok s) (hi : i < 4)
    (hp : (d.ports i).present = true) : ¬Programmed s := by
  intro hprog
  obtain ⟨hpres, hregs⟩ := initMemory_leaves h
  obtain ⟨e, he, rfl, hclb, hfis⟩ := hprog.registers i hi ((hpres i).trans hp)
  obtain ⟨r, hr, hclistb⟩ := hregs e he
  rw [AhciPort.commandListPtr, AhciPort.regs, hr] at hclb
  rw [AhciPort.recievedFisPtr, AhciPort.regs, hr] at hfis
  have hc : r.clistb.toNat = e.portCommandBase := Except.ok.inj hclb
  have hf : r.fisb.toNat = e.portFisBase := Except.ok.inj hfis
  -- the page of the frames has 32 bits, so that the command list register holds it unchanged
  have heq : e.portCommandBase = e.portFisBase := by
    rw [← hc, hclistb, BitVec.toNat_ofNat, ← hf]
    exact Nat.mod_eq_of_lt r.fisb.isLt
  have hnd := (List.nodup_flatMap.mp hprog.nodup).1 e he
  rw [heq] at hnd
  simp at hnd

/-- Without ports there is nothing to do. -/
theorem initMemory_of_absent (he : d.enabled = true)
    (h : ∀ i < 4, (d.ports i).present = false) : initMemory d fl = .ok ⟨[], d, fl⟩ := by
  have hround : ∀ i < 4, initPortMemory ⟨[], d, fl⟩ i = .ok ⟨[], d, fl⟩ := by
    intro i hi
    rw [initPortMemory, port_of_lt (Nat.lt_trans hi (by decide)), Exec.ok_bind, h i hi,
      if_neg Bool.false_ne_true]
    rfl
  rw [initMemory, kassert, Exec.check_of he, Exec.ok_bind]
  obtain ⟨s, hs, rfl⟩ := Exec.foldlM_range_returns (f := initPortMemory)
    (I := fun _ s ↦ s = ⟨[], d, fl⟩) rfl (by rintro i hi _ rfl; exact ⟨_, hround i hi, rfl⟩)
  exact hs

/-- After `InitMemory` the ports have their memory. -/
def HasMemory (d : AhciDriver) (fl : Freelist) : Prop :=
  ∃ s, initMemory d fl = .ok s ∧ Programmed s

/-- **The ports have their memory after `InitMemory` exactly when there are none**, whatever the
page allocator hands out. -/
theorem hasMemory_iff_absent (piVal : BitVec 32) (hardware : ℕ → PortRegisters) (d : AhciDriver)
    (fl : Freelist) (he : d.enabled = true) : (d.initPorts piVal hardware).HasMemory fl ↔
      ∀ i < 4, ((d.initPorts piVal hardware).ports i).present = false := by
  constructor
  · rintro ⟨s, hs, hprog⟩ i hi
    cases hp : ((d.initPorts piVal hardware).ports i).present with
    | false => rfl
    | true => exact absurd hprog (not_programmed hs hi hp)
  · intro h
    exact ⟨_, initMemory_of_absent he h, ⟨fun i hi hp ↦ absurd hp (by simp [h i hi]),
      List.nodup_nil, fun _ hp ↦ absurd hp List.not_mem_nil⟩⟩

/-- A driver that has found the controller, and no ports yet. -/
def found : AhciDriver := ⟨true, fun _ ↦ {}, fun _ ↦ none, fun _ ↦ none⟩

/-- Registers after a reset. -/
def cleared : PortRegisters := ⟨0, 0, 0, 0⟩

theorem hasMemory_iff_absent_found :
    (found.initPorts 1 fun _ ↦ cleared).HasMemory ⟨fun _ ↦ 0, 0, 0, 0, 0⟩ ↔
      ∀ i < 4, ((found.initPorts 1 fun _ ↦ cleared).ports i).present = false :=
  hasMemory_iff_absent 1 _ found _ rfl

/-- **One port is enough**: with port 0 implemented, and two pages to hand out, `InitMemory`
returns, and the page of the received frames is where the command list should be. -/
theorem not_programmed_port : ¬∀ (m : MemoryMap) (fl₀ fl : Freelist) (piVal : BitVec 32)
    (hardware : ℕ → PortRegisters) (d : AhciDriver) (s : MemoryState), m.Wellformed →
      init m fl₀ = .ok fl → d.enabled = true →
      initMemory (d.initPorts piVal hardware) fl = .ok s → Programmed s := by
  intro h
  obtain ⟨fl, hfl, hr⟩ := init_represents twoPages_wellformed twoPages_belowTop
    ⟨fun _ ↦ 0, 0, 0, 0, 0⟩
  obtain ⟨s, hs⟩ := initMemory_returns (d := found.initPorts 1 fun _ ↦ cleared)
    twoPages_wellformed twoPages_belowTop hr rfl (by decide)
  have hprog := h twoPages _ fl 1 (fun _ ↦ cleared) found s twoPages_wellformed hfl rfl hs
  exact not_programmed (i := 0) hs (by decide) rfl hprog

end AhciDriver

end Chisaka.Ahci
