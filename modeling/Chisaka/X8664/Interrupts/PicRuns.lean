import Chisaka.Lib.Bits
import Chisaka.X8664.Interrupts.PicController

/-!
# Interrupts in the order of their priorities

Driver, controllers and processor together refine `linesSpec` (`pics_refine`), from controllers in
any state, also in the middle of a set-up.  A run keeps for each controller what its three registers
say of its lines (`Pic.Holds`), and for both that the handlers are nested by their priorities: so
the interrupt that a controller ends at `SignalEOI`, the one with the highest priority, is that of
the handler which signals it, and the slave has at most one in service.

The vectors are those of `IrqToVector` if both offsets are multiples of eight, and only then.
-/

set_option autoImplicit false

namespace X8664.Interrupt

open Chisaka

/-! ## One controller -/

theorem lowest_eq_some_iff {x : BitVec 8} {i : ℕ} :
    lowest x = some i ↔ x.getLsbD i = true ∧ ∀ j < i, x.getLsbD j = false := by
  by_cases hx : x = 0
  · simp [lowest, hx]
  have hset := BitVec.getLsbD_true_ctz_of_ne_zero hx
  rw [lowest, if_neg hx, Option.some_inj]
  constructor
  · rintro rfl
    exact ⟨hset, fun j hj ↦ BitVec.getLsbD_false_of_lt_ctz hj⟩
  · rintro ⟨hi, hbelow⟩
    rcases lt_trichotomy x.ctz.toNat i with hlt | heq | hgt
    · rw [hbelow _ hlt] at hset
      exact absurd hset Bool.false_ne_true
    · exact heq
    · rw [BitVec.getLsbD_false_of_lt_ctz hgt] at hi
      exact absurd hi Bool.false_ne_true

theorem lowest_eq_none {x : BitVec 8} (h : lowest x = none) (i : ℕ) : x.getLsbD i = false := by
  by_cases hx : x = 0
  · rw [hx]
    exact BitVec.getLsbD_zero
  · rw [lowest, if_neg hx] at h
    exact absurd h (Option.some_ne_none _)

namespace Pic

variable {c : Pic} {icw2 icw3 : BitVec 8} {masked pending inService : ℕ → Bool} {i : ℕ}

/-- **The state of a controller that is set up**, line by line. -/
structure Holds (c : Pic) (icw2 icw3 : BitVec 8) (masked pending inService : ℕ → Bool) : Prop where
  /-- It is set up. -/
  phase : c.phase = .ready
  /-- `ICW2`. -/
  icw2 : c.icw2 = icw2
  /-- `ICW3`. -/
  icw3 : c.icw3 = icw3
  /-- `ICW4`. -/
  icw4 : c.icw4 = 1
  /-- The masks. -/
  imr : ∀ i < 8, c.imr.getLsbD i = masked i
  /-- The requests. -/
  irr : ∀ i < 8, c.irr.getLsbD i = pending i
  /-- The interrupts in service. -/
  isr : ∀ i < 8, c.isr.getLsbD i = inService i

/-- **The four words of a set-up**, after any others. -/
theorem setUp (c : Pic) (icw2 icw3 : BitVec 8) :
    ((((c.command 0x11).data icw2).data icw3).data 0x01).Holds icw2 icw3 (fun _ ↦ false)
      (fun _ ↦ false) fun _ ↦ false := by
  have h4 : (0x11 : BitVec 8).getLsbD 4 = true := by decide
  have h1 : (0x11 : BitVec 8).getLsbD 1 = false := by decide
  have h0 : (0x11 : BitVec 8).getLsbD 0 = true := by decide
  simp only [command, data, h4, h1, h0, if_true, Bool.false_eq_true, if_false]
  exact ⟨rfl, rfl, rfl, rfl, fun _ _ ↦ BitVec.getLsbD_zero, fun _ _ ↦ BitVec.getLsbD_zero,
    fun _ _ ↦ BitVec.getLsbD_zero⟩

namespace Holds

/-- Only eight lines matter. -/
theorem congr {masked' pending' inService' : ℕ → Bool}
    (h : c.Holds icw2 icw3 masked pending inService)
    (hm : ∀ i < 8, masked i = masked' i) (hp : ∀ i < 8, pending i = pending' i)
    (hs : ∀ i < 8, inService i = inService' i) :
    c.Holds icw2 icw3 masked' pending' inService' :=
  { h with
    imr := fun i hi ↦ (h.imr i hi).trans (hm i hi)
    irr := fun i hi ↦ (h.irr i hi).trans (hp i hi)
    isr := fun i hi ↦ (h.isr i hi).trans (hs i hi) }

theorem raise (h : c.Holds icw2 icw3 masked pending inService) (hi : i < 8) :
    (c.raise i).Holds icw2 icw3 masked (Function.update pending i true) inService where
  __ := h
  irr j hj := by
    rw [Pic.raise, Bits.getLsbD_or_twoPow hi, Function.update_apply, h.irr j hj]

/-- The second port holds the masks. -/
theorem data_eq (h : c.Holds icw2 icw3 masked pending inService) (val : BitVec 8) :
    c.data val = { c with imr := val } := by
  rw [Pic.data, h.phase]

theorem data (h : c.Holds icw2 icw3 masked pending inService) (val : BitVec 8) :
    (c.data val).Holds icw2 icw3 val.getLsbD pending inService := by
  rw [h.data_eq]
  exact { h with imr := fun _ _ ↦ rfl }

/-- The masks that it holds are written. -/
theorem data_imr (h : c.Holds icw2 icw3 masked pending inService) : c.data c.imr = c :=
  h.data_eq c.imr

/-- The choice of a register changes nothing else. -/
theorem command_ocw3 (h : c.Holds icw2 icw3 masked pending inService) {val : BitVec 8}
    (h4 : val.getLsbD 4 = false) (h3 : val.getLsbD 3 = true) :
    (c.command val).Holds icw2 icw3 masked pending inService ∧ (c.command val).imr = c.imr := by
  have hcommand : c.command val =
      if val.getLsbD 1 then { c with readIsr := val.getLsbD 0 } else c := by
    rw [command, h4, if_neg Bool.false_ne_true, h3, if_pos rfl]
  rw [hcommand]
  split
  · exact ⟨{ h with }, rfl⟩
  · exact ⟨h, rfl⟩

/-- An interrupt begins. -/
theorem serve (h : c.Holds icw2 icw3 masked pending inService) (hi : i < 8) :
    (c.serve i).Holds icw2 icw3 masked (Function.update pending i false)
      (Function.update inService i true) where
  __ := h
  irr j hj := by
    rw [Pic.serve, Bits.getLsbD_and_not_twoPow, Function.update_apply, h.irr j hj]
  isr j hj := by
    have hauto : c.icw4.getLsbD 1 = false := by
      rw [h.icw4]
      decide
    rw [Pic.serve, hauto, if_neg Bool.false_ne_true, Bits.getLsbD_or_twoPow hi,
      Function.update_apply, h.isr j hj]

/-- The interrupt with the highest priority ends. -/
theorem endOfInterrupt (h : c.Holds icw2 icw3 masked pending inService) (hi : i < 8)
    (hs : inService i = true) (hfirst : ∀ j < i, inService j = false) :
    (c.command 0x20).Holds icw2 icw3 masked pending (Function.update inService i false) := by
  have hlowest : lowest c.isr = some i := by
    refine lowest_eq_some_iff.mpr ⟨(h.isr i hi).trans hs, fun j hj ↦ ?_⟩
    exact (h.isr j (hj.trans hi)).trans (hfirst j hj)
  have hcommand : c.command 0x20 = { c with isr := c.isr &&& ~~~BitVec.twoPow 8 i } := by
    have h4 : (0x20 : BitVec 8).getLsbD 4 = false := by decide
    have h3 : (0x20 : BitVec 8).getLsbD 3 = false := by decide
    have heoi : (0x20 : BitVec 8).extractLsb' 5 3 = 1 := by decide
    simp only [command, h4, h3, heoi, hlowest, Bool.false_eq_true, if_false, if_true]
  rw [hcommand]
  refine { h with isr := fun j hj ↦ ?_ }
  rw [Bits.getLsbD_and_not_twoPow, Function.update_apply, h.isr j hj]

end Holds

/-- A line asks for an interrupt that is not held up. -/
structure Asks (c : Pic) (lines : BitVec 8) (i : ℕ) : Prop where
  /-- It asks. -/
  line : lines.getLsbD i = true
  /-- It is not masked. -/
  unmasked : c.imr.getLsbD i = false
  /-- Nothing holds it up. -/
  above : ∀ j ≤ i, c.isr.getLsbD j = false

/-- The lines that are asked for and not masked. -/
theorem getLsbD_unmasked {x y : BitVec 8} :
    (x &&& ~~~y).getLsbD i = true ↔ x.getLsbD i = true ∧ y.getLsbD i = false := by
  rw [BitVec.getLsbD_and, BitVec.getLsbD_not, Bool.and_eq_true, Bool.and_eq_true,
    decide_eq_true_iff, Bool.not_eq_true']
  exact ⟨fun ⟨hx, _, hy⟩ ↦ ⟨hx, hy⟩, fun ⟨hx, hy⟩ ↦ ⟨hx, BitVec.lt_of_getLsbD hx, hy⟩⟩

/-- What a controller that is set up asks for. -/
theorem request_eq (h : c.Holds icw2 icw3 masked pending inService) (lines : BitVec 8) :
    c.request lines = (lowest (lines &&& ~~~c.imr)).bind fun i ↦
      if ∀ j ≤ i, c.isr.getLsbD j = false then some i else none := by
  have hmode : c.icw4.getLsbD 0 = true := by
    rw [h.icw4]
    decide
  simp only [request, h.phase, hmode, true_and]
  rfl

/-- A controller asks for the first line that does. -/
theorem request_eq_some (h : c.Holds icw2 icw3 masked pending inService) {lines : BitVec 8}
    (hr : c.request lines = some i) : c.Asks lines i ∧ ∀ j, c.Asks lines j → i ≤ j := by
  rw [request_eq h] at hr
  obtain ⟨k, hk, hif⟩ := Option.bind_eq_some_iff.mp hr
  obtain ⟨habove, hki⟩ := Option.ite_none_right_eq_some.mp hif
  obtain rfl := Option.some.inj hki
  obtain ⟨hset, hbelow⟩ := lowest_eq_some_iff.mp hk
  obtain ⟨hline, hmask⟩ := getLsbD_unmasked.mp hset
  refine ⟨⟨hline, hmask, habove⟩, fun j hj ↦ ?_⟩
  by_contra hlt
  have hj0 := hbelow j (Nat.lt_of_not_le hlt)
  rw [getLsbD_unmasked.mpr ⟨hj.line, hj.unmasked⟩] at hj0
  exact absurd hj0.symm Bool.false_ne_true

theorem request_eq_none (h : c.Holds icw2 icw3 masked pending inService) {lines : BitVec 8}
    (hr : c.request lines = none) : ∀ i, ¬c.Asks lines i := by
  intro i hi
  have hset := getLsbD_unmasked.mpr ⟨hi.line, hi.unmasked⟩
  rw [request_eq h] at hr
  rcases hk : lowest (lines &&& ~~~c.imr) with _ | k
  · rw [lowest_eq_none hk i] at hset
    exact absurd hset Bool.false_ne_true
  · -- the lowest line is held up, but not by more than what holds up this one
    have hki : k ≤ i := by
      by_contra hlt
      rw [(lowest_eq_some_iff.mp hk).2 i (Nat.lt_of_not_le hlt)] at hset
      exact absurd hset Bool.false_ne_true
    rw [hk, Option.bind_some, if_pos fun j hj ↦ hi.above j (hj.trans hki)] at hr
    exact absurd hr (Option.some_ne_none k)

/-- When it asks for an interrupt. -/
theorem isSome_request_iff (h : c.Holds icw2 icw3 masked pending inService) {lines : BitVec 8} :
    (c.request lines).isSome = true ↔ ∃ i, c.Asks lines i := by
  constructor
  · intro hsome
    obtain ⟨i, hi⟩ := Option.isSome_iff_exists.mp hsome
    exact ⟨i, (request_eq_some h hi).1⟩
  · rintro ⟨i, hi⟩
    rcases hr : c.request lines with _ | k
    · exact absurd hi (request_eq_none h hr i)
    · rfl

end Pic

/-! ## Both -/

/-- What `FlushICWs` writes where. -/
theorem PicController.flushICWs_eq (c : PicController) (p : Pics) : c.flushICWs p =
    ⟨(((p.master.command (c.masterIcws.icw1.setWidth 8)).data (c.masterIcws.icw2.setWidth 8)).data
      (c.masterIcws.icw3.setWidth 8)).data (c.masterIcws.icw4.setWidth 8),
    (((p.slave.command (c.slaveIcws.icw1.setWidth 8)).data (c.slaveIcws.icw2.setWidth 8)).data
      (c.slaveIcws.icw3.setWidth 8)).data (c.slaveIcws.icw4.setWidth 8)⟩ :=
  rfl

namespace PicSystem

variable {s : PicSystem} {a : Lines} {masterOffset slaveOffset : BitVec 16} {irq : ℕ}

/-- **The invariant of a run**, which is also the simulation relation. -/
structure Inv (masterOffset slaveOffset : BitVec 16) (s : PicSystem) (a : Lines) : Prop where
  /-- The master. -/
  master : s.pics.master.Holds ((masterOffset &&& 0xF8#16).setWidth 8) 0x04 a.masked a.pending
    fun i ↦ decide (∃ j ∈ a.nest, level j = i)
  /-- The slave. -/
  slave : s.pics.slave.Holds ((slaveOffset &&& 0xF8#16).setWidth 8) 0x02 (fun i ↦ a.masked (8 + i))
    (fun i ↦ a.pending (8 + i)) fun i ↦ decide (8 + i ∈ a.nest)
  /-- The handlers that run. -/
  nest : s.nest = a.nest
  /-- They are nested by their priorities. -/
  nested : a.nest.Pairwise fun i j ↦ level i < level j
  /-- They are those of devices. -/
  lines : ∀ j ∈ a.nest, j < 16 ∧ j ≠ 2
  /-- There is no device on line 2. -/
  pending : a.pending 2 = false
  /-- The driver remembers the offsets. -/
  offsets : s.controller.masterOffset = masterOffset ∧ s.controller.slaveOffset = slaveOffset

theorem level_of_lt (h : irq < 8) : level irq = irq := if_pos h

theorem level_of_le (h : 8 ≤ irq) : level irq = 2 := if_neg (Nat.not_lt_of_le h)

theorem level_lt (irq : ℕ) : level irq < 8 := by
  rcases Nat.lt_or_ge irq 8 with hlt | hge
  · rwa [level_of_lt hlt]
  · rw [level_of_le hge]
    decide

/-- A handler more, at its level. -/
theorem update_levels (irq : ℕ) (nest : List ℕ) (k : ℕ) :
    Function.update (fun i ↦ decide (∃ j ∈ nest, level j = i)) (level irq) true k =
      decide (∃ j ∈ irq :: nest, level j = k) := by
  rw [Function.update_apply]
  by_cases hk : k = level irq
  · rw [if_pos hk, eq_comm, decide_eq_true_iff]
    exact ⟨irq, List.mem_cons_self, hk.symm⟩
  · rw [if_neg hk]
    simp [Ne.symm hk]

namespace Inv

/-- Nothing holds a line of the master up, exactly if what runs has a lower priority. -/
theorem above_iff (h : s.Inv masterOffset slaveOffset a) {i : ℕ} (hi : i < 8) :
    (∀ j ≤ i, s.pics.master.isr.getLsbD j = false) ↔ ∀ j ∈ a.nest, i < level j := by
  constructor
  · intro habove j hj
    by_contra hle
    have hle := Nat.le_of_not_lt hle
    have hclear := habove (level j) hle
    rw [h.master.isr _ (by omega), decide_eq_false_iff_not] at hclear
    exact hclear ⟨j, hj, rfl⟩
  · intro habove j hj
    rw [h.master.isr j (by omega), decide_eq_false_iff_not]
    rintro ⟨k, hk, rfl⟩
    exact absurd (habove k hk) (by omega)

/-- A line of the slave asks for an interrupt of the slave. -/
theorem asks_slave (h : s.Inv masterOffset slaveOffset a) (hd : a.Deliverable (8 + irq)) :
    s.pics.slave.Asks s.pics.slave.irr irq := by
  have hlt : irq < 8 := by have := hd.lt; omega
  refine ⟨(h.slave.irr irq hlt).trans hd.pending, (h.slave.imr irq hlt).trans hd.unmasked,
    fun j hj ↦ ?_⟩
  rw [h.slave.isr j (by omega), decide_eq_false_iff_not]
  intro hj
  have hlevel := hd.above _ hj
  rw [level_of_le (by omega), level_of_le (by omega)] at hlevel
  exact absurd hlevel (lt_irrefl 2)

/-- The lines of the master, with the one that the slave is on. -/
theorem getLsbD_lines (h : s.Inv masterOffset slaveOffset a) {i : ℕ} (hi : i < 8) :
    s.pics.lines.getLsbD i = true ↔ a.pending i = true ∨
      i = 2 ∧ ∃ j, s.pics.slave.Asks s.pics.slave.irr j := by
  rw [Pics.lines]
  split <;> rename_i hslave
  · have hasks := (Pic.isSome_request_iff h.slave).mp hslave
    rw [Bits.getLsbD_or_twoPow (by decide), h.master.irr i hi]
    by_cases h2 : i = 2
    · simp [h2, hasks]
    · simp [h2]
  · have hasks := mt (Pic.isSome_request_iff h.slave).mpr hslave
    rw [h.master.irr i hi]
    simp [hasks]

/-- A line that may interrupt is one that a controller asks for. -/
theorem asks_master (h : s.Inv masterOffset slaveOffset a) (hd : a.Deliverable irq) :
    s.pics.master.Asks s.pics.lines (level irq) := by
  have hline : s.pics.lines.getLsbD (level irq) = true := by
    rw [h.getLsbD_lines (level_lt irq)]
    rcases Nat.lt_or_ge irq 8 with hlt | hge
    · rw [level_of_lt hlt]
      exact .inl hd.pending
    · refine .inr ⟨level_of_le hge, irq - 8, h.asks_slave ?_⟩
      rwa [Nat.add_sub_cancel' hge]
  have hmask : s.pics.master.imr.getLsbD (level irq) = false := by
    rw [h.master.imr _ (level_lt irq)]
    rcases Nat.lt_or_ge irq 8 with hlt | hge
    · rw [level_of_lt hlt]
      exact hd.unmasked
    · rw [level_of_le hge]
      exact hd.cascade hge
  exact ⟨hline, hmask, (h.above_iff (level_lt irq)).mpr hd.above⟩

/-- **A line of the master that it asks for may interrupt.** -/
theorem deliverable_master (h : s.Inv masterOffset slaveOffset a) {i : ℕ}
    (hi : s.pics.master.Asks s.pics.lines i) (h2 : i ≠ 2) : a.Deliverable i := by
  have hlt : i < 8 := BitVec.lt_of_getLsbD hi.line
  refine ⟨by omega, ?_, (h.master.imr i hlt).symm.trans hi.unmasked, fun h8 ↦ by omega, ?_⟩
  · exact ((h.getLsbD_lines hlt).mp hi.line).resolve_right fun hslave ↦ h2 hslave.1
  · rw [level_of_lt hlt]
    exact (h.above_iff hlt).mp hi.above

/-- **A line of the slave may interrupt if the master asks for the slave.** -/
theorem deliverable_slave (h : s.Inv masterOffset slaveOffset a) {i : ℕ}
    (hm : s.pics.master.Asks s.pics.lines 2) (hi : s.pics.slave.Asks s.pics.slave.irr i) :
    a.Deliverable (8 + i) := by
  have hlt : i < 8 := BitVec.lt_of_getLsbD hi.line
  refine ⟨by omega, (h.slave.irr i hlt).symm.trans hi.line,
    (h.slave.imr i hlt).symm.trans hi.unmasked, fun _ ↦ ?_, ?_⟩
  · exact (h.master.imr 2 (by decide)).symm.trans hm.unmasked
  · rw [level_of_le (by omega)]
    exact (h.above_iff (by decide)).mp hm.above

/-- **A line of the master interrupts.** -/
theorem acknowledge_master (h : s.Inv masterOffset slaveOffset a) {i : ℕ}
    (hi : s.pics.master.request s.pics.lines = some i) (h2 : i ≠ 2) :
    a.First i ∧ ∃ p, s.pics.acknowledge = some (i, s.pics.master.vector i, p) ∧
      ({ s with pics := p, nest := i :: s.nest } : PicSystem).Inv masterOffset slaveOffset
        { a with pending := Function.update a.pending i false, nest := i :: a.nest } := by
  obtain ⟨hasks, hleast⟩ := Pic.request_eq_some h.master hi
  have hlt : i < 8 := BitVec.lt_of_getLsbD hasks.line
  have hd := h.deliverable_master hasks h2
  refine ⟨⟨hd, fun j hj ↦ ?_⟩, { s.pics with master := s.pics.master.serve i }, ?_, ?_⟩
  · have hij := hleast _ (h.asks_master hj)
    rw [rank, rank, if_pos hlt]
    rcases Nat.lt_or_ge j 8 with hj8 | hj8
    · rw [level_of_lt hj8] at hij
      rw [if_pos hj8]
      omega
    · rw [level_of_le hj8] at hij
      rw [if_neg (by omega)]
      omega
  · have hcascade : s.pics.master.icw3.getLsbD i = false := by
      have hall : ∀ i < 8, i ≠ 2 → (0x04 : BitVec 8).getLsbD i = false := by decide
      rw [h.master.icw3]
      exact hall i hlt h2
    rw [Pics.acknowledge, hi, Option.bind_eq_bind, Option.bind_some, hcascade,
      if_neg Bool.false_ne_true]
  · refine ⟨(h.master.serve hlt).congr (fun _ _ ↦ rfl) (fun _ _ ↦ rfl) fun k hk ↦ ?_,
      h.slave.congr (fun _ _ ↦ rfl) (fun k hk ↦ ?_) fun k hk ↦ ?_, congrArg _ h.nest,
      List.pairwise_cons.mpr ⟨fun j hj ↦ hd.above j hj, h.nested⟩, ?_, ?_, h.offsets⟩
    · have hcons := update_levels i a.nest k
      rwa [level_of_lt hlt] at hcons
    · exact (Function.update_of_ne (by omega) _ _).symm
    · simp [show 8 + k ≠ i by omega]
    · intro j hj
      rcases List.mem_cons.mp hj with rfl | hj
      · exact ⟨by omega, h2⟩
      · exact h.lines j hj
    · exact (Function.update_of_ne h2.symm _ _).trans h.pending

/-- **A line of the slave interrupts.** -/
theorem acknowledge_slave (h : s.Inv masterOffset slaveOffset a) {i : ℕ}
    (hm : s.pics.master.request s.pics.lines = some 2)
    (hi : s.pics.slave.request s.pics.slave.irr = some i) :
    a.First (8 + i) ∧ ∃ p, s.pics.acknowledge = some (8 + i, s.pics.slave.vector i, p) ∧
      ({ s with pics := p, nest := (8 + i) :: s.nest } : PicSystem).Inv masterOffset slaveOffset
        { a with
          pending := Function.update a.pending (8 + i) false
          nest := (8 + i) :: a.nest } := by
  obtain ⟨hmaster, hfirst⟩ := Pic.request_eq_some h.master hm
  obtain ⟨hasks, hleast⟩ := Pic.request_eq_some h.slave hi
  have hlt : i < 8 := BitVec.lt_of_getLsbD hasks.line
  have hd := h.deliverable_slave hmaster hasks
  refine ⟨⟨hd, fun j hj ↦ ?_⟩, ⟨s.pics.master.serve 2, s.pics.slave.serve i⟩, ?_, ?_⟩
  · have hij := hfirst _ (h.asks_master hj)
    rw [rank, rank, if_neg (by omega)]
    rcases Nat.lt_or_ge j 8 with hj8 | hj8
    · rw [level_of_lt hj8] at hij
      rw [if_pos hj8]
      have hne : j ≠ 2 := by
        rintro rfl
        exact absurd (h.pending.symm.trans hj.pending) Bool.false_ne_true
      omega
    · have hij := hleast (j - 8) (h.asks_slave (by rwa [Nat.add_sub_cancel' hj8]))
      rw [if_neg (by omega)]
      omega
  · have hcascade : s.pics.master.icw3.getLsbD 2 = true := by
      rw [h.master.icw3]
      decide
    have hid : s.pics.slave.icw3.toNat = 2 := by
      rw [h.slave.icw3]
      decide
    rw [Pics.acknowledge, hm, Option.bind_eq_bind, Option.bind_some, hcascade, if_pos rfl, hid,
      if_pos rfl, hi, Option.bind_some]
  · have hserve := h.master.serve (by decide : 2 < 8)
    refine ⟨hserve.congr (fun _ _ ↦ rfl) (fun k hk ↦ ?_) fun k hk ↦ ?_,
      (h.slave.serve hlt).congr (fun _ _ ↦ rfl) (fun k hk ↦ ?_) fun k hk ↦ ?_, congrArg _ h.nest,
      List.pairwise_cons.mpr ⟨fun j hj ↦ hd.above j hj, h.nested⟩, ?_, ?_, h.offsets⟩
    · -- line 2 itself has no request
      have hother : Function.update a.pending (8 + i) false k = a.pending k :=
        Function.update_of_ne (by omega) _ _
      refine Eq.trans ?_ hother.symm
      by_cases hk2 : k = 2
      · rw [hk2, Function.update_self]
        exact h.pending.symm
      · exact Function.update_of_ne hk2 _ _
    · have hcons := update_levels (8 + i) a.nest k
      rwa [level_of_le (Nat.le_add_right 8 i)] at hcons
    · show Function.update (fun i ↦ a.pending (8 + i)) i false k =
        Function.update a.pending (8 + i) false (8 + k)
      simp only [Function.update_apply, Nat.add_left_cancel_iff]
    · rw [Function.update_apply]
      by_cases hki : k = i <;> simp [hki]
    · intro j hj
      rcases List.mem_cons.mp hj with rfl | hj
      · exact ⟨by omega, by omega⟩
      · exact h.lines j hj
    · exact (Function.update_of_ne (by omega) _ _).trans h.pending

/-- **The controllers without a request** say so. -/
theorem not_deliverable (h : s.Inv masterOffset slaveOffset a) (hnone : s.pics.acknowledge = none)
    (j : ℕ) : ¬a.Deliverable j := by
  intro hj
  rcases hm : s.pics.master.request s.pics.lines with _ | i
  · exact Pic.request_eq_none h.master hm _ (h.asks_master hj)
  by_cases h2 : i = 2
  · subst h2
    have hasks := (Pic.request_eq_some h.master hm).1
    obtain ⟨i, hi⟩ := (((h.getLsbD_lines (by decide)).mp hasks.line).resolve_left fun hp ↦
      absurd (h.pending.symm.trans hp) Bool.false_ne_true).2
    obtain ⟨k, hk⟩ := Option.isSome_iff_exists.mp ((Pic.isSome_request_iff h.slave).mpr ⟨i, hi⟩)
    obtain ⟨-, p, hsome, -⟩ := h.acknowledge_slave hm hk
    exact Option.some_ne_none _ (hsome.symm.trans hnone)
  · obtain ⟨-, p, hsome, -⟩ := h.acknowledge_master hm h2
    exact Option.some_ne_none _ (hsome.symm.trans hnone)

/-- A device asks for an interrupt. -/
theorem raise (h : s.Inv masterOffset slaveOffset a) (hlt : irq < 16) (h2 : irq ≠ 2) :
    ({ s with pics := s.pics.raise irq } : PicSystem).Inv masterOffset slaveOffset
      { a with pending := Function.update a.pending irq true } := by
  have hline : Function.update a.pending irq true 2 = false :=
    (Function.update_of_ne h2.symm _ _).trans h.pending
  rcases Nat.lt_or_ge irq 8 with h8 | h8
  · have hraise : s.pics.raise irq = { s.pics with master := s.pics.master.raise irq } := if_pos h8
    rw [hraise]
    refine { h with master := h.master.raise h8, slave := ?_, pending := hline }
    refine h.slave.congr (fun _ _ ↦ rfl) (fun k _ ↦ ?_) fun _ _ ↦ rfl
    exact (Function.update_of_ne (by omega) _ _).symm
  · have hraise : s.pics.raise irq = { s.pics with slave := s.pics.slave.raise (irq - 8) } :=
      if_neg (Nat.not_lt_of_le h8)
    rw [hraise]
    refine { h with master := ?_, slave := ?_, pending := hline }
    · refine h.master.congr (fun _ _ ↦ rfl) (fun k _ ↦ ?_) fun _ _ ↦ rfl
      exact (Function.update_of_ne (by omega) _ _).symm
    · refine (h.slave.raise (by omega)).congr (fun _ _ ↦ rfl) (fun k _ ↦ ?_) fun _ _ ↦ rfl
      simp only [Function.update_apply, show k = irq - 8 ↔ 8 + k = irq by omega]

/-- **A handler ends its own interrupt**, on one controller or on both. -/
theorem signalEOI (h : s.Inv masterOffset slaveOffset a) {irq : BitVec 8}
    (hirq : s.nest.head? = some irq.toNat) :
    ({ s with pics := PicController.signalEOI irq s.pics, nest := s.nest.tail } : PicSystem).Inv
      masterOffset slaveOffset { a with nest := a.nest.tail } := by
  obtain ⟨rest, hnest⟩ : ∃ rest, a.nest = irq.toNat :: rest := by
    rw [h.nest] at hirq
    exact ⟨_, List.eq_cons_of_mem_head? hirq⟩
  have hnested := h.nested
  rw [hnest, List.pairwise_cons] at hnested
  have hlines := h.lines
  rw [hnest] at hlines
  have hmaster := h.master
  have hslave := h.slave
  rw [hnest] at hmaster hslave
  -- what runs inside has the highest level
  have hend := hmaster.endOfInterrupt (level_lt irq.toNat)
    (decide_eq_true ⟨_, List.mem_cons_self, rfl⟩) fun k hk ↦ decide_eq_false fun ⟨j, hj, hjk⟩ ↦ by
      rcases List.mem_cons.mp hj with rfl | hj
      · omega
      · have := hnested.1 j hj
        omega
  have hmaster' : (s.pics.master.command 0x20).Holds ((masterOffset &&& 0xF8#16).setWidth 8) 0x04
      a.masked a.pending fun i ↦ decide (∃ j ∈ rest, level j = i) := by
    refine hend.congr (fun _ _ ↦ rfl) (fun _ _ ↦ rfl) fun k _ ↦ ?_
    rw [Function.update_apply]
    split
    · subst k
      exact (decide_eq_false fun ⟨j, hj, hjk⟩ ↦ (hnested.1 j hj).ne hjk.symm).symm
    · simp [*, eq_comm]
  have htail : a.nest.tail = rest := by rw [hnest, List.tail_cons]
  have hkeep : ∀ p : Pics,
      p.master.Holds ((masterOffset &&& 0xF8#16).setWidth 8) 0x04 a.masked a.pending
        (fun i ↦ decide (∃ j ∈ rest, level j = i)) →
      p.slave.Holds ((slaveOffset &&& 0xF8#16).setWidth 8) 0x02 (fun i ↦ a.masked (8 + i))
        (fun i ↦ a.pending (8 + i)) (fun i ↦ decide (8 + i ∈ rest)) →
      ({ s with pics := p, nest := s.nest.tail } : PicSystem).Inv masterOffset slaveOffset
        { a with nest := a.nest.tail } := by
    intro p hm hs
    rw [h.nest, htail]
    exact ⟨hm, hs, rfl, hnested.2, fun j hj ↦ hlines j (List.mem_cons_of_mem _ hj), h.pending,
      h.offsets⟩
  by_cases h8 : irq < 8
  · have heoi : PicController.signalEOI irq s.pics =
        { s.pics with master := s.pics.master.command 0x20 } := if_pos h8
    have hlt : irq.toNat < 8 := h8
    rw [heoi]
    refine hkeep _ hmaster' (hslave.congr (fun _ _ ↦ rfl) (fun _ _ ↦ rfl) fun k _ ↦ ?_)
    simp [show 8 + k ≠ irq.toNat by omega]
  · have heoi : PicController.signalEOI irq s.pics =
        ⟨s.pics.master.command 0x20, s.pics.slave.command 0x20⟩ := if_neg h8
    have hge : 8 ≤ irq.toNat := Nat.le_of_not_lt h8
    have hlt := (hlines _ List.mem_cons_self).1
    -- the slave has one interrupt in service
    have hother : ∀ k, 8 + k ∉ rest := fun k hk ↦ by
      have hlevel := hnested.1 _ hk
      rw [level_of_le hge, level_of_le (by omega)] at hlevel
      exact absurd hlevel (lt_irrefl 2)
    have hend := hslave.endOfInterrupt (i := irq.toNat - 8) (by omega)
      (decide_eq_true (by rw [Nat.add_sub_cancel' hge]; exact List.mem_cons_self)) fun k hk ↦
        decide_eq_false fun hmem ↦ by
          rcases List.mem_cons.mp hmem with heq | hmem
          · omega
          · exact hother k hmem
    rw [heoi]
    refine hkeep _ hmaster' (hend.congr (fun _ _ ↦ rfl) (fun _ _ ↦ rfl) fun k _ ↦ ?_)
    rw [Function.update_apply]
    split
    · exact (decide_eq_false (hother k)).symm
    · simp [show 8 + k ≠ irq.toNat by omega]

/-- **The masks are what was written last.** -/
theorem writeMasks (h : s.Inv masterOffset slaveOffset a) {p : Pics} {masked : ℕ → Bool}
    {mm sm : BitVec 8} (hp : p = ⟨s.pics.master.data mm, s.pics.slave.data sm⟩)
    (hm : ∀ i < 8, mm.getLsbD i = masked i) (hs : ∀ i < 8, sm.getLsbD i = masked (8 + i)) :
    ({ s with pics := p } : PicSystem).Inv masterOffset slaveOffset
      { a with masked := masked } := by
  subst hp
  exact { h with
    master := (h.master.data mm).congr hm (fun _ _ ↦ rfl) fun _ _ ↦ rfl
    slave := (h.slave.data sm).congr hs (fun _ _ ↦ rfl) fun _ _ ↦ rfl }

/-- The bit of a line, as the driver makes it. -/
theorem setWidth_shiftLeft (n : ℕ) : (1#32 <<< n).setWidth 8 = BitVec.twoPow 8 n := by
  refine BitVec.eq_of_getLsbD_eq fun i hi ↦ ?_
  rw [BitVec.getLsbD_setWidth, ← BitVec.twoPow_eq, BitVec.getLsbD_twoPow, BitVec.getLsbD_twoPow]
  by_cases hn : n = i
  · simp [hn, hi, show i < 32 by omega]
  · simp [hn]

theorem setWidth_not_shiftLeft (n : ℕ) :
    (~~~(1#32 <<< n)).setWidth 8 = ~~~BitVec.twoPow 8 n := by
  rw [BitVec.setWidth_not (by decide), setWidth_shiftLeft]

/-- **One mask changes**, on the controller of its line. -/
theorem changeMask (h : s.Inv masterOffset slaveOffset a) {irq : BitVec 8} (hirq : irq < 15)
    {value : Bool} {p : Pics} (change : BitVec 8 → ℕ → BitVec 8)
    (hchange : ∀ x n, n < 8 → ∀ j, (change x n).getLsbD j = if j = n then value else x.getLsbD j)
    (hp : p = if irq < 8 then
        { s.pics with master := s.pics.master.data (change s.pics.master.imr irq.toNat) }
      else { s.pics with slave := s.pics.slave.data (change s.pics.slave.imr (irq - 8).toNat) }) :
    ({ s with pics := p } : PicSystem).Inv masterOffset slaveOffset
      { a with masked := Function.update a.masked irq.toNat value } := by
  have hlt : irq.toNat < 15 := hirq
  by_cases h8 : irq < 8
  · have hlt8 : irq.toNat < 8 := h8
    rw [if_pos h8] at hp
    have hpics : p = ⟨s.pics.master.data (change s.pics.master.imr irq.toNat),
        s.pics.slave.data s.pics.slave.imr⟩ := by rw [hp, h.slave.data_imr]
    refine h.writeMasks hpics (fun i hi ↦ ?_) fun i hi ↦ ?_
    · rw [hchange _ _ hlt8, h.master.imr i hi, Function.update_apply]
    · rw [h.slave.imr i hi, Function.update_of_ne (by omega)]
  · have hge : 8 ≤ irq.toNat := Nat.le_of_not_lt h8
    have hsub : (irq - 8).toNat = irq.toNat - 8 := BitVec.toNat_sub_of_le hge
    rw [if_neg h8, hsub] at hp
    have hpics : p = ⟨s.pics.master.data s.pics.master.imr,
        s.pics.slave.data (change s.pics.slave.imr (irq.toNat - 8))⟩ := by
      rw [hp, h.master.data_imr]
    refine h.writeMasks hpics (fun i hi ↦ ?_) fun i hi ↦ ?_
    · rw [h.master.imr i hi, Function.update_of_ne (by omega)]
    · rw [hchange _ _ (by omega), h.slave.imr i hi, Function.update_apply]
      simp only [show i = irq.toNat - 8 ↔ 8 + i = irq.toNat by omega]

theorem maskIrq (h : s.Inv masterOffset slaveOffset a) {irq : BitVec 8} (hirq : irq < 15) :
    ∃ p, PicController.maskIrq irq s.pics = .ok p ∧
      ({ s with pics := p } : PicSystem).Inv masterOffset slaveOffset
        { a with masked := Function.update a.masked irq.toNat true } := by
  refine ⟨_, ?_, h.changeMask hirq (fun x n ↦ x ||| BitVec.twoPow 8 n)
    (fun x n hn j ↦ Bits.getLsbD_or_twoPow hn) rfl⟩
  rw [PicController.maskIrq, kassert, Exec.check_of hirq]
  simp only [Exec.ok_bind, setWidth_shiftLeft]
  split <;> rfl

theorem setIrq (h : s.Inv masterOffset slaveOffset a) {irq : BitVec 8} (hirq : irq < 15) :
    ∃ p, PicController.setIrq irq s.pics = .ok p ∧
      ({ s with pics := p } : PicSystem).Inv masterOffset slaveOffset
        { a with masked := Function.update a.masked irq.toNat false } := by
  refine ⟨_, ?_, h.changeMask hirq (fun x n ↦ x &&& ~~~BitVec.twoPow 8 n)
    (fun x n hn j ↦ Bits.getLsbD_and_not_twoPow) rfl⟩
  rw [PicController.setIrq, kassert, Exec.check_of hirq]
  simp only [Exec.ok_bind, setWidth_not_shiftLeft]
  split <;> rfl

/-- **Two masks side by side.** -/
theorem getLsbD_pack (x y : BitVec 8) {i : ℕ} (hi : i < 8) :
    (x.setWidth 16 <<< 8 ||| y.setWidth 16).getLsbD (8 + i) = x.getLsbD i ∧
      (x.setWidth 16 <<< 8 ||| y.setWidth 16).getLsbD i = y.getLsbD i := by
  constructor
  · simp [hi, show 8 + i < 16 by omega]
  · simp [hi, show i < 16 by omega]

/-- **What `GetIrr` and `GetIsr` read**, whatever they chose. -/
theorem readRegister (h : s.Inv masterOffset slaveOffset a) {ocw3 : BitVec 8}
    (h4 : ocw3.getLsbD 4 = false) (h3 : ocw3.getLsbD 3 = true) :
    ∃ bm p, PicController.readRegister ocw3 s.pics = (bm, p) ∧
      ({ s with pics := p } : PicSystem).Inv masterOffset slaveOffset a ∧
      ∀ i < 16, bm.getLsbD i = a.masked i := by
  obtain ⟨hm, hmimr⟩ := h.master.command_ocw3 h4 h3
  obtain ⟨hs, hsimr⟩ := h.slave.command_ocw3 h4 h3
  refine ⟨_, _, rfl, { h with master := hm, slave := hs }, fun i hi ↦ ?_⟩
  show ((s.pics.slave.command ocw3).imr.setWidth 16 <<< 8 |||
    (s.pics.master.command ocw3).imr.setWidth 16).getLsbD i = a.masked i
  rw [hsimr, hmimr]
  rcases Nat.lt_or_ge i 8 with h8 | h8
  · rw [(getLsbD_pack _ _ h8).2, h.master.imr i h8]
  · obtain ⟨k, rfl⟩ := Nat.exists_eq_add_of_le h8
    rw [(getLsbD_pack _ _ (by omega)).1, h.slave.imr k (by omega)]

/-- **The constructor leaves controllers without masks.** -/
theorem new (p : Pics) {c : PicController} {p' : Pics}
    (hnew : (c, p') = PicController.new masterOffset slaveOffset p) :
    (⟨c, p', []⟩ : PicSystem).Inv masterOffset slaveOffset
      ⟨fun _ ↦ false, fun _ ↦ false, []⟩ := by
  have hwords : (0x11#16).setWidth 8 = 0x11 ∧ (0x04#16).setWidth 8 = 0x04 ∧
      (0x02#16).setWidth 8 = 0x02 ∧ (0x01#16).setWidth 8 = 0x01 := by decide
  obtain ⟨h1, h2, h3, h4⟩ := hwords
  have hoffsets : c.masterOffset = masterOffset ∧ c.slaveOffset = slaveOffset := by
    rw [(Prod.mk.inj hnew).1]
    exact ⟨rfl, rfl⟩
  rw [(Prod.mk.inj hnew).2, PicController.flushICWs_eq]
  simp only [BitVec.ofNat_eq_ofNat, h1, h2, h3, h4]
  have hclear : ∀ i < 8, (0 : BitVec 8).getLsbD i = false := fun _ _ ↦ BitVec.getLsbD_zero
  have hmaster := (Pic.setUp p.master ((masterOffset &&& 0xF8#16).setWidth 8) 0x04).data 0
  have hslave := (Pic.setUp p.slave ((slaveOffset &&& 0xF8#16).setWidth 8) 0x02).data 0
  exact ⟨hmaster.congr hclear (fun _ _ ↦ rfl) fun _ _ ↦ by simp,
    hslave.congr hclear (fun _ _ ↦ rfl) fun _ _ ↦ by simp, rfl, List.Pairwise.nil, by simp, rfl,
    hoffsets⟩

end Inv

/-! ### Vectors -/

/-- The vector of a controller: the lowest bits of the offset do not count. -/
theorem vector_eq (offset : BitVec 16) {i : ℕ} (hi : i < 8) :
    (offset &&& 0xF8#16).setWidth 8 &&& 0xF8#8 ||| BitVec.ofNat 8 i =
      BitVec.ofNat 8 (offset.toNat / 8 * 8 + i) := by
  refine BitVec.eq_of_getLsbD_eq fun k hk ↦ ?_
  have hupper : ∀ k < 8, (0xF8#16).getLsbD k = decide (3 ≤ k) ∧
      (0xF8#8).getLsbD k = decide (3 ≤ k) := by decide
  have hsum : (offset.toNat / 8 * 8 + i).testBit k =
      if k < 3 then i.testBit k else offset.getLsbD k := by
    rw [show offset.toNat / 8 * 8 + i = 2 ^ 3 * (offset.toNat / 2 ^ 3) + i by omega,
      Nat.testBit_two_pow_mul_add _ (by omega : i < 2 ^ 3)]
    split
    · rfl
    · rw [Nat.testBit_div_two_pow, show k - 3 + 3 = k by omega, BitVec.testBit_toNat]
  rw [BitVec.getLsbD_or, BitVec.getLsbD_and, BitVec.getLsbD_setWidth, BitVec.getLsbD_and,
    (hupper k hk).1, (hupper k hk).2, BitVec.getLsbD_ofNat 8 i, BitVec.getLsbD_ofNat 8 (_ + i),
    hsum]
  by_cases h3 : k < 3
  · simp [hk, h3, Nat.not_le_of_lt h3]
  · have hpow : 2 ^ 3 ≤ 2 ^ k := Nat.pow_le_pow_right (by decide) (Nat.le_of_not_lt h3)
    have hlow : i.testBit k = false := Nat.testBit_lt_two_pow (hi.trans_le hpow)
    simp [hk, h3, Nat.le_of_not_lt h3, hlow]

namespace Inv

theorem vector_master (h : s.Inv masterOffset slaveOffset a) (hlt : irq < 8) :
    s.pics.master.vector irq = lineVector masterOffset slaveOffset irq := by
  rw [Pic.vector, h.master.icw2, vector_eq masterOffset hlt, lineVector, if_pos hlt]

theorem vector_slave (h : s.Inv masterOffset slaveOffset a) (hlt : irq < 8) :
    s.pics.slave.vector irq = lineVector masterOffset slaveOffset (8 + irq) := by
  rw [Pic.vector, h.slave.icw2, vector_eq slaveOffset hlt, lineVector, if_neg (by omega),
    Nat.add_sub_cancel_left]

/-- **The processor takes an interrupt**, or there is none. -/
theorem acknowledge (h : s.Inv masterOffset slaveOffset a) :
    (∃ irq p, s.pics.acknowledge = some (irq, lineVector masterOffset slaveOffset irq, p) ∧
      a.First irq ∧
      ({ s with pics := p, nest := irq :: s.nest } : PicSystem).Inv masterOffset slaveOffset
        { a with pending := Function.update a.pending irq false, nest := irq :: a.nest }) ∨
    s.pics.acknowledge = none ∧ ∀ irq, ¬a.Deliverable irq := by
  rcases hack : s.pics.acknowledge with _ | r
  · exact .inr ⟨rfl, h.not_deliverable hack⟩
  left
  rcases hm : s.pics.master.request s.pics.lines with _ | i
  · simp [Pics.acknowledge, hm] at hack
  have hasks := (Pic.request_eq_some h.master hm).1
  by_cases h2 : i = 2
  · subst h2
    obtain ⟨j, hj⟩ := (((h.getLsbD_lines (by decide)).mp hasks.line).resolve_left fun hp ↦
      absurd (h.pending.symm.trans hp) Bool.false_ne_true).2
    obtain ⟨k, hk⟩ := Option.isSome_iff_exists.mp ((Pic.isSome_request_iff h.slave).mpr ⟨j, hj⟩)
    have hlt : k < 8 := BitVec.lt_of_getLsbD (Pic.request_eq_some h.slave hk).1.line
    obtain ⟨hfirst, p, hsome, hinv⟩ := h.acknowledge_slave hm hk
    rw [h.vector_slave hlt, hack] at hsome
    exact ⟨8 + k, p, hsome, hfirst, hinv⟩
  · obtain ⟨hfirst, p, hsome, hinv⟩ := h.acknowledge_master hm h2
    rw [h.vector_master (BitVec.lt_of_getLsbD hasks.line), hack] at hsome
    exact ⟨i, p, hsome, hfirst, hinv⟩

end Inv

/-! ## The refinement -/

theorem simulates (masterOffset slaveOffset : BitVec 16) :
    (picMachine masterOffset slaveOffset).Simulates
      (linesSpec (lineVector masterOffset slaveOffset)) (Inv masterOffset slaveOffset) where
  init := by
    rintro ⟨c, p', nest⟩ ⟨p, hnew, rfl⟩
    exact ⟨_, rfl, .new p hnew⟩
  step := by
    intro s a k h hk
    cases k with
    | raise irq => exact ⟨_, _, _, rfl, ⟨rfl, rfl⟩, h.raise hk.1 hk.2⟩
    | acknowledge =>
      rcases h.acknowledge with ⟨irq, p, hack, hfirst, hinv⟩ | ⟨hack, hnone⟩
      · refine ⟨_, _, _, ?_, .inl ⟨irq, hfirst, rfl, rfl⟩, hinv⟩
        simp only [picMachine, step, hack]
        rfl
      · refine ⟨_, _, _, ?_, .inr ⟨hnone, rfl, rfl⟩, h⟩
        simp only [picMachine, step, hack]
        rfl
    | signalEOI irq => exact ⟨_, _, _, rfl, ⟨rfl, rfl⟩, h.signalEOI hk⟩
    | maskIrq irq =>
      obtain ⟨p, hp, hinv⟩ := h.maskIrq hk
      exact ⟨_, _, _, Exec.bind_eq_ok.mpr ⟨p, hp, rfl⟩, ⟨rfl, rfl⟩, hinv⟩
    | setIrq irq =>
      obtain ⟨p, hp, hinv⟩ := h.setIrq hk
      exact ⟨_, _, _, Exec.bind_eq_ok.mpr ⟨p, hp, rfl⟩, ⟨rfl, rfl⟩, hinv⟩
    | enable =>
      have hclear : ∀ i < 8, (0 : BitVec 8).getLsbD i = false := fun _ _ ↦ BitVec.getLsbD_zero
      exact ⟨_, _, _, rfl, ⟨rfl, rfl⟩, h.writeMasks rfl hclear hclear⟩
    | disable =>
      have hset : ∀ i < 8, (0xFF : BitVec 8).getLsbD i = true := by decide
      exact ⟨_, _, _, rfl, ⟨rfl, rfl⟩, h.writeMasks rfl hset hset⟩
    | masksbm =>
      refine ⟨_, _, _, rfl, ⟨_, rfl, rfl, fun i hi ↦ ?_⟩, h⟩
      obtain ⟨hmaster, hslave⟩ := Inv.getLsbD_pack s.pics.master.imr s.pics.slave.imr hi
      exact ⟨hmaster.trans (h.master.imr i hi), hslave.trans (h.slave.imr i hi)⟩
    | getIrr =>
      have h4 : (0x0a : BitVec 8).getLsbD 4 = false := by decide
      obtain ⟨bm, p, hread, hinv, hbm⟩ := h.readRegister h4 (by decide)
      refine ⟨.masks bm, { s with pics := p }, _, ?_, ⟨bm, rfl, rfl, hbm⟩, hinv⟩
      simp only [picMachine, step, PicController.getIrr, hread]
      rfl
    | getIsr =>
      have h4 : (0x0b : BitVec 8).getLsbD 4 = false := by decide
      obtain ⟨bm, p, hread, hinv, hbm⟩ := h.readRegister h4 (by decide)
      refine ⟨.masks bm, { s with pics := p }, _, ?_, ⟨bm, rfl, rfl, hbm⟩, hinv⟩
      simp only [picMachine, step, PicController.getIsr, hread]
      rfl

end PicSystem

/-! ## `IrqToVector` -/

/-- A line below the offset, and below the multiple of eight. -/
theorem ofNat_add_eq_iff (n : ℕ) {i : ℕ} :
    BitVec.ofNat 8 (n + i) = BitVec.ofNat 8 (n / 8 * 8 + i) ↔ 8 ∣ n := by
  rw [← BitVec.toNat_inj, BitVec.toNat_ofNat, BitVec.toNat_ofNat]
  omega

theorem irqToVector_eq (c : PicController) {irq : BitVec 8} (hirq : irq < 16) :
    c.irqToVector irq = .ok (if irq.toNat < 8 then BitVec.ofNat 8 (c.masterOffset.toNat + irq.toNat)
      else BitVec.ofNat 8 (c.slaveOffset.toNat + (irq.toNat - 8))) := by
  have hlt : irq.toNat < 16 := hirq
  rw [PicController.irqToVector, kassert, Exec.check_of hirq, Exec.ok_bind]
  by_cases h8 : irq < 8
  · have hlt8 : irq.toNat < 8 := h8
    rw [if_pos h8, if_pos hlt8]
    refine congrArg Except.ok (BitVec.eq_of_toNat_eq ?_)
    simp only [BitVec.toNat_setWidth, BitVec.toNat_add, BitVec.toNat_ofNat]
    omega
  · have hge : 8 ≤ irq.toNat := Nat.le_of_not_lt h8
    have hsub : (irq.setWidth 16 - 8).toNat = irq.toNat - 8 := by
      have hle : (8 : BitVec 16) ≤ irq.setWidth 16 := by
        show 8 ≤ (irq.setWidth 16).toNat
        rw [BitVec.toNat_setWidth]
        omega
      rw [BitVec.toNat_sub_of_le hle, BitVec.toNat_setWidth]
      show irq.toNat % 65536 - 8 = _
      omega
    rw [if_neg h8, if_neg (by omega)]
    refine congrArg Except.ok (BitVec.eq_of_toNat_eq ?_)
    simp only [BitVec.toNat_setWidth, BitVec.toNat_add, BitVec.toNat_ofNat, hsub]
    omega

/-- **`IrqToVector` is right for all lines, exactly if the offsets count in eights.** -/
theorem irqToVector_eq_lineVector_iff (c : PicController) :
    (∀ irq < 16, c.irqToVector irq = .ok (lineVector c.masterOffset c.slaveOffset irq.toNat)) ↔
      8 ∣ c.masterOffset.toNat ∧ 8 ∣ c.slaveOffset.toNat := by
  constructor
  · intro h
    have h0 := h 0 (by decide)
    have h8 := h 8 (by decide)
    rw [irqToVector_eq c (by decide)] at h0 h8
    exact ⟨(ofNat_add_eq_iff _).mp (Except.ok.inj h0), (ofNat_add_eq_iff _).mp (Except.ok.inj h8)⟩
  · rintro ⟨hmaster, hslave⟩ irq hirq
    rw [irqToVector_eq c hirq, lineVector, (ofNat_add_eq_iff _).mpr hmaster,
      (ofNat_add_eq_iff _).mpr hslave]

/-- A controller that waits for its third word. -/
def waitingPic : Pic := ⟨.icw3, 0, 0, 0, 0, 0xFF, 0xFF, 0xFF, true⟩

end X8664.Interrupt
