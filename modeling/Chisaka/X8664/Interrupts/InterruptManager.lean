import Chisaka.X8664.Interrupts.GateDescriptor
import Chisaka.X8664.Interrupts.PicRuns

/-!
# From a line to its handler

`InterruptManager` keeps 256 gates, and tells the processor where they are, and up to which byte.
The processor finds the gate of a vector by itself, and takes the handler from the three fields of
its address.

`interruptsSpec` is the whole path: what interrupts, and the handler that runs then, the one that
was installed last for its vector.  The refinement (`interrupts_refine`) is about runs of devices,
the controllers and the processor, with both drivers, in any order.  Its vectors are those of
`IrqToVector`, so both offsets have to be multiples of eight.

The constructor installs 240 gates, so of the last sixteen vectors nothing is known before
`InstallISR`: only the type of their gates is set.
-/

set_option autoImplicit false

namespace X8664

open Chisaka Interrupt

/-! ## The table -/

/-- `KERNEL_CODE_SEGMENT`. -/
def kernelCodeSegment : BitVec 8 := 0b1000

/-- `IdtTable`: of the `m_entries` there are 256. -/
structure IdtTable where
  /-- `m_entries`. -/
  entries : ℕ → GateDescriptor

/-- `IdtDescriptor`. -/
structure IdtDescriptor where
  /-- `m_limit`. -/
  limit : BitVec 16
  /-- `m_offset`. -/
  offset : BitVec 64

namespace IdtTable

/-- `IdtTable()`, over what the memory held before. -/
def new (memory : ℕ → GateDescriptor) : Exec IdtTable := do
  let entries ← (List.range 256).foldlM (fun entries i ↦ do
    let g ← (entries i).new
    return Function.update entries i g) memory
  return ⟨entries⟩

/-- `Size`. -/
def size (_ : IdtTable) : ℕ := 256 * 16

/-- An assignment to `operator[](index)`. -/
def set (t : IdtTable) (index : ℕ) (g : GateDescriptor) : Exec IdtTable := do
  kassert (index < 256)
  return ⟨Function.update t.entries index g⟩

end IdtTable

/-- `SwitchIdt`, to a table at an address. -/
def IdtDescriptor.switchIdt (_ : IdtDescriptor) (idt : IdtTable) (address : BitVec 64) :
    IdtDescriptor where
  limit := BitVec.ofNat 16 (idt.size - 1)
  offset := address

/-- `InterruptManager`, and the register that `LoadCurrent` loads. -/
structure InterruptManager where
  /-- `m_table`. -/
  table : IdtTable
  /-- Its address. -/
  address : BitVec 64
  /-- `m_idtr`. -/
  idtr : IdtDescriptor
  /-- What the processor holds. -/
  register : IdtDescriptor

namespace InterruptManager

/-- `InstallISR(index, handler)`.  The gate is made in `memory`. -/
def installISR (memory : GateDescriptor) (index : BitVec 16) (handler : BitVec 64)
    (m : InterruptManager) : Exec InterruptManager := do
  let g := memory.ofAttributes ⟨handler, kernelCodeSegment.setWidth 16, true⟩
  let table ← m.table.set index.toNat g
  return { m with table := table }

/-- `InitialiseGates`.  `isr` are the handlers of the exceptions, and `null` is `Null`. -/
def initialiseGates (memory : GateDescriptor) (isr : ℕ → BitVec 64) (null : BitVec 64)
    (m : InterruptManager) : Exec InterruptManager :=
  (List.range 240).foldlM (fun m i ↦
    m.installISR memory (BitVec.ofNat 16 i) (if 32 ≤ i then null else isr i)) m

/-- `SwitchLoad(m_table)`, of `m_idtr`. -/
def switchLoad (m : InterruptManager) : InterruptManager :=
  let idtr := m.idtr.switchIdt m.table m.address
  { m with idtr := idtr, register := idtr }

/-- `InterruptManager()`. -/
def new (memory : ℕ → GateDescriptor) (address : BitVec 64) (idtr register : IdtDescriptor)
    (isr : ℕ → BitVec 64) (null : BitVec 64) : Exec InterruptManager := do
  let table ← IdtTable.new memory
  let m : InterruptManager := ⟨table, address, idtr, register⟩
  let m ← m.initialiseGates (memory 256) isr null
  return m.switchLoad

/-- **The processor looks a vector up**: the gate has to be within the limit, present, and an
interrupt gate to the code of the kernel. -/
def lookup (m : InterruptManager) (vector : BitVec 8) : Option (BitVec 64) :=
  if 16 * vector.toNat + 15 ≤ m.register.limit.toNat ∧ m.register.offset = m.address then
    let g := m.table.entries vector.toNat
    if g.accessByte.getLsbD 7 ∧ g.accessByte.extractLsb' 0 4 = 0xE ∧ g.segmentSelector = 0x08 then
      some (g.offset2 ++ g.offset1 ++ g.offset0)
    else none
  else none

end InterruptManager

/-! ## What it is for -/

/-- What is done with interrupts. -/
inductive InterruptCall
  /-- `InstallISR(index, handler)`. -/
  | installISR (memory : GateDescriptor) (index : BitVec 16) (handler : BitVec 64)
  /-- Something happens to the lines. -/
  | lines (k : PicCall)

/-- What comes back. -/
inductive InterruptAnswer
  /-- Nothing. -/
  | done
  /-- An answer of the lines, but for an interrupt. -/
  | answer (r : PicAnswer)
  /-- The handler of the interrupt, if its gate leads to one. -/
  | entered (handler : Option (BitVec 64))

/-- An interrupt runs the handler of its vector. -/
def dispatch (handlers : BitVec 8 → Option (BitVec 64)) : PicAnswer → InterruptAnswer
  | .interrupt (some vector) => .entered (handlers vector)
  | r => .answer r

/-- The gates, and the lines. -/
structure InterruptSystem where
  /-- The gates. -/
  manager : InterruptManager
  /-- The lines. -/
  pics : PicSystem

/-- The kernel's interrupts, after both constructors. -/
def interruptMachine (masterOffset slaveOffset : BitVec 16) (isr : ℕ → BitVec 64)
    (null : BitVec 64) : Machine InterruptSystem InterruptCall InterruptAnswer where
  init s := (∃ memory address idtr register,
      InterruptManager.new memory address idtr register isr null = .ok s.manager) ∧
    (picMachine masterOffset slaveOffset).init s.pics
  enabled s k := match k with
    | .installISR _ index _ => index < 256
    | .lines k => s.pics.Enabled k
  step s k := match k with
    | .installISR memory index handler => do
      let m ← s.manager.installISR memory index handler
      return (.done, { s with manager := m })
    | .lines k => do
      let (r, p) ← s.pics.step k
      return (dispatch s.manager.lookup r, { s with pics := p })

/-- Lines, and a handler for each vector. -/
structure Interrupts where
  /-- The handlers. -/
  handlers : BitVec 8 → Option (BitVec 64)
  /-- The lines. -/
  lines : Lines

/-- **An interrupt runs the handler that was installed last.** -/
def interruptsSpec (vector : ℕ → BitVec 8) (isr : ℕ → BitVec 64) (null : BitVec 64) :
    Spec Interrupts InterruptCall InterruptAnswer where
  init a := (∀ v, v.toNat < 240 →
      a.handlers v = some (if 32 ≤ v.toNat then null else isr v.toNat)) ∧
    (linesSpec vector).init a.lines
  step a k r a' := match k with
    | .installISR _ index handler => r = .done ∧
      a' = { a with handlers := Function.update a.handlers (index.setWidth 8) (some handler) }
    | .lines k => ∃ r' lines, (linesSpec vector).step a.lines k r' lines ∧
      r = dispatch a.handlers r' ∧ a' = { a with lines := lines }

/-! ## Gates -/

variable {m : InterruptManager} {memory : GateDescriptor} {index : BitVec 16} {v : BitVec 8}
  {handler : BitVec 64}

/-- The gate that `InstallISR` makes. -/
def kernelGate (handler : BitVec 64) : GateDescriptor := .gate handler 0x08 true

namespace InterruptManager

theorem installISR_eq (memory : GateDescriptor) (handler : BitVec 64) (h : index.toNat < 256) :
    m.installISR memory index handler = .ok { m with
      table := ⟨Function.update m.table.entries index.toNat (kernelGate handler)⟩ } := by
  have hsegment : kernelCodeSegment.setWidth 16 = 0x08#16 := by decide
  rw [installISR, IdtTable.set, kassert, Exec.check_of h, GateDescriptor.ofAttributes_eq, hsegment]
  rfl

/-- The processor knows where the table is. -/
structure Loaded (m : InterruptManager) : Prop where
  /-- The limit is its last byte. -/
  limit : m.register.limit = 4095
  /-- The offset is its address. -/
  offset : m.register.offset = m.address

/-- Every vector is within the limit. -/
theorem Loaded.within (h : m.Loaded) (v : BitVec 8) :
    16 * v.toNat + 15 ≤ m.register.limit.toNat ∧ m.register.offset = m.address := by
  refine ⟨?_, h.offset⟩
  have hv := v.isLt
  rw [h.limit]
  show 16 * v.toNat + 15 ≤ 4095
  omega

/-- **The processor reads the handler that the driver wrote.** -/
theorem Loaded.lookup_eq (h : m.Loaded) (hv : m.table.entries v.toNat = kernelGate handler) :
    m.lookup v = some handler := by
  have hpresent : (0x8E#8).getLsbD 7 = true := by decide
  have htype : (0x8E#8).extractLsb' 0 4 = 0xE := by decide
  have hoffset : (kernelGate handler).offset2 ++ (kernelGate handler).offset1 ++
      (kernelGate handler).offset0 = handler := by
    rw [← GateDescriptor.offset_eq]
    exact (GateDescriptor.gate_decodes handler 0x08 true).offset
  rw [lookup, if_pos (h.within v), hv]
  exact (if_pos ⟨hpresent, htype, rfl⟩).trans (congrArg some hoffset)

/-- Gates of other vectors stay. -/
theorem lookup_congr {m' : InterruptManager} (hr : m'.register = m.register)
    (ha : m'.address = m.address) (hv : m'.table.entries v.toNat = m.table.entries v.toNat) :
    m'.lookup v = m.lookup v := by
  rw [lookup, lookup, hr, ha, hv]

/-- **One handler is installed.** -/
theorem Loaded.installISR (h : m.Loaded) (memory : GateDescriptor) (handler : BitVec 64)
    (hindex : index.toNat < 256) : ∃ m', m.installISR memory index handler = .ok m' ∧ m'.Loaded ∧
      m'.lookup = Function.update m.lookup (index.setWidth 8) (some handler) := by
  have hwidth : (index.setWidth 8).toNat = index.toNat := by
    rw [BitVec.toNat_setWidth]
    exact Nat.mod_eq_of_lt hindex
  have hloaded : ({ m with table := ⟨Function.update m.table.entries index.toNat
      (kernelGate handler)⟩ } : InterruptManager).Loaded := ⟨h.limit, h.offset⟩
  refine ⟨_, installISR_eq memory handler hindex, hloaded, funext fun v ↦ ?_⟩
  rw [Function.update_apply]
  by_cases hv : v = index.setWidth 8
  · rw [if_pos hv, hv]
    refine hloaded.lookup_eq ?_
    rw [hwidth]
    exact Function.update_self ..
  · rw [if_neg hv]
    refine lookup_congr rfl rfl (Function.update_of_ne (fun heq ↦ hv ?_) _ _)
    exact BitVec.eq_of_toNat_eq (heq.trans hwidth.symm)

/-- **The constructor loads a table with 240 handlers**, over any memory. -/
theorem new_spec (memory : ℕ → GateDescriptor) (address : BitVec 64)
    (idtr register : IdtDescriptor) (isr : ℕ → BitVec 64) (null : BitVec 64) :
    ∃ m, new memory address idtr register isr null = .ok m ∧ m.Loaded ∧
      ∀ v : BitVec 8, v.toNat < 240 →
        m.lookup v = some (if 32 ≤ v.toNat then null else isr v.toNat) := by
  obtain ⟨table, htable⟩ : ∃ table, IdtTable.new memory = .ok table := by
    let entries := fun i ↦ if i < 256 then (memory i).setSegmentType else memory i
    have hloop : (List.range 256).foldlM (fun entries i ↦ do
        let g ← (entries i).new
        return Function.update entries i g) memory = .ok entries := by
      refine Exec.foldlM_range_update.mpr ⟨fun i hi ↦ ?_, fun i hi ↦ ?_⟩
      · rw [GateDescriptor.new_eq]
        exact congrArg Except.ok (if_pos hi).symm
      · exact if_neg (Nat.not_lt_of_le hi)
    exact ⟨_, Exec.bind_eq_ok.mpr ⟨_, hloop, rfl⟩⟩
  -- the handlers up to here are installed, and the table is not loaded yet
  obtain ⟨m, hm, haddress, hentries⟩ := Exec.foldlM_range_returns (n := 240)
    (s := (⟨table, address, idtr, register⟩ : InterruptManager))
    (f := fun m i ↦ m.installISR (memory 256) (BitVec.ofNat 16 i) (if 32 ≤ i then null else isr i))
    (I := fun n m ↦ m.address = address ∧
      ∀ i < n, m.table.entries i = kernelGate (if 32 ≤ i then null else isr i))
    ⟨rfl, fun i hi ↦ absurd hi (Nat.not_lt_zero i)⟩ fun n hn m ⟨ha, hm⟩ ↦ by
      have hindex : (BitVec.ofNat 16 n).toNat = n := by
        rw [BitVec.toNat_ofNat]
        exact Nat.mod_eq_of_lt (by omega)
      refine ⟨_, installISR_eq _ _ (by omega), ha, fun i hi ↦ ?_⟩
      show Function.update m.table.entries (BitVec.ofNat 16 n).toNat _ i = _
      rw [hindex]
      by_cases hin : i = n
      · rw [hin, Function.update_self]
      · rw [Function.update_of_ne hin, hm i (by omega)]
  have hloaded : m.switchLoad.Loaded := ⟨rfl, rfl⟩
  refine ⟨m.switchLoad, ?_, hloaded, fun v hv ↦ hloaded.lookup_eq (hentries _ hv)⟩
  rw [new, htable, Exec.ok_bind]
  exact Exec.bind_eq_ok.mpr ⟨m, hm, rfl⟩

end InterruptManager

/-! ## The refinement -/

variable {masterOffset slaveOffset : BitVec 16} {isr : ℕ → BitVec 64} {null : BitVec 64}

/-- The invariant of a run, which is also the simulation relation. -/
structure InterruptSystem.Inv (masterOffset slaveOffset : BitVec 16) (s : InterruptSystem)
    (a : Interrupts) : Prop where
  /-- The processor knows the table. -/
  loaded : s.manager.Loaded
  /-- The gates lead to the handlers. -/
  handlers : s.manager.lookup = a.handlers
  /-- The lines. -/
  pics : s.pics.Inv masterOffset slaveOffset a.lines

theorem InterruptSystem.simulates (masterOffset slaveOffset : BitVec 16) (isr : ℕ → BitVec 64)
    (null : BitVec 64) : (interruptMachine masterOffset slaveOffset isr null).Simulates
      (interruptsSpec (lineVector masterOffset slaveOffset) isr null)
      (InterruptSystem.Inv masterOffset slaveOffset) where
  init := by
    rintro s ⟨⟨memory, address, idtr, register, hnew⟩, hpics⟩
    obtain ⟨m, hm, hloaded, hlookup⟩ :=
      InterruptManager.new_spec memory address idtr register isr null
    obtain rfl := Except.ok.inj (hm.symm.trans hnew)
    obtain ⟨l, hl, hinv⟩ := (PicSystem.simulates masterOffset slaveOffset).init _ hpics
    exact ⟨⟨s.manager.lookup, l⟩, ⟨hlookup, hl⟩, hloaded, rfl, hinv⟩
  step := by
    intro s a k h hk
    cases k with
    | installISR memory index handler =>
      obtain ⟨m, hm, hloaded, hlookup⟩ := h.loaded.installISR memory handler hk
      refine ⟨_, _, _, Exec.bind_eq_ok.mpr ⟨m, hm, rfl⟩, ⟨rfl, rfl⟩, hloaded, ?_, h.pics⟩
      rw [hlookup, h.handlers]
    | lines k =>
      obtain ⟨r, p, l, hp, hstep, hinv⟩ :=
        (PicSystem.simulates masterOffset slaveOffset).step _ _ k h.pics hk
      refine ⟨_, _, _, Exec.bind_eq_ok.mpr ⟨(r, p), hp, rfl⟩, ⟨r, l, hstep, ?_, rfl⟩,
        h.loaded, h.handlers, hinv⟩
      exact congrArg (fun handlers ↦ dispatch handlers r) h.handlers

end X8664
