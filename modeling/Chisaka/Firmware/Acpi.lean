import Chisaka.Lib.Bytes
import Chisaka.Types

/-!
# The tables of the firmware

`Acpi` is given a table of the firmware, the RSDP, and finds the root table through it: the XSDT if
there is one, and the RSDT otherwise.  A root table is a header, whose `length` counts bytes, and
behind it the addresses of the other tables, of eight bytes in an XSDT and of four in an RSDT.

`InitialiseTablePtrs` goes through the addresses of a root table.  It takes any root table for an
RSDT, and makes as many rounds as the table has *bytes*.  `Inspects` is what it should do, and
`inspects_never` says that it does so for no table.

The functions are those of the classes.  Tables are bytes in memory, and a field of a table is what
is read at its offset.
-/

set_option autoImplicit false

namespace Chisaka

open Bytes

/-! ## The tables -/

/-- The `n` characters at an address. -/
def chars (mem : Memory) (a n : ℕ) : List UInt8 := (List.range n).map fun i ↦ mem (a + i)

/-- A signature as the bytes that it is compared with. -/
def sig (s : List Char) : List UInt8 := s.map fun c ↦ UInt8.ofNat c.toNat

namespace TableHeader

/-- `signature`. -/
def signature (mem : Memory) (table : ℕ) : List UInt8 := chars mem table 4

/-- `length`. -/
def length (mem : Memory) (table : ℕ) : ℕ := readLE mem (table + 4) 4

end TableHeader

/-- The size of a `TableHeader`. -/
def headerSize : ℕ := 36

namespace RsdpTable

/-- `signature`. -/
def signature (mem : Memory) (table : ℕ) : List UInt8 := chars mem table 8

/-- `rsdtAddr`. -/
def rsdtAddr (mem : Memory) (table : ℕ) : ℕ := readLE mem (table + 16) 4

/-- `xsdtAddr`. -/
def xsdtAddr (mem : Memory) (table : ℕ) : ℕ := readLE mem (table + 24) 8

/-- `IsSignatureCorrect`. -/
def IsSignatureCorrect (mem : Memory) (table : ℕ) : Prop :=
  signature mem table = sig ['R', 'S', 'D', ' ', 'P', 'T', 'R', ' ']

/-- `XsdtPresent`. -/
def XsdtPresent (mem : Memory) (table : ℕ) : Prop := xsdtAddr mem table ≠ 0

instance (mem : Memory) (table : ℕ) : Decidable (IsSignatureCorrect mem table) :=
  inferInstanceAs (Decidable (_ = _))

instance (mem : Memory) (table : ℕ) : Decidable (XsdtPresent mem table) :=
  inferInstanceAs (Decidable (_ ≠ _))

end RsdpTable

/-- `FadtTable::SIG`. -/
def fadtSig : List UInt8 := sig ['F', 'A', 'C', 'P']

/-- `HpetTable::SIG`. -/
def hpetSig : List UInt8 := sig ['H', 'P', 'E', 'T']

/-- `RsdtTable::SIG`. -/
def rsdtSig : List UInt8 := sig ['R', 'S', 'D', 'T']

/-- `XsdtTable::SIG`. -/
def xsdtSig : List UInt8 := sig ['X', 'S', 'D', 'T']

/-- `KContext::PhysToVirtAddr`. -/
def physToVirtAddr (hhdmOffset paddr : ℕ) : ℕ := add64 paddr hhdmOffset

/-- Where `tablePointers[index]` of an RSDT lies. -/
def RsdtTable.entryAddr (rsdt index : ℕ) : ℕ := add64 rsdt (headerSize + 4 * index)

/-- `RsdtTable::VirtEntryHeader`. -/
def RsdtTable.virtEntryHeader (hhdmOffset : ℕ) (mem : Memory) (rsdt index : ℕ) : ℕ :=
  physToVirtAddr hhdmOffset (readLE mem (entryAddr rsdt index) 4)

/-! ## The class -/

/-- `Acpi`. -/
structure Acpi where
  /-- `m_rsdp`. -/
  rsdp : ℕ
  /-- The union of `m_rsdt` and `m_xsdt`. -/
  root : ℕ
  /-- `m_fadt`. -/
  fadt : ℕ
  /-- `m_hpet`. -/
  hpet : ℕ
  deriving DecidableEq, Repr

namespace Acpi

/-- The table that a pointer leads to. -/
def follow (p : ℕ) : Exec ℕ := if p = 0 then .error .nullDeref else .ok p

/-- `InitialiseRoot`. -/
def initialiseRoot (hhdmOffset : ℕ) (mem : Memory) (addr : ℕ) (a : Acpi) : Exec Acpi := do
  let rsdp ← follow addr
  kassert (RsdpTable.IsSignatureCorrect mem rsdp)
  if RsdpTable.XsdtPresent mem rsdp then
    let xsdt ← follow (RsdpTable.xsdtAddr mem rsdp)
    kassert (TableHeader.signature mem xsdt = xsdtSig)
    return { a with rsdp := rsdp, root := xsdt }
  else
    let rsdt ← follow (physToVirtAddr hhdmOffset (RsdpTable.rsdtAddr mem rsdp))
    kassert (TableHeader.signature mem rsdt = rsdtSig)
    kassert (TableHeader.length mem rsdt = 0x38)
    return { a with rsdp := rsdp, root := rsdt }

/-- A table pointer in memory. -/
structure Entry where
  /-- Where it lies. -/
  addr : ℕ
  /-- Its size in bytes. -/
  size : ℕ
  deriving DecidableEq, Repr

/-- The state of the loop in `InitialiseTablePtrs`, with the table pointers that were inspected. -/
structure TablePtrs where
  /-- The class. -/
  acpi : Acpi
  /-- What was inspected. -/
  inspected : List Entry

/-- What the loop does with a header and a signature: take the table if the header has it. -/
def adopt (mem : Memory) (nextheader : ℕ) (sig : List UInt8) (a taken : Acpi) : Exec Acpi :=
  if TableHeader.signature mem nextheader = sig then do
    kassert (TableHeader.signature mem nextheader = sig)
    return taken
  else
    return a

/-- One round of the loop. -/
def initialiseTablePtr (hhdmOffset : ℕ) (mem : Memory) (s : TablePtrs) (i : ℕ) :
    Exec TablePtrs := do
  let nextheader ← follow (RsdtTable.virtEntryHeader hhdmOffset mem s.acpi.root i)
  let a ← adopt mem nextheader fadtSig s.acpi { s.acpi with fadt := nextheader }
  let a ← adopt mem nextheader hpetSig a { a with hpet := nextheader }
  return ⟨a, s.inspected ++ [⟨RsdtTable.entryAddr s.acpi.root i, 4⟩]⟩

/-- `InitialiseTablePtrs`. -/
def initialiseTablePtrs (hhdmOffset : ℕ) (mem : Memory) (a : Acpi) : Exec TablePtrs :=
  (List.range (TableHeader.length mem a.root)).foldlM (initialiseTablePtr hhdmOffset mem) ⟨a, []⟩

/-! ## What it should do -/

/-- The table pointers that a root table has room for behind its header. -/
def entries (mem : Memory) (root size : ℕ) : List Entry :=
  (List.range ((TableHeader.length mem root - headerSize) / size)).map fun i ↦
    ⟨add64 root (headerSize + size * i), size⟩

/-- The table pointers that the root table lists: those of an XSDT if there is one. -/
def listed (mem : Memory) (a : Acpi) : List Entry :=
  entries mem a.root (if RsdpTable.XsdtPresent mem a.rsdp then 8 else 4)

/-- The table that an entry points to. -/
def Entry.table (hhdmOffset : ℕ) (mem : Memory) (e : Entry) : ℕ :=
  physToVirtAddr hhdmOffset (readLE mem e.addr e.size)

/-- `t` is a listed table with the signature of an HPET. -/
def ListsHpet (hhdmOffset : ℕ) (mem : Memory) (a : Acpi) (t : ℕ) : Prop :=
  (∃ e ∈ listed mem a, e.table hhdmOffset mem = t) ∧ TableHeader.signature mem t = hpetSig

/-- **`InitialiseTablePtrs` inspects the listed table pointers and no others**, and then `HpetPtr()`
is a listed HPET if there is one. -/
def Inspects (hhdmOffset : ℕ) (mem : Memory) (a : Acpi) : Prop :=
  ∃ s, initialiseTablePtrs hhdmOffset mem a = .ok s ∧ s.inspected = listed mem a ∧
    ((∃ t, ListsHpet hhdmOffset mem a t) → ListsHpet hhdmOffset mem a s.acpi.hpet)

/-! ## What it does -/

variable {hhdmOffset addr i : ℕ} {mem : Memory} {a a' : Acpi} {s s' : TablePtrs}

/-- A table that is taken leaves the root alone. -/
theorem adopt_root {nextheader : ℕ} {sig : List UInt8} {taken : Acpi}
    (h : adopt mem nextheader sig a taken = .ok a') (htaken : taken.root = a.root) :
    a'.root = a.root := by
  rw [adopt] at h
  split at h
  · rw [kassert, Exec.check_bind_eq_ok] at h
    rw [← Except.ok.inj h.2, htaken]
  · rw [← Except.ok.inj h]

/-- **A round inspects one more entry**, and does not change the root. -/
theorem initialiseTablePtr_spec (h : initialiseTablePtr hhdmOffset mem s i = .ok s') :
    s'.inspected = s.inspected ++ [⟨RsdtTable.entryAddr s.acpi.root i, 4⟩] ∧
      s'.acpi.root = s.acpi.root := by
  obtain ⟨nextheader, -, h⟩ := Exec.bind_eq_ok.mp h
  obtain ⟨a₁, h₁, h⟩ := Exec.bind_eq_ok.mp h
  obtain ⟨a₂, h₂, h⟩ := Exec.bind_eq_ok.mp h
  obtain rfl := Except.ok.inj h
  exact ⟨rfl, (adopt_root h₂ rfl).trans (adopt_root h₁ rfl)⟩

/-- **It inspects as many entries as the root table has bytes**, each of four bytes. -/
theorem inspected_eq (h : initialiseTablePtrs hhdmOffset mem a = .ok s) :
    s.inspected = (List.range (TableHeader.length mem a.root)).map fun i ↦
      ⟨RsdtTable.entryAddr a.root i, 4⟩ := by
  have hinv := Exec.foldlM_range_induct (I := fun i (s : TablePtrs) ↦
    s.inspected = ((List.range i).map fun i ↦ ⟨RsdtTable.entryAddr a.root i, 4⟩) ∧
      s.acpi.root = a.root) ⟨rfl, rfl⟩ ?_ h
  · exact hinv.1
  rintro i - s s' ⟨hins, hroot⟩ hs
  obtain ⟨hins', hroot'⟩ := initialiseTablePtr_spec hs
  refine ⟨?_, hroot'.trans hroot⟩
  rw [hins', hins, hroot, List.range_succ, List.map_append]
  rfl

/-- There are fewer entries than bytes. -/
theorem length_listed (h : headerSize ≤ TableHeader.length mem a.root) :
    (listed mem a).length < TableHeader.length mem a.root := by
  have hpos : 0 < TableHeader.length mem a.root := lt_of_lt_of_le (by decide) h
  rw [listed, entries, List.length_map, List.length_range]
  refine lt_of_le_of_lt (Nat.div_le_self _ _) ?_
  exact Nat.sub_lt hpos (by decide)

/-- **It never inspects the entries of the root table**, be it an RSDT or an XSDT. -/
theorem inspects_never (_hroot : initialiseRoot hhdmOffset mem addr a = .ok a')
    (hlen : headerSize ≤ TableHeader.length mem a'.root) : ¬Inspects hhdmOffset mem a' := by
  rintro ⟨s, hs, hins, -⟩
  have hlen' := congrArg List.length (inspected_eq hs)
  rw [hins, List.length_map, List.length_range] at hlen'
  exact Nat.ne_of_lt (length_listed hlen) hlen'

/-! ## A firmware -/

/-- Put bytes at an address. -/
def place (a : ℕ) (l : List UInt8) (mem : Memory) : Memory := fun x ↦
  if a ≤ x then (l[x - a]?).getD (mem x) else mem x

/-- An RSDP whose RSDT lists five tables: four are empty, and the last one is an HPET. -/
def firmware : Memory :=
  place 0x10100 (sig ['R', 'S', 'D', ' ', 'P', 'T', 'R', ' ']) <|
  place 0x10110 [0x00, 0x02, 0x00, 0x00] <|
  place 0x10200 (rsdtSig ++ [0x38, 0x00, 0x00, 0x00]) <|
  place 0x10234 [0x00, 0x03, 0x00, 0x00] <|
  place 0x10300 (hpetSig ++ [0x38, 0x00, 0x00, 0x00]) fun _ ↦ 0

/-- The class when the root table is found. -/
def rooted : Acpi := ⟨0x10100, 0x10200, 0, 0⟩

theorem inspects_never_firmware :
    initialiseRoot 0x10000 firmware 0x10100 ⟨0, 0, 0, 0⟩ = .ok rooted ∧
      ¬Inspects 0x10000 firmware rooted :=
  have hroot : initialiseRoot 0x10000 firmware 0x10100 ⟨0, 0, 0, 0⟩ = .ok rooted := by decide
  ⟨hroot, inspects_never hroot (by decide)⟩

/-- **The five entries of an RSDT are not all that is inspected**: 56 are. -/
theorem not_inspects_firmware : ¬∀ (hhdmOffset : ℕ) (mem : Memory) (addr : ℕ) (a a' : Acpi),
    initialiseRoot hhdmOffset mem addr a = .ok a' → headerSize ≤ TableHeader.length mem a'.root →
      Inspects hhdmOffset mem a' := by
  intro h
  obtain ⟨s, hs, hins, -⟩ :=
    h 0x10000 firmware 0x10100 ⟨0, 0, 0, 0⟩ rooted (by decide) (by decide)
  have hfive : s.inspected.length = 5 := by rw [hins]; decide
  rw [inspected_eq hs, List.length_map, List.length_range] at hfive
  exact absurd hfive (by decide)

end Acpi

end Chisaka
