import Chisaka.Lib.Bytes
import Chisaka.Lib.Chain
import Chisaka.Memmap.MemoryMap

/-!
# The page allocator

`Freelist` keeps the free pages of the machine on two singly linked lists.  A list entry lives in
the page it stands for: the first word of a free page is the address of the next free page.  Pages
of memory regions that reach above `CUTOFF` are put on the list of `Head()`, the others on that of
`LowHead()`, which serves the drivers that need 32-bit addresses.

The functions here are those of the class, in its order.  A `ListEntry&` that is one of the two
heads is passed as the address it holds, `listHead`, and handed back; memory is threaded through.
Loops are `Loop.exec` of their body.

`Aii::Memset` belongs to a library outside the kernel.  It is a parameter, and `MemsetSpec` is
what it is documented to do.
-/

set_option autoImplicit false

namespace Chisaka.PageAllocators

open Bytes Chain

/-- `CUTOFF`: the last 32-bit address. -/
def cutoff : ℕ := 0xFFFFFFFF

/-- `RamOptions`. -/
inductive RamOptions
  | Z
  | LOW
  deriving DecidableEq, Repr

/-- The type of `Aii::Memset(p, v, len)`. -/
abbrev Memset := Memory → ℕ → ℕ → ℕ → Memory

/-- `Aii::Memset(p, v, len)` sets exactly the `len` bytes at `p` to `v`. -/
def MemsetSpec (memset : Memset) : Prop :=
  ∀ (m : Memory) (p v len x : ℕ),
    memset m p v len x = if p ≤ x ∧ x < p + len then UInt8.ofNat v else m x

/-- The allocator, together with the memory its lists are threaded through. -/
structure Freelist where
  /-- Physical memory. -/
  mem : Memory
  /-- `m_head.next`. -/
  head : ℕ
  /-- `m_lowHead.next`. -/
  lowHead : ℕ
  /-- `m_freePagesTop`. -/
  freePagesTop : ℕ
  /-- `m_freePagesLow`. -/
  freePagesLow : ℕ

/-! ## Initialisation -/

/-- The loop of `SetupRegion`, over memory and `current`. -/
def setupRegionBody (limit : ℕ) : Memory × ℕ → Exec ((Memory × ℕ) ⊕ (Memory × ℕ))
  | (mem, current) =>
    if current < limit then
      if add64 current pageSize < limit then do
        let mem ← store mem current (add64 current pageSize)
        return .inl (mem, add64 current pageSize)
      else return .inl (mem, add64 current pageSize)
    else return .inr (mem, current)

/-- `SetupRegion`: link the pages of a region, the last page set up before it to the first, and
return the last one. -/
def setupRegion (mem : Memory) (base length lastAddr : ℕ) : Exec (Memory × ℕ) := do
  let mem ← if lastAddr ≠ 0 then store mem lastAddr base else pure mem
  let (mem, current) ← Loop.exec (setupRegionBody (add64 base length)) (mem, base)
  return (mem, sub64 current pageSize)

/-- The locals of the two initialisation loops, with the head and the counter they set. -/
structure InitState where
  /-- Memory. -/
  mem : Memory
  /-- The head of the list being built. -/
  listHead : ℕ
  /-- `firstIteration`. -/
  firstIteration : Bool
  /-- `lastAddr`. -/
  lastAddr : ℕ
  /-- `FreePages()` or `FreePagesLow()`. -/
  freePages : ℕ

/-- One round of an initialisation loop.  The entries it takes are the `Useable` ones for which
`keep` holds of `base + length`. -/
def initialiseEntry (keep : ℕ → Bool) (s : InitState) (entry : MemoryMapEntry) :
    Exec InitState :=
  let base := entry.base.toNat
  let length := entry.length.toNat
  if keep (add64 base length) ∧ entry.type = .Useable then do
    let (mem, lastAddr) ← setupRegion s.mem base length (if s.firstIteration then 0 else s.lastAddr)
    return { mem := mem
             listHead := if s.firstIteration then base else s.listHead
             firstIteration := false
             lastAddr := lastAddr
             freePages := add64 s.freePages (length / pageSize) }
  else return s

/-- What `InitialiseList` and `InitialiseLowList` share: run through the entries, and terminate
the list. -/
def initialiseEntries (keep : ℕ → Bool) (entries : List MemoryMapEntry) (mem : Memory)
    (listHead freePages : ℕ) : Exec InitState := do
  let s ← entries.foldlM (initialiseEntry keep) ⟨mem, listHead, true, 0, freePages⟩
  if s.lastAddr = 0 then
    return { s with listHead := 0 }
  let mem ← store s.mem s.lastAddr 0
  return { s with mem := mem }

/-- `InitialiseList`. -/
def initialiseList (memMap : MemoryMap) (fl : Freelist) : Exec Freelist := do
  let s ← initialiseEntries (fun top ↦ decide (cutoff < top)) memMap.entries fl.mem fl.head
    fl.freePagesTop
  return { fl with mem := s.mem, head := s.listHead, freePagesTop := s.freePages }

/-- `InitialiseLowList`. -/
def initialiseLowList (memMap : MemoryMap) (fl : Freelist) : Exec Freelist := do
  let s ← initialiseEntries (fun top ↦ decide (top ≤ cutoff)) memMap.entries fl.mem fl.lowHead
    fl.freePagesLow
  return { fl with mem := s.mem, lowHead := s.listHead, freePagesLow := s.freePages }

/-- `Init`. -/
def init (memMap : MemoryMap) (fl : Freelist) : Exec Freelist := do
  let fl ← initialiseList memMap { fl with freePagesTop := 0, freePagesLow := 0 }
  initialiseLowList memMap fl

/-! ## Allocating a page -/

/-- `AllocatePageImpl`. -/
def allocatePageImpl (mem : Memory) (listHead : ℕ) : Exec (ℕ × Memory × ℕ) := do
  let allocd := listHead
  let listHead ← if allocd ≠ 0 then load mem listHead else pure 0
  let mem ← store mem allocd 0
  return (allocd, mem, listHead)

/-- `AllocatePage()`. -/
def allocatePage (fl : Freelist) : Exec (ℕ × Freelist) :=
  if fl.head ≠ 0 then do
    let (p, mem, head) ← allocatePageImpl fl.mem fl.head
    return (p, { fl with mem := mem, head := head, freePagesTop := sub64 fl.freePagesTop 1 })
  else if fl.lowHead ≠ 0 then do
    let (p, mem, lowHead) ← allocatePageImpl fl.mem fl.lowHead
    return (p, { fl with mem := mem, lowHead := lowHead, freePagesLow := sub64 fl.freePagesLow 1 })
  else return (0, fl)

/-- `AllocatePage(options)`. -/
def allocatePageOpt (memset : Memset) (options : RamOptions) (fl : Freelist) :
    Exec (ℕ × Freelist) := do
  let (allocd, fl) ←
    if options = .LOW then do
      let (p, mem, lowHead) ← allocatePageImpl fl.mem fl.lowHead
      pure (p, { fl with mem := mem, lowHead := lowHead })
    else do
      let (p, mem, head) ← allocatePageImpl fl.mem fl.head
      pure (p, { fl with mem := mem, head := head })
  if allocd ≠ 0 ∧ options = .Z then
    return (allocd, { fl with mem := memset fl.mem allocd 0 pageSize })
  else return (allocd, fl)

/-! ## Extracting a block -/

/-- The loop that follows `NextFree` a given number of times. -/
def nextFrees (mem : Memory) : ℕ → ℕ → Exec ℕ
  | 0, entry => .ok entry
  | pages + 1, entry => do
    let entry ← load mem entry
    nextFrees mem pages entry

/-- The walk of `ExtractImpl` over `current` and `next`. -/
def extractBody (mem : Memory) (pageaddr : ℕ) : ℕ × ℕ → Exec ((ℕ × ℕ) ⊕ (ℕ × ℕ))
  | (current, next) =>
    if next < pageaddr then do
      let after ← load mem next
      return .inl (next, after)
    else return .inr (current, next)

/-- `ExtractImpl`. -/
def extractImpl (mem : Memory) (listHead pageaddr pages : ℕ) : Exec (Memory × ℕ) := do
  let current := listHead
  if current = 0 then
    return (mem, listHead)
  let listHead ← if current = pageaddr then nextFrees mem pages pageaddr else pure listHead
  let next ← load mem current
  if next = 0 then
    return (mem, listHead)
  let (current, next) ← Loop.exec (extractBody mem pageaddr) (current, next)
  if pageaddr < next then
    return (mem, listHead)
  kassert (next = pageaddr)
  let last ← nextFrees mem pages pageaddr
  let mem ← store mem current last
  return (mem, listHead)

/-- `Extract(pageaddr, pages)`. -/
def extract (pageaddr pages : ℕ) (fl : Freelist) : Exec Freelist :=
  if pageaddr ≤ cutoff then do
    let (mem, lowHead) ← extractImpl fl.mem fl.lowHead pageaddr pages
    return { fl with mem := mem, lowHead := lowHead }
  else do
    let (mem, head) ← extractImpl fl.mem fl.head pageaddr pages
    return { fl with mem := mem, head := head }

/-! ## Allocating a block -/

/-- The locals of the scan for contiguous pages. -/
structure ScanState where
  /-- `count`. -/
  count : ℕ
  /-- `allocBase`. -/
  allocBase : ℕ
  /-- `currentEntry`. -/
  currentEntry : ℕ
  /-- `nextEntry`. -/
  nextEntry : ℕ

/-- One round of the scan.  It ends with the base of the block, or with `none` where the function
returns `nullptr`. -/
def scanBody (mem : Memory) (pages : ℕ) (s : ScanState) : Exec (ScanState ⊕ Option ℕ) :=
  if s.count < pages then do
    let isContigous := add64 s.currentEntry pageSize = s.nextEntry
    if isContigous ∧ s.count + 1 = pages then
      return .inr (some s.allocBase)
    let count := if isContigous then s.count + 1 else 1
    let allocBase := if isContigous then s.allocBase else s.nextEntry
    let currentEntry ← load mem s.currentEntry
    if currentEntry = 0 then
      return .inr none
    let nextEntry ← load mem s.nextEntry
    if nextEntry = 0 then
      return .inr none
    return .inl ⟨count, allocBase, currentEntry, nextEntry⟩
  else return .inr (some s.allocBase)

/-- `AllocatePagesImpl`. -/
def allocatePagesImpl (mem : Memory) (listHead pages : ℕ) : Exec (ℕ × Memory × ℕ) := do
  if listHead = 0 then
    return (0, mem, listHead)
  let nextEntry ← load mem listHead
  if nextEntry = 0 then
    return (0, mem, listHead)
  match ← Loop.exec (scanBody mem pages) ⟨1, listHead, listHead, nextEntry⟩ with
  | none => return (0, mem, listHead)
  | some allocBase =>
    let (mem, listHead) ← extractImpl mem listHead allocBase pages
    return (allocBase, mem, listHead)

/-- `AllocatePages(pages)`. -/
def allocatePages (pages : ℕ) (fl : Freelist) : Exec (ℕ × Freelist) := do
  let (p, mem, head) ← allocatePagesImpl fl.mem fl.head pages
  return (p, { fl with mem := mem, head := head })

/-- `AllocatePages(pages, options)`.  The length passed to `Memset` is a 32-bit product. -/
def allocatePagesOpt (memset : Memset) (pages : ℕ) (options : RamOptions) (fl : Freelist) :
    Exec (ℕ × Freelist) := do
  let (allocd, fl) ←
    if options = .LOW then do
      let (p, mem, lowHead) ← allocatePagesImpl fl.mem fl.lowHead pages
      pure (p, { fl with mem := mem, lowHead := lowHead })
    else do
      let (p, mem, head) ← allocatePagesImpl fl.mem fl.head pages
      pure (p, { fl with mem := mem, head := head })
  if allocd ≠ 0 ∧ options = .Z then
    return (allocd, { fl with mem := memset fl.mem allocd 0 (pages * pageSize % 2 ^ 32) })
  else return (allocd, fl)

/-! ## Returning a page -/

/-- `DeallocPageImpl`. -/
def deallocPageImpl (mem : Memory) (listHead base : ℕ) : Exec (Memory × ℕ) :=
  let allocd := base
  if listHead = 0 then do
    let mem ← store mem allocd 0
    return (mem, allocd)
  else if allocd < listHead then do
    let mem ← store mem allocd listHead
    return (mem, allocd)
  else do
    let next ← load mem listHead
    if next = 0 then
      -- the returned page becomes the last entry, and its own link stays as it is
      let mem ← store mem listHead allocd
      return (mem, listHead)
    kassert (listHead < allocd)
    kassert (next ≠ 0)
    let (current, next) ← seek (load mem) 0 allocd (listHead, next)
    let mem ← store mem current allocd
    let mem ← store mem allocd next
    return (mem, listHead)

/-- `DeallocPage(base)`. -/
def deallocPage (base : ℕ) (fl : Freelist) : Exec Freelist :=
  if base = 0 then return fl
  else if base ≤ cutoff then do
    let (mem, lowHead) ← deallocPageImpl fl.mem fl.lowHead base
    return { fl with mem := mem, lowHead := lowHead, freePagesLow := add64 fl.freePagesLow 1 }
  else do
    let (mem, head) ← deallocPageImpl fl.mem fl.head base
    return { fl with mem := mem, head := head, freePagesTop := add64 fl.freePagesTop 1 }

end Chisaka.PageAllocators
