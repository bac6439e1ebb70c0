import Chisaka.Process.ProcessManager

/-!
# The tree of processes

Runs of `CreateProcess` after `Init`.  `ProcessRun.Sound` is what the tree should look like: ids
that tell processes apart and differ from the mark for "no child", parents that are set, and every
process reachable once from its parent.

No code assigns to `parent` or `sibling`, so both are whatever `kmalloc`'s memory contained.
`Spawned` is what a call does to the processes, and `createProcess_sound_iff` what those contents
have to be for the call to leave a sound tree (`Lucky`).

All this is about an `Init` that returns, which depends on the assignment that `MapKernel` makes
behind the page table (`ProcessManager.init_assigns`).  With an unchecked array and 48 bits of
addresses it does not (`ProcessManager.init_unchecked_48`).
-/

set_option autoImplicit false

namespace Chisaka

open Bytes Objects

/-- A manager, and the processes that `CreateProcess` has made, latest first. -/
structure ProcessRun where
  /-- The manager. -/
  m : ProcessManager
  /-- The processes it has made. -/
  children : List ℕ

/-- The link to the next sibling, null where there is no process. -/
def Processes.siblingOf (procs : Processes) (p : ℕ) : ℕ := ((procs p).map Process.sibling).getD 0

/-- The sibling links, followed from `first`, pass through `p` exactly once. -/
def Processes.PassesOnce (procs : Processes) (first p : ℕ) : Prop :=
  ∃! n : ℕ, procs.siblingOf^[n] first = p

namespace ProcessRun

/-- A call of `CreateProcess`. -/
def step (assign : ArrayAssign) (s : ProcessRun) (k : Spawn) : Exec (ℕ × ProcessRun) := do
  let (p, m) ← s.m.createProcess assign k
  return (p, ⟨m, p :: s.children⟩)

/-- The memory is fresh: it is somewhere, and there is no process. -/
def Enabled (s : ProcessRun) (k : Spawn) : Prop := k.addr ≠ 0 ∧ s.m.procs k.addr = none

/-- The processes there are. -/
def created (s : ProcessRun) : List ℕ := s.children ++ [s.m.root]

/-- The id of a process. -/
def idOf (s : ProcessRun) (p : ℕ) : Option UInt8 := (s.m.procs p).map Process.id

/-- **What the tree should look like.** -/
structure Sound (s : ProcessRun) : Prop where
  /-- The ids are distinct. -/
  ids : (s.created.map s.idOf).Nodup
  /-- None of them is the mark for "no child". -/
  ids_ne : ∀ p ∈ s.created, s.idOf p ≠ some noChild
  /-- The current process is the parent of those it made. -/
  parent : ∀ p ∈ s.children, ∃ q c, s.m.procs p = some q ∧ s.m.procs s.m.current = some c ∧
    q.parent = s.m.current ∧ q.parentId = c.id
  /-- From its parent, a process is reached once. -/
  linked : ∀ p ∈ s.children, ∃ q c, s.m.procs p = some q ∧ s.m.procs q.parent = some c ∧
    s.m.procs.PassesOnce c.child p

/-- The first child of the current process, once another one has been linked. -/
def firstChild (s : ProcessRun) (addr : ℕ) : ℕ :=
  match s.m.procs s.m.current with
  | some c => if c.child = 0 then addr else c.child
  | none => 0

/-- The contents of the memory happen to be right: there are ids left, the memory has the current
process in the place of `parent`, the words in the places of `sibling` link the children to a list,
and the assignment beyond the page table returns. -/
structure Lucky (assign : ArrayAssign) (s : ProcessRun) (k : Spawn) : Prop where
  /-- There are ids left. -/
  room : s.m.procCount < 255
  /-- The memory has the current process in the place of `parent`. -/
  parent : k.contents.parent = s.m.current
  /-- The words in the places of `sibling` link the children. -/
  siblings : ∀ p ∈ k.addr :: s.children,
    Processes.PassesOnce (s.m.procs.put k.addr k.contents) (s.firstChild k.addr) p
  /-- The assignment beyond the page table returns. -/
  mapped : ∃ m', s.m.mapKernel assign k.table = .ok m'

end ProcessRun

/-- The manager after `Init`, and the calls of `CreateProcess`. -/
def processMachine (assign : ArrayAssign) : Machine ProcessRun Spawn ℕ where
  init s := s.children = [] ∧ ∃ m k, m.procs = (fun _ ↦ none) ∧ m.procCount = 0 ∧ k.addr ≠ 0 ∧
    ProcessManager.init assign m k = .ok s.m
  enabled := ProcessRun.Enabled
  step := ProcessRun.step assign

/-! ## What a call does -/

namespace Processes

variable {β : Type} {g : Process → β} {procs procs' : Processes} {p q : ℕ} {c : Process}

theorem agree_linkChild (h : procs.linkChild p q = .ok procs')
    (hg : ∀ p c, g { p with child := c } = g p) : Agree g procs procs' := by
  simp only [linkChild, Exec.bind_eq_ok] at h
  obtain ⟨c, -, h⟩ := h
  split at h
  · cases h
    exact Agree.refl g procs
  · exact agree_modify h fun a ↦ hg a q

/-- `linkChild` sets a null `child`. -/
theorem linkChild_child (h : procs.linkChild p q = .ok procs') (hp : procs p = some c) :
    ∃ c', procs' p = some c' ∧ c'.child = if c.child = 0 then q else c.child := by
  simp only [linkChild, Exec.bind_eq_ok, deref_eq_ok] at h
  obtain ⟨c₁, ⟨hne, hc₁⟩, h⟩ := h
  obtain rfl : c = c₁ := Option.some.inj (hp.symm.trans hc₁)
  split at h
  · rename_i hchild
    cases h
    exact ⟨c, hp, (if_neg hchild).symm⟩
  · rename_i hchild
    obtain ⟨c₂, -, hc₂, rfl⟩ := modify_eq_ok.mp h
    obtain rfl : c = c₂ := Option.some.inj (hp.symm.trans hc₂)
    exact ⟨_, put_self _ _ _, (if_pos (not_ne_iff.mp hchild)).symm⟩

/-- A `child` that is not null stays. -/
theorem linkChild_keeps {x : ℕ} (h : procs.linkChild p q = .ok procs') (hx : procs x = some c)
    (hc : c.child ≠ 0) : ∃ c', procs' x = some c' ∧ c'.child = c.child := by
  by_cases hxp : x = p
  · subst hxp
    obtain ⟨c', hc', hchild⟩ := linkChild_child h hx
    exact ⟨c', hc', hchild.trans (if_neg hc)⟩
  · simp only [linkChild, Exec.bind_eq_ok] at h
    obtain ⟨c₁, -, h⟩ := h
    split at h
    · cases h
      exact ⟨c, hx, rfl⟩
    · obtain ⟨c₂, -, -, rfl⟩ := modify_eq_ok.mp h
      exact ⟨c, (put_of_ne hxp _ _).trans hx, rfl⟩

@[simp] theorem linkChild_null (procs : Processes) (q : ℕ) :
    procs.linkChild 0 q = .error .nullDeref := rfl

/-- Linking to a process that is there returns. -/
theorem linkChild_returns (hp : p ≠ 0) (hc : procs p = some c) :
    ∃ procs', procs.linkChild p q = .ok procs' := by
  rw [linkChild, deref_eq_ok.mpr ⟨hp, hc⟩, Exec.ok_bind]
  split
  · exact ⟨procs, rfl⟩
  · exact ⟨_, modify_of_deref (deref_eq_ok.mpr ⟨hp, hc⟩)⟩

/-- Only the links matter to where following them leads. -/
theorem siblingOf_congr (h : Agree Process.sibling procs procs') :
    procs'.siblingOf = procs.siblingOf := by
  funext x
  rw [siblingOf, siblingOf, h x]

end Processes

namespace ProcessManager

variable {assign : ArrayAssign} {m m' : ProcessManager} {k : Spawn} {p q t : ℕ}

/-- The process at `k.addr` with its number. -/
def numbered (m : ProcessManager) (k : Spawn) : Processes :=
  m.procs.put k.addr { k.contents with id := UInt8.ofNat m.procCount }

/-- **What `CreateProcess` does to the processes**, when `c` is the current one. -/
structure Spawned (m m' : ProcessManager) (k : Spawn) (c : Process) : Prop where
  /-- The managed processes stay. -/
  roots : m'.root = m.root ∧ m'.current = m.current
  /-- The process is counted. -/
  count : m'.procCount = (m.procCount + 1) % 2 ^ 16
  /-- Nothing is assigned to `parent` and `sibling`, and to `id` only the number. -/
  kept : Agree (fun p ↦ (p.id, p.parent, p.sibling)) (m.numbered k) m'.procs
  /-- Only the new process gets a `parentId`. -/
  parentIds : ∀ x ≠ k.addr, (m'.procs x).map Process.parentId = (m.procs x).map Process.parentId
  /-- It is the id of the current process, which has a child afterwards. -/
  current : ∃ c' q, m'.procs m.current = some c' ∧ m'.procs k.addr = some q ∧
    q.parentId = c.id ∧ c'.child = if c.child = 0 then k.addr else c.child

theorem mapKernel_procs (h : m.mapKernel assign t = .ok m') :
    m'.procs = m.procs ∧ m'.root = m.root ∧ m'.current = m.current ∧
      m'.procCount = m.procCount := by
  simp only [mapKernel, Exec.bind_eq_ok, Exec.pure_eq, Except.ok.injEq] at h
  obtain ⟨r, -, mem, -, rfl⟩ := h
  exact ⟨rfl, rfl, rfl, rfl⟩

theorem createPagetable_eq_ok (h : m.createPagetable assign p t = .ok m') :
    m'.root = m.root ∧ m'.current = m.current ∧ m'.procCount = m.procCount ∧
      m.procs.modify p (fun q ↦ { q with pageTable := t }) = .ok m'.procs ∧
      ∃ m₁, m.mapKernel assign t = .ok m₁ := by
  simp only [createPagetable, Exec.bind_eq_ok, Exec.pure_eq, Except.ok.injEq] at h
  obtain ⟨m₁, h₁, procs, hmod, rfl⟩ := h
  obtain ⟨hprocs, hroot, hcurrent, hcount⟩ := mapKernel_procs h₁
  rw [hprocs] at hmod
  exact ⟨hroot, hcurrent, hcount, hmod, m₁, h₁⟩

theorem numberProcess_put (hp : p ≠ 0) (mem : Bytes.Memory) (o : Processes) (a : Process)
    (root current n : ℕ) : (⟨mem, o.put p a, root, current, n⟩ : ProcessManager).numberProcess p
      = .ok ⟨mem, o.put p { a with id := UInt8.ofNat n }, root, current, (n + 1) % 2 ^ 16⟩ := by
  rw [numberProcess, modify_of_deref (deref_put hp _ _), put_put]
  rfl

/-- `CreateProcess`, once the process has its number. -/
theorem createProcess_eq (hk : k.addr ≠ 0) (m : ProcessManager) :
    m.createProcess assign k = do
      let procs ← (m.numbered k).setParent k.addr m.current
      let spawned ← procs.deref k.addr
      let procs ← procs.linkChild spawned.parent k.addr
      let m ← createPagetable assign
        { m with procs := procs, procCount := (m.procCount + 1) % 2 ^ 16 } k.addr k.table
      return (k.addr, m) := by
  rw [createProcess, numberProcess_put hk]
  rfl

/-- The steps of `CreateProcess`. -/
theorem createProcess_eq_ok (hk : k.addr ≠ 0) (h : m.createProcess assign k = .ok (p, m')) :
    p = k.addr ∧ m'.root = m.root ∧ m'.current = m.current ∧
      m'.procCount = (m.procCount + 1) % 2 ^ 16 ∧
      ∃ (o₁ o₂ o₃ : Processes) (c q : Process), (m.numbered k).linkChild m.current k.addr = .ok o₁ ∧
        o₁.deref m.current = .ok c ∧
        o₁.modify k.addr (fun q ↦ { q with parentId := c.id }) = .ok o₂ ∧
        o₂.deref k.addr = .ok q ∧ o₂.linkChild q.parent k.addr = .ok o₃ ∧
        o₃.modify k.addr (fun q ↦ { q with pageTable := k.table }) = .ok m'.procs ∧
        ∃ m₁, ProcessManager.mapKernel assign
          { m with procs := o₃, procCount := (m.procCount + 1) % 2 ^ 16 } k.table = .ok m₁ := by
  simp only [createProcess_eq hk, Processes.setParent, Exec.bind_eq_ok, Exec.pure_eq,
    Except.ok.injEq, Prod.mk.injEq] at h
  obtain ⟨o₂, ⟨o₁, h₁, c, hc, h₂⟩, q, hq, o₃, h₃, m₁, h₄, rfl, rfl⟩ := h
  obtain ⟨hroot, hcurrent, hcount, h₅, hmap⟩ := createPagetable_eq_ok h₄
  exact ⟨rfl, hroot, hcurrent, hcount, o₁, o₂, o₃, c, q, h₁, hc, h₂, hq, h₃, h₅, hmap⟩

/-- **The spec of `CreateProcess`**, when it returns. -/
theorem createProcess_spawned {c : Process} (hk : k.addr ≠ 0) (hfresh : m.procs k.addr = none)
    (hcur : m.procs m.current = some c) (h : m.createProcess assign k = .ok (p, m')) :
    p = k.addr ∧ Spawned m m' k c := by
  obtain ⟨hp, hroot, hcurrent, hcount, o₁, o₂, o₃, c₁, q, h₁, hc₁, h₂, hq, h₃, h₄, -⟩ :=
    createProcess_eq_ok hk h
  refine ⟨hp, ⟨hroot, hcurrent⟩, hcount, ?_, fun x hx ↦ ?_, ?_⟩
  · exact (((Processes.agree_linkChild h₁ fun _ _ ↦ rfl).trans
      (agree_modify h₂ fun _ ↦ rfl)).trans (Processes.agree_linkChild h₃ fun _ _ ↦ rfl)).trans
      (agree_modify h₄ fun _ ↦ rfl)
  · have e₁ := Processes.agree_linkChild (g := Process.parentId) h₁ (fun _ _ ↦ rfl) x
    have e₂ : o₂ x = o₁ x := by
      obtain ⟨a, -, -, rfl⟩ := modify_eq_ok.mp h₂
      exact put_of_ne hx _ _
    have e₃ := Processes.agree_linkChild (g := Process.parentId) h₃ (fun _ _ ↦ rfl) x
    have e₄ := agree_modify (g := Process.parentId) h₄ (fun _ ↦ rfl) x
    rw [e₄, e₃, e₂, e₁, numbered, put_of_ne hx]
  · -- the current process is another one
    have hne : m.current ≠ k.addr := fun he ↦ by
      rw [he, hfresh] at hcur
      cases hcur
    have hcur₀ : m.numbered k m.current = some c := (put_of_ne hne _ _).trans hcur
    obtain ⟨c₁', hc₁', hid⟩ := (Processes.agree_linkChild (g := Process.id) h₁
      fun _ _ ↦ rfl).exists_eq hcur₀
    obtain rfl : c₁' = c₁ := Option.some.inj (hc₁'.symm.trans (deref_eq_ok.mp hc₁).2)
    -- its child
    obtain ⟨c₂, hc₂, hchild₂⟩ := Processes.linkChild_child h₁ hcur₀
    obtain ⟨c₃, hc₃, hchild₃⟩ := (agree_modify (g := Process.child) h₂ fun _ ↦ rfl).exists_eq hc₂
    have hchild : c₃.child = if c.child = 0 then k.addr else c.child := hchild₃.trans hchild₂
    have hchild_ne : c₃.child ≠ 0 := by
      rw [hchild]
      split <;> assumption
    obtain ⟨c₄, hc₄, hchild₄⟩ := Processes.linkChild_keeps h₃ hc₃ hchild_ne
    obtain ⟨c₅, hc₅, hchild₅⟩ := (agree_modify (g := Process.child) h₄ fun _ ↦ rfl).exists_eq hc₄
    -- the id of its parent
    obtain ⟨a, -, -, rfl⟩ := modify_eq_ok.mp h₂
    obtain ⟨q₃, hq₃, hpid₃⟩ := (Processes.agree_linkChild (g := Process.parentId) h₃
      fun _ _ ↦ rfl).exists_eq (put_self _ _ _)
    obtain ⟨q₄, hq₄, hpid₄⟩ := (agree_modify (g := Process.parentId) h₄
      fun _ ↦ rfl).exists_eq hq₃
    exact ⟨c₅, q₄, hc₅, hq₄, by rw [hpid₄, hpid₃]; exact hid,
      by rw [hchild₅, hchild₄, hchild]⟩

/-- Whether `MapKernel` returns depends on the page table of the root. -/
theorem mapKernel_returns {r r₁ : Process} (m m₁ : ProcessManager) (hmem : m₁.mem = m.mem)
    (hroot : m₁.root = m.root) (hr : m.procs m.root = some r) (hr₁ : m₁.procs m.root = some r₁)
    (htable : r₁.pageTable = r.pageTable) (h : ∃ m', m.mapKernel assign t = .ok m') :
    ∃ m', m₁.mapKernel assign t = .ok m' := by
  obtain ⟨m', h⟩ := h
  simp only [mapKernel, Exec.bind_eq_ok, deref_eq_ok, Exec.pure_eq, Except.ok.injEq] at h
  obtain ⟨r', ⟨hne, hr'⟩, mem, hassign, -⟩ := h
  obtain rfl : r = r' := Option.some.inj (hr.symm.trans hr')
  refine ⟨{ m₁ with mem := mem }, ?_⟩
  simp only [mapKernel, hroot, deref_eq_ok.mpr ⟨hne, hr₁⟩, Exec.ok_bind, htable, hmem, hassign,
    Exec.pure_eq]

/-- Where `CreateProcess` returns, `MapKernel` does. -/
theorem createProcess_mapped {r : Process} (hk : k.addr ≠ 0) (hfresh : m.procs k.addr = none)
    (hr : m.procs m.root = some r) (h : m.createProcess assign k = .ok (p, m')) :
    ∃ m₁, m.mapKernel assign k.table = .ok m₁ := by
  obtain ⟨-, -, -, -, o₁, o₂, o₃, c, q, h₁, -, h₂, -, h₃, -, hmap⟩ := createProcess_eq_ok hk h
  have hne : m.root ≠ k.addr := fun he ↦ by
    rw [he, hfresh] at hr
    cases hr
  have hkept := ((Processes.agree_linkChild (g := Process.pageTable) h₁ fun _ _ ↦ rfl).trans
    (agree_modify h₂ fun _ ↦ rfl)).trans (Processes.agree_linkChild h₃ fun _ _ ↦ rfl)
  obtain ⟨r₃, hr₃, htable⟩ := hkept.exists_eq ((put_of_ne hne _ _).trans hr)
  exact mapKernel_returns { m with procs := o₃, procCount := (m.procCount + 1) % 2 ^ 16 } m rfl rfl
    hr₃ hr htable.symm hmap

/-- **`Init` returns only if the assignment behind the page table does.** -/
theorem init_assigns (h : ProcessManager.init assign m k = .ok m') :
    ∃ mem entry mem', assign mem k.table kernelIndex entry = .ok mem' := by
  obtain ⟨m₁, hroot, -⟩ := Exec.bind_eq_ok.mp h
  obtain ⟨m₂, -, hroot⟩ := Exec.bind_eq_ok.mp hroot
  obtain ⟨procs, -, htable⟩ := Exec.bind_eq_ok.mp hroot
  obtain ⟨m₃, hmap, -⟩ := Exec.bind_eq_ok.mp htable
  obtain ⟨root, -, hassign⟩ := Exec.bind_eq_ok.mp hmap
  obtain ⟨mem, hmem, -⟩ := Exec.bind_eq_ok.mp hassign
  exact ⟨_, _, mem, hmem⟩

/-- **With 48 bits of addresses** there is nothing where the entry is stored. -/
theorem init_unchecked_48 (htable : IsAddress 48 k.table) :
    ProcessManager.init (uncheckedAssign 48) m k ≠ .ok m' := by
  intro h
  obtain ⟨mem, entry, mem', hassign⟩ := init_assigns h
  have hno : ¬IsAddress 48 ((k.table + 8 * kernelIndex) % 2 ^ 64) := by
    simp only [IsAddress, kernelIndex, Nat.reduceDiv, Nat.reduceMul, Nat.reducePow,
      Nat.reduceSub] at htable ⊢
    omega
  simp only [uncheckedAssign, if_neg hno] at hassign
  cases hassign

/-- In memory that has null in the place of `parent`, `CreateProcess` follows it. -/
theorem createProcess_null {c : Process} (hk : k.addr ≠ 0) (hfresh : m.procs k.addr = none)
    (hcur : m.procs m.current = some c) (hne : m.current ≠ 0) (hparent : k.contents.parent = 0) :
    m.createProcess assign k = .error .nullDeref := by
  have hcur₀ : m.numbered k m.current = some c :=
    (put_of_ne (fun he ↦ by rw [he, hfresh] at hcur; cases hcur) _ _).trans hcur
  obtain ⟨o₁, h₁⟩ := Processes.linkChild_returns (q := k.addr) hne hcur₀
  have a₁ : Agree Process.parent (m.numbered k) o₁ := Processes.agree_linkChild h₁ fun _ _ ↦ rfl
  obtain ⟨c₁, hc₁, -⟩ := a₁.exists_eq hcur₀
  obtain ⟨q₁, hq₁, -⟩ := a₁.exists_eq (put_self _ _ _)
  have h₂ := modify_of_deref (f := fun q ↦ { q with parentId := c₁.id })
    (deref_eq_ok.mpr ⟨hk, hq₁⟩)
  obtain ⟨q₂, hq₂, hparent₂⟩ :=
    (a₁.trans (agree_modify (g := Process.parent) h₂ fun _ ↦ rfl)).exists_eq (put_self _ _ _)
  have hnull : q₂.parent = 0 := hparent₂.trans hparent
  simp only [createProcess_eq hk, Processes.setParent, Exec.ok_bind, h₁,
    deref_eq_ok.mpr ⟨hne, hc₁⟩, h₂, deref_eq_ok.mpr ⟨hk, hq₂⟩, hnull, Processes.linkChild_null,
    Exec.error_bind]

/-- `CreateProcess` returns, when the memory has the current process in the place of `parent`. -/
theorem createProcess_returns {c : Process} (hk : k.addr ≠ 0) (hfresh : m.procs k.addr = none)
    (hcur : m.procs m.current = some c) (hne : m.current ≠ 0)
    (hparent : k.contents.parent = m.current) (hmap : ∃ m', m.mapKernel assign k.table = .ok m') :
    ∃ m', m.createProcess assign k = .ok (k.addr, m') := by
  have hput : ∀ {x c}, m.procs x = some c → m.numbered k x = some c := fun hx ↦
    (put_of_ne (fun he ↦ by rw [he, hfresh] at hx; cases hx) _ _).trans hx
  let g : Process → ℕ × ℕ := fun p ↦ (p.parent, p.pageTable)
  -- `SetParent`
  obtain ⟨o₁, h₁⟩ := Processes.linkChild_returns (q := k.addr) hne (hput hcur)
  have a₁ : Agree g (m.numbered k) o₁ := Processes.agree_linkChild h₁ fun _ _ ↦ rfl
  obtain ⟨c₁, hc₁, -⟩ := a₁.exists_eq (hput hcur)
  obtain ⟨q₁, hq₁, -⟩ := a₁.exists_eq (put_self _ _ _)
  have h₂ := modify_of_deref (f := fun q ↦ { q with parentId := c₁.id })
    (deref_eq_ok.mpr ⟨hk, hq₁⟩)
  have a₂ := a₁.trans (agree_modify (g := g) h₂ fun _ ↦ rfl)
  -- the second link, to what is in `parent`
  obtain ⟨c₂, hc₂, -⟩ := a₂.exists_eq (hput hcur)
  obtain ⟨q₂, hq₂, hg₂⟩ := a₂.exists_eq (put_self _ _ _)
  have hparent₂ : q₂.parent = m.current := (Prod.ext_iff.mp hg₂).1.trans hparent
  obtain ⟨o₃, h₃⟩ := Processes.linkChild_returns (q := k.addr) hne hc₂
  have a₃ := a₂.trans (Processes.agree_linkChild (g := g) h₃ fun _ _ ↦ rfl)
  -- the page table
  obtain ⟨q₃, hq₃, -⟩ := a₃.exists_eq (put_self _ _ _)
  obtain ⟨r, hr⟩ : ∃ r, m.procs m.root = some r := by
    obtain ⟨m', hm'⟩ := hmap
    simp only [mapKernel, Exec.bind_eq_ok, deref_eq_ok] at hm'
    obtain ⟨r, ⟨-, hr⟩, -⟩ := hm'
    exact ⟨r, hr⟩
  obtain ⟨r₃, hr₃, hgr⟩ := a₃.exists_eq (hput hr)
  obtain ⟨m₄, h₄⟩ := mapKernel_returns m
    { m with procs := o₃, procCount := (m.procCount + 1) % 2 ^ 16 } rfl rfl hr hr₃
    (Prod.ext_iff.mp hgr).2 hmap
  have h₅ : ∃ o₅, m₄.procs.modify k.addr (fun p ↦ { p with pageTable := k.table }) = .ok o₅ := by
    rw [(mapKernel_procs h₄).1]
    exact ⟨_, modify_of_deref (deref_eq_ok.mpr ⟨hk, hq₃⟩)⟩
  obtain ⟨o₅, h₅⟩ := h₅
  refine ⟨{ m₄ with procs := o₅ }, ?_⟩
  simp only [createProcess_eq hk, Exec.ok_bind, Processes.setParent, h₁,
    deref_eq_ok.mpr ⟨hne, hc₁⟩, h₂, deref_eq_ok.mpr ⟨hk, hq₂⟩, hparent₂, h₃, createPagetable, h₄,
    h₅, Exec.pure_eq]

end ProcessManager

/-! ## Runs -/

namespace ProcessRun

variable {assign : ArrayAssign} {s s' : ProcessRun} {k : Spawn} {r p : ℕ}

/-- The invariant of a run of lucky calls: the tree is sound, the root is the current process, and
the ids are numbers below `procCount`. -/
structure Inv (s : ProcessRun) : Prop where
  /-- The tree is what it should be. -/
  sound : s.Sound
  /-- The root is the current process. -/
  current_eq : s.m.current = s.m.root
  /-- The processes are alive, and numbered. -/
  bound : ∀ p ∈ s.created, p ≠ 0 ∧ ∃ q, s.m.procs p = some q ∧ q.id.toNat < s.m.procCount
  /-- There are fewer than 256. -/
  count : s.m.procCount ≤ 255

theorem root_mem_created (s : ProcessRun) : s.m.root ∈ s.created :=
  List.mem_append_right _ List.mem_cons_self

theorem mem_created_of_mem_children (hp : p ∈ s.children) : p ∈ s.created :=
  List.mem_append_left _ hp

/-- `Init` establishes the invariant. -/
theorem inv_of_init (h : (processMachine assign).init s) : s.Inv := by
  obtain ⟨m₂, children⟩ := s
  obtain ⟨hchildren, m, k, -, hcount, hk, hinit⟩ := h
  obtain rfl : children = [] := hchildren
  simp only [ProcessManager.init, ProcessManager.initRootProcess,
    ProcessManager.numberProcess_put hk, Exec.bind_eq_ok, Exec.ok_bind, modify_eq_ok,
    Exec.pure_eq, Except.ok.injEq] at hinit
  obtain ⟨m₁, ⟨o, ⟨a, -, ha, rfl⟩, hm₁⟩, rfl⟩ := hinit
  rw [put_self, Option.some.injEq] at ha
  subst ha
  obtain ⟨hroot, -, hnum, htable, -⟩ := ProcessManager.createPagetable_eq_ok hm₁
  obtain ⟨q, hq, hid⟩ := (agree_modify (g := Process.id) htable fun _ ↦ rfl).exists_eq
    (put_self _ _ _)
  have hid : q.id = 0 := hid.trans (by rw [hcount]; rfl)
  have hcreated : ∀ p, p ∈ ProcessRun.created ⟨{ m₁ with current := m₁.root }, []⟩ → p = k.addr :=
    fun p hp ↦ (List.mem_singleton.mp hp).trans hroot
  have hnum : m₁.procCount = 1 := hnum.trans (by simp [hcount])
  refine ⟨⟨by simp [created], fun p hp ↦ ?_, by simp, by simp⟩, rfl, fun p hp ↦ ?_, ?_⟩
  · obtain rfl := hcreated p hp
    simp only [idOf, hq, Option.map_some, hid]
    decide
  · obtain rfl := hcreated p hp
    exact ⟨hk, q, hq, by simp only [hid, hnum]; decide⟩
  · simp only [hnum]
    decide

/-- After `Init` there is one process, and memory for another. -/
theorem exists_fresh (h : (processMachine assign).init s) :
    ∃ addr, addr ≠ 0 ∧ s.m.procs addr = none := by
  obtain ⟨m₂, children⟩ := s
  obtain ⟨-, m, k, hnone, -, hk, hinit⟩ := h
  simp only [ProcessManager.init, ProcessManager.initRootProcess,
    ProcessManager.numberProcess_put hk, Exec.bind_eq_ok, Exec.ok_bind, modify_eq_ok,
    Exec.pure_eq, Except.ok.injEq] at hinit
  obtain ⟨m₁, ⟨o, ⟨a, -, -, rfl⟩, hm₁⟩, rfl⟩ := hinit
  obtain ⟨-, -, -, htable, -⟩ := ProcessManager.createPagetable_eq_ok hm₁
  obtain ⟨b, -, -, heq⟩ := modify_eq_ok.mp htable
  have hne : k.addr + 1 ≠ k.addr := Nat.succ_ne_self _
  refine ⟨k.addr + 1, Nat.succ_ne_zero _, ?_⟩
  simp only [heq, put_of_ne hne, hnone]

/-- What a call leaves, in a state of the invariant. -/
theorem Inv.spawned (h : s.Inv) (hk : s.Enabled k) (hs : s.step assign k = .ok (r, s')) :
    ∃ m' c, s.m.createProcess assign k = .ok (k.addr, m') ∧ s' = ⟨m', k.addr :: s.children⟩ ∧
      s.m.procs s.m.current = some c ∧ s.m.Spawned m' k c := by
  obtain ⟨c, hc, -⟩ := (h.bound _ (h.current_eq ▸ s.root_mem_created)).2
  simp only [step, Exec.bind_eq_ok, Exec.pure_eq, Except.ok.injEq, Prod.mk.injEq] at hs
  obtain ⟨⟨p, m'⟩, hm, -, rfl⟩ := hs
  obtain ⟨rfl, hsp⟩ := ProcessManager.createProcess_spawned hk.1 hk.2 hc hm
  exact ⟨m', c, hm, rfl, hc, hsp⟩

/-- A process that is there is not the new one. -/
theorem Inv.ne_addr (h : s.Inv) (hk : s.Enabled k) (hp : p ∈ s.created) : p ≠ k.addr := by
  rintro rfl
  obtain ⟨-, q, hq, -⟩ := h.bound _ hp
  rw [hk.2] at hq
  cases hq

/-- The links after a call are the words in the memory that the processes got. -/
theorem siblingOf_spawned {m m' : ProcessManager} {c : Process} (h : m.Spawned m' k c) :
    m'.procs.siblingOf = Processes.siblingOf (m.procs.put k.addr k.contents) := by
  refine Processes.siblingOf_congr fun x ↦ ?_
  have hx := congrArg (Option.map fun t : UInt8 × ℕ × ℕ ↦ t.2.2) (h.kept x)
  simp only [Option.map_map] at hx
  refine Eq.trans hx ?_
  rw [ProcessManager.numbered, put, put]
  split <;> rfl

/-- The ids after a call. -/
theorem idOf_spawned {m' : ProcessManager} {c : Process} (hsp : s.m.Spawned m' k c)
    (children : List ℕ) (x : ℕ) : idOf ⟨m', children⟩ x
      = if x = k.addr then some (UInt8.ofNat s.m.procCount) else s.idOf x := by
  have hx := congrArg (Option.map fun t : UInt8 × ℕ × ℕ ↦ t.1) (hsp.kept x)
  simp only [Option.map_map] at hx
  refine Eq.trans hx ?_
  rw [ProcessManager.numbered, put, idOf]
  split <;> rfl

/-- The parents after a call. -/
theorem parent_spawned {m m' : ProcessManager} {c : Process} (hsp : m.Spawned m' k c) (x : ℕ) :
    (m'.procs x).map Process.parent
      = if x = k.addr then some k.contents.parent else (m.procs x).map Process.parent := by
  have hx := congrArg (Option.map fun t : UInt8 × ℕ × ℕ ↦ t.2.1) (hsp.kept x)
  simp only [Option.map_map] at hx
  refine Eq.trans hx ?_
  rw [ProcessManager.numbered, put]
  split <;> rfl

theorem firstChild_eq {c : Process} (hc : s.m.procs s.m.current = some c) (addr : ℕ) :
    s.firstChild addr = if c.child = 0 then addr else c.child := by
  rw [firstChild, hc]

/-- **A call that leaves a sound tree was lucky.** -/
theorem Inv.lucky (h : s.Inv) (hk : s.Enabled k) (hs : s.step assign k = .ok (r, s'))
    (hsound : s'.Sound) : s.Lucky assign k := by
  obtain ⟨m', c, hm, rfl, hc, hsp⟩ := h.spawned hk hs
  have hnew : k.addr ∈ k.addr :: s.children := List.mem_cons_self
  obtain ⟨c', q₀, hc', -, -, hchild⟩ := hsp.current
  refine ⟨?_, ?_, fun p hp ↦ ?_, ?_⟩
  · -- the number of the new process is not 255
    have hid := hsound.ids_ne k.addr (mem_created_of_mem_children hnew)
    rw [idOf_spawned hsp, if_pos rfl] at hid
    have hcount := h.count
    by_contra hge
    have : s.m.procCount = 255 := by omega
    rw [this] at hid
    exact hid rfl
  · obtain ⟨q, -, hq, -, hparent, -⟩ := hsound.parent k.addr hnew
    have hkept := parent_spawned hsp k.addr
    rw [if_pos rfl, hq, Option.map_some, Option.some.injEq] at hkept
    exact hkept.symm.trans (hparent.trans hsp.roots.2)
  · -- the parent is the current process, whose first child is known
    obtain ⟨q, c₁, hq, hc₁, hpass⟩ := hsound.linked p hp
    obtain ⟨q₁, -, hq₁, -, hparent, -⟩ := hsound.parent p hp
    obtain rfl : q = q₁ := Option.some.inj (hq.symm.trans hq₁)
    rw [hparent] at hc₁
    have hcur : m'.procs m'.current = some c' := hsp.roots.2 ▸ hc'
    obtain rfl : c₁ = c' := Option.some.inj (hc₁.symm.trans hcur)
    rw [firstChild_eq hc, ← hchild, Processes.PassesOnce, ← siblingOf_spawned hsp]
    exact hpass
  · obtain ⟨-, rt, hrt, -⟩ := h.bound _ s.root_mem_created
    exact ProcessManager.createProcess_mapped hk.1 hk.2 hrt hm

theorem idOf_eq_some {i : UInt8} : s.idOf p = some i ↔ ∃ q, s.m.procs p = some q ∧ q.id = i :=
  Option.map_eq_some_iff

section Spawned

variable {m' : ProcessManager} {c : Process}

theorem created_spawned (hsp : s.m.Spawned m' k c) :
    created ⟨m', k.addr :: s.children⟩ = k.addr :: s.created := by
  simp [created, hsp.roots.1]

/-- The processes that are there keep their ids. -/
theorem Inv.idOf_old (h : s.Inv) (hk : s.Enabled k) (hsp : s.m.Spawned m' k c)
    (hp : p ∈ s.created) : idOf ⟨m', k.addr :: s.children⟩ p = s.idOf p :=
  (idOf_spawned hsp _ _).trans (if_neg (h.ne_addr hk hp))

/-- The new process has the next number, and the others have smaller ones. -/
theorem Inv.ids_spawned (h : s.Inv) (hk : s.Enabled k) (hsp : s.m.Spawned m' k c)
    (hroom : s.m.procCount < 255) :
    ((k.addr :: s.created).map (idOf ⟨m', k.addr :: s.children⟩)).Nodup ∧
      ∀ p ∈ k.addr :: s.created, p ≠ 0 ∧
        ∃ q, m'.procs p = some q ∧ q.id.toNat < s.m.procCount + 1 := by
  have hnum : (UInt8.ofNat s.m.procCount).toNat = s.m.procCount := by
    rw [UInt8.toNat_ofNat']
    exact Nat.mod_eq_of_lt (by omega)
  have hnew : idOf ⟨m', k.addr :: s.children⟩ k.addr = some (UInt8.ofNat s.m.procCount) :=
    (idOf_spawned hsp _ _).trans (if_pos rfl)
  have hold := fun p ↦ h.idOf_old (p := p) hk hsp
  constructor
  · rw [List.map_cons, hnew, List.map_congr_left hold]
    refine List.nodup_cons.mpr ⟨fun hmem ↦ ?_, h.sound.ids⟩
    obtain ⟨p, hp, hpid⟩ := List.mem_map.mp hmem
    obtain ⟨q, hq, hid⟩ := idOf_eq_some.mp hpid
    obtain ⟨-, q', hq', hlt⟩ := h.bound p hp
    obtain rfl : q = q' := Option.some.inj (hq.symm.trans hq')
    rw [hid, hnum] at hlt
    exact Nat.lt_irrefl _ hlt
  · intro p hp
    rcases List.mem_cons.mp hp with rfl | hp
    · obtain ⟨q, hq, hid⟩ := idOf_eq_some.mp hnew
      exact ⟨hk.1, q, hq, by rw [hid, hnum]; exact Nat.lt_succ_self _⟩
    · obtain ⟨hp0, q, hq, hlt⟩ := h.bound p hp
      obtain ⟨q', hq', hid⟩ := idOf_eq_some.mp
        ((hold p hp).trans (idOf_eq_some.mpr ⟨q, hq, rfl⟩))
      exact ⟨hp0, q', hq', by rw [hid]; exact Nat.lt_succ_of_lt hlt⟩

/-- The parents are the current process, if that of the new one is. -/
theorem Inv.parents_spawned (h : s.Inv) (hk : s.Enabled k) (hc : s.m.procs s.m.current = some c)
    (hsp : s.m.Spawned m' k c) (hparent : k.contents.parent = s.m.current) :
    ∀ p ∈ k.addr :: s.children, ∃ q c', m'.procs p = some q ∧ m'.procs m'.current = some c' ∧
      q.parent = m'.current ∧ q.parentId = c'.id := by
  obtain ⟨c', q₀, hc', hq₀, hpid, -⟩ := hsp.current
  have hcurrent := hsp.roots.2
  have hcur' : m'.procs m'.current = some c' := hcurrent ▸ hc'
  have hcid : c'.id = c.id := by
    obtain ⟨c₁, hc₁, hid⟩ := idOf_eq_some.mp ((h.idOf_old hk hsp
      (h.current_eq ▸ s.root_mem_created)).trans (idOf_eq_some.mpr ⟨c, hc, rfl⟩))
    obtain rfl : c' = c₁ := Option.some.inj (hc'.symm.trans hc₁)
    exact hid
  intro p hp
  have hkept := parent_spawned hsp p
  rcases List.mem_cons.mp hp with rfl | hp
  · rw [if_pos rfl, hq₀, Option.map_some, Option.some.injEq] at hkept
    exact ⟨q₀, c', hq₀, hcur', by rw [hkept, hparent, hcurrent], hpid.trans hcid.symm⟩
  · have hne := h.ne_addr hk (mem_created_of_mem_children hp)
    obtain ⟨q, c₁, hq, hc₁, hqp, hqid⟩ := h.sound.parent p hp
    obtain rfl : c = c₁ := Option.some.inj (hc.symm.trans hc₁)
    have hids := hsp.parentIds p hne
    rw [if_neg hne, hq, Option.map_some, Option.map_eq_some_iff] at hkept
    obtain ⟨q', hq', hqp'⟩ := hkept
    rw [hq', hq, Option.map_some, Option.map_some, Option.some.injEq] at hids
    exact ⟨q', c', hq', hcur', by rw [hqp', hqp, hcurrent], by rw [hids, hqid, hcid]⟩

end Spawned

/-- **A lucky call returns and keeps the invariant.** -/
theorem Inv.step_lucky (h : s.Inv) (hk : s.Enabled k) (hl : s.Lucky assign k) :
    ∃ s', s.step assign k = .ok (k.addr, s') ∧ s'.Inv := by
  obtain ⟨hcur_ne, c, hc, -⟩ := h.bound _ (h.current_eq ▸ s.root_mem_created)
  obtain ⟨m', hm⟩ := ProcessManager.createProcess_returns hk.1 hk.2 hc hcur_ne hl.parent hl.mapped
  have hsp := (ProcessManager.createProcess_spawned hk.1 hk.2 hc hm).2
  have hs : s.step assign k = .ok (k.addr, ⟨m', k.addr :: s.children⟩) := by
    simp [step, hm]
  obtain ⟨c', -, hc', -, -, hchild⟩ := hsp.current
  obtain ⟨hroot, hcurrent⟩ := hsp.roots
  have hroom := hl.room
  have hcount : m'.procCount = s.m.procCount + 1 := hsp.count.trans (Nat.mod_eq_of_lt (by omega))
  obtain ⟨hnodup, hbound⟩ := h.ids_spawned hk hsp hroom
  have hparents := h.parents_spawned hk hc hsp hl.parent
  refine ⟨_, hs, ⟨?_, fun p hp ↦ ?_, hparents, fun p hp ↦ ?_⟩, ?_, fun p hp ↦ ?_, ?_⟩
  · rw [created_spawned hsp]
    exact hnodup
  · -- no number is 255
    rw [created_spawned hsp] at hp
    obtain ⟨-, q, hq, hlt⟩ := hbound p hp
    intro he
    obtain ⟨q', hq', hid⟩ := idOf_eq_some.mp he
    obtain rfl : q = q' := Option.some.inj (hq.symm.trans hq')
    rw [hid, show noChild.toNat = 255 from rfl] at hlt
    omega
  · obtain ⟨q, c₁, hq, hc₁, hqp, -⟩ := hparents p hp
    refine ⟨q, c₁, hq, hqp ▸ hc₁, ?_⟩
    obtain rfl : c' = c₁ := Option.some.inj (hc'.symm.trans (hcurrent ▸ hc₁))
    have hpass := hl.siblings p hp
    rw [firstChild_eq hc, ← hchild, Processes.PassesOnce, ← siblingOf_spawned hsp] at hpass
    exact hpass
  · exact hcurrent.trans (h.current_eq.trans hroot.symm)
  · rw [created_spawned hsp] at hp
    rw [hcount]
    exact hbound p hp
  · show m'.procCount ≤ 255
    omega

/-- The invariant holds in every run of lucky calls. -/
theorem inv_of_reach (hs : ((processMachine assign).restrict (Lucky assign)).Reach s) : s.Inv := by
  refine Machine.Reach.induct (M := (processMachine assign).restrict (Lucky assign)) (I := Inv)
    (fun s h ↦ inv_of_init h) (fun s k r s' h hk hstep ↦ ?_) hs
  obtain ⟨hen, hl⟩ := hk
  obtain ⟨s'', hs'', hinv⟩ := h.step_lucky hen hl
  cases hs''.symm.trans hstep
  exact hinv

end ProcessRun

/-- A process in zeroed memory, except that its `parent` is the given one. -/
def zeroedProcess (parent : ℕ) : Process := ⟨0, 0, 0, parent, 0, 0, 0⟩

/-- The entry that `Init` stores behind the page table of the root, at `0x2000`. -/
def storedBehind : Memory :=
  writeWord (fun _ ↦ 0) (0x2000 + 8 * ProcessManager.kernelIndex)
    (X8664.initialiseBuffer 0#64 X8664.UPeOpt.present).toNat

/-- The manager after `Init`, with the root at `0x1000`, on a machine with 57 bits of addresses. -/
def afterInit : ProcessRun where
  m := ⟨storedBehind, put (fun _ ↦ none) 0x1000 ⟨0, 0, noChild, 0, 0, 0, 0x2000⟩, 0x1000, 0x1000, 1⟩
  children := []

theorem uncheckedAssign_57 (mem : Memory) {table : ℕ} (h : table < 2 ^ 47) (entry : BitVec 64) :
    uncheckedAssign 57 mem table ProcessManager.kernelIndex entry =
      .ok (writeWord mem (table + 8 * ProcessManager.kernelIndex) entry.toNat) := by
  have haddr : (table + 8 * ProcessManager.kernelIndex) % 2 ^ 64
      = table + 8 * ProcessManager.kernelIndex := Nat.mod_eq_of_lt (by
    simp only [ProcessManager.kernelIndex, Nat.reduceDiv, Nat.reduceMul, Nat.reducePow] at h ⊢
    omega)
  have hyes : IsAddress 57 (table + 8 * ProcessManager.kernelIndex) := .inl (by
    simp only [ProcessManager.kernelIndex, Nat.reduceDiv, Nat.reduceMul, Nat.reducePow,
      Nat.reduceSub] at h ⊢
    omega)
  simp only [uncheckedAssign, haddr, if_pos hyes]

/-- The page table may lie anywhere in the lower half. -/
theorem ProcessRun.Inv.mapped_57 {s : ProcessRun} (h : s.Inv) {table : ℕ} (ht : table < 2 ^ 47) :
    ∃ m', s.m.mapKernel (uncheckedAssign 57) table = .ok m' := by
  obtain ⟨hne, r, hr, -⟩ := h.bound _ s.root_mem_created
  simp only [ProcessManager.mapKernel, deref_eq_ok.mpr ⟨hne, hr⟩, Exec.ok_bind,
    uncheckedAssign_57 _ ht, Exec.pure_eq]
  exact ⟨_, rfl⟩

theorem init_afterInit : (processMachine (uncheckedAssign 57)).init afterInit := by
  refine ⟨rfl, ⟨fun _ ↦ 0, fun _ ↦ none, 0, 0, 0⟩, ⟨0x1000, zeroedProcess 0, 0x2000⟩, rfl, rfl,
    by decide, ?_⟩
  have hassign := uncheckedAssign_57 (fun _ ↦ 0) (show 0x2000 < 2 ^ 47 by decide)
    (X8664.initialiseBuffer 0#64 X8664.UPeOpt.present)
  simp [ProcessManager.init, ProcessManager.initRootProcess, ProcessManager.numberProcess_put,
    Objects.modify, deref_put, put_put, ProcessManager.createPagetable, ProcessManager.mapKernel,
    hassign, zeroedProcess, afterInit, storedBehind]

/-- A process that is made in zeroed memory, where there is none. -/
theorem ProcessRun.step_zeroed {assign : ArrayAssign} {s : ProcessRun}
    (h : (processMachine assign).init s) : ∃ addr, ∀ table,
      s.Enabled ⟨addr, zeroedProcess 0, table⟩ ∧
      s.step assign ⟨addr, zeroedProcess 0, table⟩ = .error .nullDeref := by
  have hinv := ProcessRun.inv_of_init h
  obtain ⟨hne, c, hc, -⟩ := hinv.bound _ (hinv.current_eq ▸ s.root_mem_created)
  obtain ⟨addr, haddr, hfresh⟩ := ProcessRun.exists_fresh h
  refine ⟨addr, fun table ↦ ⟨⟨haddr, hfresh⟩, ?_⟩⟩
  have hnull : s.m.createProcess assign ⟨addr, zeroedProcess 0, table⟩ = .error .nullDeref :=
    ProcessManager.createProcess_null haddr hfresh hc hne rfl
  simp only [step, hnull, Exec.error_bind]

/-- A list of siblings that ends at once. -/
theorem Processes.iterate_siblingOf {procs : Processes} {p : ℕ} (hp : procs.siblingOf p = 0)
    (h0 : procs.siblingOf 0 = 0) (n : ℕ) : procs.siblingOf^[n + 1] p = 0 := by
  rw [Function.iterate_succ_apply, hp]
  exact Function.iterate_fixed h0 n

/-- **A further child is linked to nothing** when the first one has no sibling. -/
theorem ProcessRun.Inv.further_not_sound {assign : ArrayAssign} {s s' : ProcessRun} {k : Spawn}
    {r p : ℕ} (h : s.Inv) (hk : s.Enabled k) (hfirst : s.firstChild k.addr = p) (hp : p ≠ k.addr)
    (hlast : s.m.procs.siblingOf p = 0) (hnull : s.m.procs.siblingOf 0 = 0)
    (hs : s.step assign k = .ok (r, s')) : ¬s'.Sound := by
  intro hsound
  have hput : ∀ x, x ≠ k.addr →
      Processes.siblingOf (s.m.procs.put k.addr k.contents) x = s.m.procs.siblingOf x := by
    intro x hx
    rw [Processes.siblingOf, put_of_ne hx, Processes.siblingOf]
  obtain ⟨n, hn, -⟩ := (h.lucky hk hs hsound).siblings k.addr List.mem_cons_self
  simp only [hfirst] at hn
  cases n with
  | zero => exact hp hn
  | succ n =>
    rw [Processes.iterate_siblingOf ((hput p hp).trans hlast)
      ((hput 0 hk.1.symm).trans hnull)] at hn
    exact hk.1 hn.symm

/-- A first child whose memory names the root as its parent. -/
theorem lucky_afterInit :
    afterInit.Lucky (uncheckedAssign 57) ⟨0x3000, zeroedProcess 0x1000, 0x4000⟩ := by
  have hinv : afterInit.Inv := ProcessRun.inv_of_init init_afterInit
  refine ⟨by decide, rfl, fun p hp ↦ ?_, hinv.mapped_57 (by decide)⟩
  obtain rfl : p = 0x3000 := List.mem_singleton.mp hp
  refine ⟨0, rfl, fun n hn ↦ ?_⟩
  cases n with
  | zero => rfl
  | succ n =>
    have hend := (Processes.iterate_siblingOf rfl rfl n).symm.trans hn
    exact absurd hend (by decide)

end Chisaka
