import Mathlib.Data.List.Chain
import Mathlib.Data.List.Infix
import Mathlib.Data.List.Nodup
import Mathlib.Data.Nat.Notation
import Mathlib.Logic.Function.Basic
import Mathlib.Logic.Function.Iterate
import Chisaka.Lib.Exec

/-!
# Rings: circular doubly linked lists

`LinkRing next prev L` says that the nodes of `L` are distinct and linked into a circle by `next`,
in the order of the list, and by `prev` the other way round.  The empty list is a ring.  Nothing
marks where a ring begins: `LinkRing.rotate` moves the beginning.

The two edits are stated by what they do to the links of the nodes involved, and the neighbours are
named by the old links, as in a program: `LinkRing.push` puts a node in front of the first one,
which is at the end of the list, and `LinkRing.unlink` takes out a node.  Both cover the small
rings, in which the neighbours of a node are the same node or the node itself.
`LinkRing.push_update` is the first edit as the four writes that a program makes.

`LinkRing.run_walk` is the rule for the loop that walks around a ring once, looking for a node.
-/

set_option autoImplicit false

universe u

variable {α : Type u} {next prev next' prev' : α → α}

/-- Consecutive nodes of the list point at each other. -/
def Linked (next prev : α → α) (L : List α) : Prop :=
  List.IsChain (fun x y ↦ next x = y ∧ prev y = x) L

namespace Linked

variable {x y : α} {L M : List α}

theorem nil : Linked next prev ([] : List α) := List.IsChain.nil

theorem singleton : Linked next prev [x] := List.IsChain.singleton x

theorem cons_cons :
    Linked next prev (x :: y :: L) ↔ (next x = y ∧ prev y = x) ∧ Linked next prev (y :: L) :=
  List.isChain_cons_cons

/-- A list of linked nodes may be cut at any node. -/
theorem append_cons : Linked next prev (L ++ x :: M) ↔
    Linked next prev (L ++ [x]) ∧ Linked next prev (x :: M) :=
  List.isChain_split

/-- The `next` link of the last node and the `prev` link of the first one do not matter. -/
theorem congr (h : Linked next prev L) (hn : ∀ x ∈ L.dropLast, next' x = next x)
    (hp : ∀ x ∈ L.tail, prev' x = prev x) : Linked next' prev' L := by
  induction L with
  | nil => exact nil
  | cons x L ih =>
    cases L with
    | nil => exact singleton
    | cons y L =>
      obtain ⟨⟨h1, h2⟩, h3⟩ := cons_cons.mp h
      refine cons_cons.mpr ⟨⟨?_, ?_⟩, ih h3 (fun z hz ↦ ?_) fun z hz ↦ ?_⟩
      · rw [hn x (by simp), h1]
      · rw [hp y (by simp), h2]
      · exact hn z (by simp [hz])
      · exact hp z (List.mem_of_mem_tail hz)

end Linked

/-- Leaving out a node in the middle of a list leaves nodes of the list. -/
theorem List.mem_append_cons_of_mem {x y : α} {L M : List α} (hy : y ∈ L ++ M) :
    y ∈ L ++ x :: M :=
  ((List.sublist_cons_self x M).append_left L).subset hy

/-- The nodes are distinct and linked into a circle. -/
def LinkRing (next prev : α → α) (L : List α) : Prop :=
  L.Nodup ∧ Linked next prev (L ++ L.take 1)

namespace LinkRing

variable {x z : α} {L M : List α}

theorem nil : LinkRing next prev ([] : List α) := ⟨List.nodup_nil, Linked.nil⟩

theorem nodup (h : LinkRing next prev L) : L.Nodup := h.1

/-- A node is none of the others. -/
theorem notMem_middle (h : LinkRing next prev (L ++ x :: M)) : x ∉ L ++ M :=
  (List.nodup_cons.mp (List.nodup_middle.mp h.nodup)).1

theorem cons_iff :
    LinkRing next prev (x :: L) ↔ (x :: L).Nodup ∧ Linked next prev (x :: (L ++ [x])) := Iff.rfl

/-- A node alone points at itself. -/
theorem singleton_iff : LinkRing next prev [x] ↔ next x = x ∧ prev x = x := by
  rw [cons_iff, List.nil_append, Linked.cons_cons]
  simp [Linked.singleton]

/-- A ring depends on the links of its own nodes only. -/
theorem congr (h : LinkRing next prev L) (hn : ∀ x ∈ L, next' x = next x)
    (hp : ∀ x ∈ L, prev' x = prev x) : LinkRing next' prev' L := by
  have hmem : ∀ x ∈ L ++ L.take 1, x ∈ L := fun x hx ↦
    (List.mem_append.mp hx).elim id List.mem_of_mem_take
  exact ⟨h.1, h.2.congr (fun x hx ↦ hn x (hmem x (List.mem_of_mem_dropLast hx)))
    fun x hx ↦ hp x (hmem x (List.mem_of_mem_tail hx))⟩

theorem rotate_one (h : LinkRing next prev (x :: L)) : LinkRing next prev (L ++ [x]) := by
  obtain ⟨hnd, hl⟩ := cons_iff.mp h
  refine ⟨(List.perm_append_singleton x L).nodup_iff.mpr hnd, ?_⟩
  cases L with
  | nil => exact hl
  | cons y L =>
    obtain ⟨hxy, hl⟩ := Linked.cons_cons.mp hl
    have hcut : (y :: L ++ [x]) ++ (y :: L ++ [x]).take 1 = (y :: L) ++ x :: [y] := by simp
    rw [hcut, Linked.append_cons]
    exact ⟨hl, Linked.cons_cons.mpr ⟨hxy, Linked.singleton⟩⟩

/-- **A ring begins wherever one likes.** -/
theorem rotate (h : LinkRing next prev (L ++ M)) : LinkRing next prev (M ++ L) := by
  induction L generalizing M with
  | nil => simpa using h
  | cons x L ih =>
    have hrot : LinkRing next prev (L ++ (M ++ [x])) := by simpa using h.rotate_one
    simpa using ih hrot

/-- The second node is the one behind the first. -/
theorem next_head {y : α} (h : LinkRing next prev (x :: y :: L)) : next x = y ∧ prev y = x :=
  (Linked.cons_cons.mp (cons_iff.mp h).2).1

/-- The last node is the one before the first. -/
theorem prev_head (h : LinkRing next prev (x :: L)) (hL : x :: L = M ++ [z]) :
    next z = x ∧ prev x = z := by
  have hl := (cons_iff.mp h).2
  rw [← List.cons_append, hL, List.append_assoc, List.singleton_append,
    Linked.append_cons] at hl
  exact (Linked.cons_cons.mp hl.2).1

/-- A ring without its closing link. -/
theorem linked (h : LinkRing next prev (x :: L)) (hL : x :: L = M ++ [z]) :
    Linked next prev (M ++ [z]) := by
  have hl := (cons_iff.mp h).2
  rw [← List.cons_append, hL, List.append_assoc, List.singleton_append,
    Linked.append_cons] at hl
  exact hl.1

/-- Closing a list of linked nodes. -/
theorem of_linked (hnd : (x :: L).Nodup) (hL : x :: L = M ++ [z])
    (hl : Linked next prev (M ++ [z])) (hz : next z = x) (hx : prev x = z) :
    LinkRing next prev (x :: L) := by
  refine cons_iff.mpr ⟨hnd, ?_⟩
  rw [← List.cons_append, hL, List.append_assoc, List.singleton_append, Linked.append_cons]
  exact ⟨hl, Linked.cons_cons.mpr ⟨⟨hz, hx⟩, Linked.singleton⟩⟩

/-- The links between the nodes stay if only the last node gets another successor, and the first one
another predecessor. -/
theorem linked_congr (hnd : (x :: L).Nodup) (hL : x :: L = M ++ [z])
    (hl : Linked next prev (M ++ [z])) (hn : ∀ w ∈ x :: L, w ≠ z → next' w = next w)
    (hp : ∀ w ∈ L, w ≠ x → prev' w = prev w) : Linked next' prev' (M ++ [z]) := by
  refine hl.congr (fun w hw ↦ ?_) fun w hw ↦ ?_
  · rw [List.dropLast_concat] at hw
    refine hn w (by simp [hL, hw]) fun he ↦ ?_
    rw [hL] at hnd
    exact (List.nodup_append.mp hnd).2.2 w hw z (by simp) he
  · rw [← hL, List.tail_cons] at hw
    exact hp w hw fun he ↦ (List.nodup_cons.mp hnd).1 (he ▸ hw)

/-- The last node of a ring. -/
theorem prev_mem (h : LinkRing next prev (x :: L)) : prev x ∈ x :: L := by
  obtain ⟨M, t, hM⟩ : ∃ M t, x :: L = M ++ [t] :=
    ⟨_, _, (List.dropLast_append_getLast (List.cons_ne_nil x L)).symm⟩
  rw [(h.prev_head hM).2, hM]
  simp

/-- A node that is linked to itself is a ring of its own. -/
theorem eq_nil_of_next_eq (h : LinkRing next prev (x :: L)) (hx : next x = x) : L = [] := by
  cases L with
  | nil => rfl
  | cons z L =>
    have hz : z = x := h.next_head.1.symm.trans hx
    exact absurd (hz ▸ List.mem_cons_self) (List.nodup_cons.mp h.nodup).1

/-- **Putting a node in front of the first one**, which is at the end of the list. -/
theorem push [DecidableEq α] (h : LinkRing next prev (x :: L)) (hz : z ∉ x :: L)
    (hn : ∀ w ∈ x :: L, next' w = if w = prev x then z else next w)
    (hp : ∀ w ∈ x :: L, prev' w = if w = x then z else prev w)
    (hnz : next' z = x) (hpz : prev' z = prev x) : LinkRing next' prev' (x :: L ++ [z]) := by
  obtain ⟨M, t, hM⟩ : ∃ M t, x :: L = M ++ [t] :=
    ⟨_, _, (List.dropLast_append_getLast (List.cons_ne_nil x L)).symm⟩
  have hpx : prev x = t := (h.prev_head hM).2
  have ht : t ∈ x :: L := by simp [hM]
  have hnd := h.nodup
  have hlinked : Linked next' prev' (M ++ [t]) := by
    refine linked_congr hnd hM (h.linked hM) (fun w hw hwt ↦ ?_) fun w hw hwx ↦ ?_
    · rw [hn w hw, hpx, if_neg hwt]
    · rw [hp w (List.mem_cons_of_mem x hw), if_neg hwx]
  refine of_linked (M := M ++ [t]) (z := z) ?_ (by rw [← hM]; rfl) ?_ hnz ?_
  · exact (List.perm_append_singleton z (x :: L)).nodup_iff.mpr (List.nodup_cons.mpr ⟨hz, hnd⟩)
  · rw [List.append_assoc, List.singleton_append, Linked.append_cons]
    refine ⟨hlinked, Linked.cons_cons.mpr ⟨⟨?_, by rw [hpz, hpx]⟩, Linked.singleton⟩⟩
    rw [hn t ht, if_pos hpx.symm]
  · rw [hp x List.mem_cons_self, if_pos rfl]

/-- The links that are written to put a node in front of the first one. -/
theorem push_update [DecidableEq α] (h : LinkRing next prev (x :: L)) (hz : z ∉ x :: L) :
    LinkRing (Function.update (Function.update next z x) (prev x) z)
      (Function.update (Function.update prev z (prev x)) x z) (x :: L ++ [z]) := by
  have hzp : z ≠ prev x := fun he ↦ hz (he ▸ h.prev_mem)
  have hzx : z ≠ x := fun he ↦ hz (he ▸ List.mem_cons_self)
  refine h.push hz (fun w hw ↦ ?_) (fun w hw ↦ ?_) ?_ ?_
  · have hwz : w ≠ z := fun he ↦ hz (he ▸ hw)
    by_cases hwp : w = prev x
    · rw [if_pos hwp, hwp, Function.update_self]
    · rw [if_neg hwp, Function.update_of_ne hwp, Function.update_of_ne hwz]
  · have hwz : w ≠ z := fun he ↦ hz (he ▸ hw)
    by_cases hwx : w = x
    · rw [if_pos hwx, hwx, Function.update_self]
    · rw [if_neg hwx, Function.update_of_ne hwx, Function.update_of_ne hwz]
  · rw [Function.update_of_ne hzp, Function.update_self]
  · rw [Function.update_of_ne hzx, Function.update_self]

/-- **Taking out the first node** of a larger ring. -/
theorem unlink [DecidableEq α] (h : LinkRing next prev (x :: L)) (hL : L ≠ [])
    (hn : ∀ w ∈ L, next' w = if w = prev x then next x else next w)
    (hp : ∀ w ∈ L, prev' w = if w = next x then prev x else prev w) : LinkRing next' prev' L := by
  obtain ⟨y, L, rfl⟩ := List.exists_cons_of_ne_nil hL
  obtain ⟨M, t, hM⟩ : ∃ M t, y :: L = M ++ [t] :=
    ⟨_, _, (List.dropLast_append_getLast (List.cons_ne_nil y L)).symm⟩
  have hxM : x :: y :: L = (x :: M) ++ [t] := by rw [hM]; rfl
  have hnx : next x = y := h.next_head.1
  have hpx : prev x = t := (h.prev_head hxM).2
  have hnd := (List.nodup_cons.mp h.nodup).2
  have hlinked : Linked next prev (M ++ [t]) := by
    have hl := h.linked hxM
    rw [← hxM, Linked.cons_cons] at hl
    exact hM ▸ hl.2
  have ht : t ∈ y :: L := by simp [hM]
  refine of_linked hnd hM (linked_congr hnd hM hlinked (fun w hw hwt ↦ ?_) fun w hw hwy ↦ ?_) ?_ ?_
  · rw [hn w hw, hpx, if_neg hwt]
  · rw [hp w (List.mem_cons_of_mem y hw), hnx, if_neg hwy]
  · rw [hn t ht, if_pos hpx.symm, hnx]
  · rw [hp y List.mem_cons_self, if_pos hnx.symm, hpx]

/-- **Taking out any node** of a larger ring. -/
theorem erase [DecidableEq α] (h : LinkRing next prev (L ++ x :: M)) (hLM : L ++ M ≠ [])
    (hn : ∀ w ∈ L ++ M, next' w = if w = prev x then next x else next w)
    (hp : ∀ w ∈ L ++ M, prev' w = if w = next x then prev x else prev w) :
    LinkRing next' prev' (L ++ M) := by
  have hrot : LinkRing next prev (x :: (M ++ L)) := h.rotate
  have hmem : ∀ w, w ∈ M ++ L → w ∈ L ++ M := fun w hw ↦ List.perm_append_comm.subset hw
  have hne : M ++ L ≠ [] := fun h0 ↦ hLM (by simpa [and_comm] using h0)
  exact (hrot.unlink hne (fun w hw ↦ hn w (hmem w hw)) fun w hw ↦ hp w (hmem w hw)).rotate

/-- A node between its neighbours is taken out by linking these to each other. -/
theorem bypass [DecidableEq α] (h : LinkRing next prev (L ++ x :: M)) (hLM : L ++ M ≠ []) :
    LinkRing (Function.update next (prev x) (next x)) (Function.update prev (next x) (prev x))
      (L ++ M) :=
  h.erase hLM (fun w _ ↦ Function.update_apply _ _ _ w) fun w _ ↦ Function.update_apply _ _ _ w

/-- If the node is then linked to itself, it is a ring of its own. -/
theorem isolate [DecidableEq α] (h : LinkRing next prev (L ++ x :: M)) (hLM : L ++ M ≠ [])
    (hn : next' = Function.update (Function.update next (prev x) (next x)) x x)
    (hp : prev' = Function.update (Function.update prev (next x) (prev x)) x x) :
    LinkRing next' prev' (L ++ M) ∧ LinkRing next' prev' [x] := by
  have hx : x ∉ L ++ M := h.notMem_middle
  have hne : ∀ w ∈ L ++ M, w ≠ x := fun w hw he ↦ hx (he ▸ hw)
  refine ⟨(h.bypass hLM).congr (fun w hw ↦ ?_) fun w hw ↦ ?_, singleton_iff.mpr ⟨?_, ?_⟩⟩
  · rw [hn, Function.update_of_ne (hne w hw)]
  · rw [hp, Function.update_of_ne (hne w hw)]
  · rw [hn, Function.update_self]
  · rw [hp, Function.update_self]

/-- If both neighbours of the first node are the same one, the ring has two nodes. -/
theorem eq_nil_of_two {y : α} (h : LinkRing next prev (x :: L ++ y :: M)) (hn : next x = y)
    (hp : prev x = y) : L = [] ∧ M = [] := by
  have hy : y ∉ x :: L ++ M := h.notMem_middle
  constructor
  · cases L with
    | nil => rfl
    | cons z L =>
      obtain rfl : z = y := h.next_head.1.symm.trans hn
      exact absurd (by simp) hy
  · rcases List.eq_nil_or_concat M with rfl | ⟨K, z, rfl⟩
    · rfl
    · have hz : prev x = z := (h.prev_head (M := x :: L ++ y :: K) (by simp)).2
      obtain rfl : z = y := hz.symm.trans hp
      exact absurd (by simp) hy

/-- The neighbours of a node of a larger ring are other nodes of it. -/
theorem neighbours_mem (h : LinkRing next prev (L ++ x :: M)) (hLM : L ++ M ≠ []) :
    next x ∈ L ++ M ∧ prev x ∈ L ++ M := by
  have hrot : LinkRing next prev (x :: (M ++ L)) := h.rotate
  have hne : M ++ L ≠ [] := fun h0 ↦ hLM (by simpa [and_comm] using h0)
  have hmem : ∀ w, w ∈ M ++ L → w ∈ L ++ M := fun w hw ↦ List.perm_append_comm.subset hw
  obtain ⟨y, K, hK⟩ := List.exists_cons_of_ne_nil hne
  obtain ⟨K', t, hK'⟩ : ∃ K' t, M ++ L = K' ++ [t] :=
    ⟨_, _, (List.dropLast_append_getLast hne).symm⟩
  refine ⟨hmem _ ?_, hmem _ ?_⟩
  · rw [hK] at hrot
    rw [hrot.next_head.1, hK]
    exact List.mem_cons_self
  · rw [(hrot.prev_head (M := x :: K') (by rw [hK']; rfl)).2, hK']
    simp

/-- The links do not lead out of a ring. -/
theorem next_mem {y : α} (h : LinkRing next prev L) (hy : y ∈ L) : next y ∈ L := by
  obtain ⟨P, S, rfl⟩ := List.append_of_mem hy
  have hrot : LinkRing next prev (y :: S ++ P) := h.rotate
  cases hSP : S ++ P with
  | nil =>
    rw [List.cons_append, hSP] at hrot
    rw [(singleton_iff.mp hrot).1]
    exact hy
  | cons z M =>
    rw [List.cons_append, hSP] at hrot
    have hz : z ∈ S ++ P := hSP ▸ List.mem_cons_self
    rw [hrot.next_head.1]
    simp only [List.mem_append, List.mem_cons] at hz ⊢
    tauto

/-- The predecessor of the successor. -/
theorem prev_next {y : α} (h : LinkRing next prev L) (hy : y ∈ L) : prev (next y) = y := by
  obtain ⟨P, S, rfl⟩ := List.append_of_mem hy
  have hrot : LinkRing next prev (y :: (S ++ P)) := h.rotate
  cases hSP : S ++ P with
  | nil =>
    rw [hSP] at hrot
    have hself := singleton_iff.mp hrot
    rw [hself.1, hself.2]
  | cons z M =>
    rw [hSP] at hrot
    rw [hrot.next_head.1, hrot.next_head.2]

/-- **The nodes of a ring** are those that the links lead to from any one of them. -/
theorem mem_iff_iterate {y : α} (h : LinkRing next prev (x :: L)) :
    y ∈ x :: L ↔ ∃ n, next^[n] x = y := by
  constructor
  · intro hy
    obtain ⟨P, S, hP⟩ := List.append_of_mem hy
    -- induction on the nodes in front of `y`, from the last one
    induction P using List.reverseRecOn generalizing y S with
    | nil => exact ⟨0, (List.cons.inj hP).1⟩
    | append_singleton P z ih =>
      have hz : x :: L = P ++ z :: y :: S := by simpa using hP
      obtain ⟨n, hn⟩ := ih (hz ▸ List.mem_append_right P List.mem_cons_self) (y :: S) hz
      have hrot : LinkRing next prev (z :: y :: S ++ P) := (hz ▸ h).rotate
      exact ⟨n + 1, by rw [Function.iterate_succ_apply', hn, hrot.next_head.1]⟩
  · rintro ⟨n, rfl⟩
    induction n with
    | zero => exact List.mem_cons_self
    | succ n ih =>
      rw [Function.iterate_succ_apply']
      exact h.next_mem ih

/-! ## Walking around a ring -/

section Walk

variable {ρ : Type u} {body : α → Exec (α ⊕ ρ)} {p : α → Bool} {hit : α → Exec ρ} {miss : ρ}

/-- From any node on, the walk finds the first node that is looked for. -/
theorem run_walk_from [DecidableEq α] (h : LinkRing next prev (x :: L))
    (hhit : ∀ d ∈ x :: L, p d = true → body d = (hit d >>= fun r ↦ .ok (.inr r)))
    (hmiss : ∀ d ∈ x :: L, p d = false →
      body d = .ok (if next d = x then .inr miss else .inl (next d))) {S : List α} :
    ∀ {P : List α} {y : α} {n : ℕ}, x :: L = P ++ y :: S → S.length < n →
      Loop.run body n y = ((y :: S).find? p).elim (.ok miss) hit := by
  induction S with
  | nil =>
    intro P y n hP hn
    obtain ⟨n, rfl⟩ := Nat.exists_eq_succ_of_ne_zero (Nat.ne_of_gt (Nat.zero_lt_of_lt hn))
    have hy : y ∈ x :: L := by simp [hP]
    cases hpy : p y with
    | true =>
      rw [List.find?_cons_of_pos hpy]
      exact Loop.run_bind_inr (hhit y hy hpy) n
    | false =>
      rw [Loop.run_inr (by rw [hmiss y hy hpy, if_pos (h.prev_head hP).1])]
      simp [hpy]
  | cons z S ih =>
    intro P y n hP hn
    obtain ⟨n, rfl⟩ := Nat.exists_eq_succ_of_ne_zero (Nat.ne_of_gt (Nat.zero_lt_of_lt hn))
    have hy : y ∈ x :: L := by simp [hP]
    cases hpy : p y with
    | true =>
      rw [List.find?_cons_of_pos hpy]
      exact Loop.run_bind_inr (hhit y hy hpy) n
    | false =>
      have hrot : LinkRing next prev (y :: z :: S ++ P) := (hP ▸ h).rotate
      have hz : next y = z := hrot.next_head.1
      have hzx : z ≠ x := fun he ↦ by
        have hnd := h.nodup
        rw [he] at hP
        cases P with
        | nil =>
          rw [hP] at hnd
          obtain rfl : x = y := (List.cons.inj hP).1
          exact (List.nodup_cons.mp hnd).1 List.mem_cons_self
        | cons w P =>
          obtain ⟨rfl, hL⟩ := List.cons.inj hP
          exact (List.nodup_cons.mp hnd).1 (by rw [hL]; simp)
      have hbody : body y = .ok (.inl z) := by rw [hmiss y hy hpy, hz, if_neg hzx]
      rw [Loop.run_inl hbody, List.find?_cons_of_neg (by simp [hpy])]
      exact ih (P := P ++ [y]) (by rw [hP]; simp) (by simpa using hn)

/-- **The walk around a ring** finds the first node that is looked for, and ends where it began if
there is none. -/
theorem run_walk [DecidableEq α] (h : LinkRing next prev (x :: L))
    (hhit : ∀ d ∈ x :: L, p d = true → body d = (hit d >>= fun r ↦ .ok (.inr r)))
    (hmiss : ∀ d ∈ x :: L, p d = false →
      body d = .ok (if next d = x then .inr miss else .inl (next d))) {n : ℕ} (hn : L.length < n) :
    Loop.run body n x = ((x :: L).find? p).elim (.ok miss) hit :=
  h.run_walk_from hhit hmiss (P := []) rfl hn

end Walk

end LinkRing
