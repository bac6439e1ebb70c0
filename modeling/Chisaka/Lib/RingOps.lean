import Chisaka.Lib.Ring

/-!
# Operations on rings of objects

A program keeps objects on rings, through a `next` and a `prev` member in each of them, and edits
the rings with four methods: `add` puts an object in front of another one, `remove` and `extract`
take an object out that another one points to, and `extractSelf` takes the object itself out.
`RingOps.Lawful` says what such methods are expected to do.

`Admits` is what `add` asks of the object that is added, besides that it is not the same one.
-/

set_option autoImplicit false

universe u

/-- A state with objects on rings, and the methods that edit the rings.  Pointers are numbers, and
`0` is null. -/
structure RingOps (σ : Type u) where
  /-- The successor of an object. -/
  next : σ → ℕ → ℕ
  /-- Its predecessor. -/
  prev : σ → ℕ → ℕ
  /-- The pointer can be followed. -/
  live : σ → ℕ → Prop
  /-- Nothing but links differs. -/
  same : σ → σ → Prop
  /-- Put the second object in front of the first one. -/
  add : σ → ℕ → ℕ → Exec σ
  /-- Take the second object out of the ring of the first one. -/
  remove : σ → ℕ → ℕ → Exec σ
  /-- The same, and return the second object. -/
  extract : σ → ℕ → ℕ → Exec (ℕ × σ)
  /-- Take the object out of its ring. -/
  extractSelf : σ → ℕ → Exec σ

namespace RingOps

variable {σ : Type u}

/-- The objects are on a ring, in this order. -/
structure Ring (o : RingOps σ) (s : σ) (L : List ℕ) : Prop where
  /-- They are linked into a circle, `next` and `prev` being inverse to each other. -/
  ring : LinkRing (o.next s) (o.prev s) L
  /-- They are alive. -/
  live : ∀ d ∈ L, o.live s d

/-- Nothing has changed but links of the objects `S`. -/
structure Frame (o : RingOps σ) (S : List ℕ) (s s' : σ) : Prop where
  /-- Nothing but links differs. -/
  same : o.same s s'
  /-- The other objects have kept their links. -/
  links : ∀ d ∉ S, o.next s' d = o.next s d ∧ o.prev s' d = o.prev s d

/-- **What the methods do to a ring**, whatever its length. -/
structure Lawful (o : RingOps σ) (Admits : σ → ℕ → ℕ → Prop) : Prop where
  /-- An object that is linked to itself is added at the end. -/
  add : ∀ s x y L, o.Ring s (x :: L) → o.Ring s [y] → y ≠ x → Admits s x y →
    ∃ s', o.add s x y = .ok s' ∧ o.Ring s' (x :: L ++ [y]) ∧ o.Frame (y :: x :: L) s s'
  /-- An object is not added to itself. -/
  add_self : ∀ s x L, o.Ring s (x :: L) → o.add s x x = .ok s
  /-- An object that is not admitted is not added. -/
  add_refused : ∀ s x y L, o.Ring s (x :: L) → o.live s y → ¬Admits s x y → o.add s x y = .ok s
  /-- An object other than the head is removed, and the others stay in order. -/
  remove : ∀ s x y L M, o.Ring s (x :: L ++ y :: M) →
    ∃ s', o.remove s x y = .ok s' ∧ o.Ring s' (x :: L ++ M) ∧ o.Frame (x :: L ++ M) s s'
  /-- The head is not removed. -/
  remove_self : ∀ s x L, o.Ring s (x :: L) → o.remove s x x = .ok s
  /-- Extracting is removing, and answers the object. -/
  extract : ∀ s x y L M, o.Ring s (x :: L ++ y :: M) →
    ∃ s', o.extract s x y = .ok (y, s') ∧ o.Ring s' (x :: L ++ M) ∧ o.Frame (x :: L ++ M) s s'
  /-- The head is not extracted. -/
  extract_self : ∀ s x L, o.Ring s (x :: L) → o.extract s x x = .ok (0, s)
  /-- Any object extracts itself; the others stay in order, and it is linked to itself. -/
  extractSelf : ∀ s x L M, o.Ring s (L ++ x :: M) →
    ∃ s', o.extractSelf s x = .ok s' ∧ o.Ring s' (L ++ M) ∧ o.Ring s' [x] ∧
      o.Frame (L ++ x :: M) s s'

variable {o : RingOps σ} {s s' : σ} {x y : ℕ} {L M : List ℕ} {Admits : σ → ℕ → ℕ → Prop}

/-- An object that is linked to itself is on no ring but its own. -/
theorem Ring.notMem (h : o.Ring s (x :: L)) (hy : o.Ring s [y]) (hne : y ≠ x) : y ∉ x :: L := by
  intro hmem
  obtain ⟨P, S, hP⟩ := List.append_of_mem hmem
  have hrot : LinkRing (o.next s) (o.prev s) (y :: S ++ P) := (hP ▸ h.ring).rotate
  have hnil := hrot.eq_nil_of_next_eq (LinkRing.singleton_iff.mp hy.ring).1
  obtain ⟨rfl, rfl⟩ := List.append_eq_nil_iff.mp hnil
  exact hne (List.cons.inj hP).1.symm

end RingOps
