import Chisaka.Lib.Exec

/-!
# Objects at addresses

A program that keeps its objects in memory and follows pointers to them, without ever looking at
their bytes, is embedded over `Objects α`: the object that is alive at an address, if there is one.
`deref` follows a pointer, `put` makes or replaces an object and `modify` assigns to members of one;
following null or a pointer to nothing is a fault.

A chain of assignments is summed up by what it does not touch: `Agree g o o'` says that `g` of every
object is the same in both, and every `modify` that keeps `g` keeps it everywhere (`agree_modify`).
-/

set_option autoImplicit false

universe u v

/-- The objects that are alive. -/
abbrev Objects (α : Type u) := ℕ → Option α

namespace Objects

variable {α : Type u} {β : Type v}

/-- The object a pointer points to. -/
def deref (o : Objects α) (p : ℕ) : Exec α :=
  if p = 0 then .error .nullDeref
  else match o p with
    | none => .error .dangling
    | some a => .ok a

/-- The objects with `a` at `p`. -/
def put (o : Objects α) (p : ℕ) (a : α) : Objects α := fun x ↦ if x = p then some a else o x

/-- The objects without one at `p`. -/
def kill (o : Objects α) (p : ℕ) : Objects α := fun x ↦ if x = p then none else o x

/-- Write a whole object through a pointer. -/
def assign (o : Objects α) (p : ℕ) (a : α) : Exec (Objects α) :=
  if p = 0 then .error .nullDeref else .ok (o.put p a)

/-- Assign to members of the object a pointer points to. -/
def modify (o : Objects α) (p : ℕ) (f : α → α) : Exec (Objects α) := do
  let a ← o.deref p
  return o.put p (f a)

variable {o o' : Objects α} {p q x : ℕ} {a b : α}

@[simp] theorem deref_null (o : Objects α) : o.deref 0 = .error .nullDeref := rfl

@[simp] theorem assign_null (o : Objects α) (a : α) : o.assign 0 a = .error .nullDeref := rfl

/-- **A pointer can be followed** when it is not null and leads to an object. -/
theorem deref_eq_ok : o.deref p = .ok a ↔ p ≠ 0 ∧ o p = some a := by
  rw [deref]
  split
  · simp_all
  · split <;> simp_all

@[simp] theorem put_self (o : Objects α) (p : ℕ) (a : α) : o.put p a p = some a := if_pos rfl

theorem put_of_ne (h : x ≠ p) (o : Objects α) (a : α) : o.put p a x = o x := if_neg h

theorem put_put (o : Objects α) (p : ℕ) (a b : α) : (o.put p a).put p b = o.put p b := by
  funext x
  simp only [put]
  split <;> rfl

theorem deref_put (hp : p ≠ 0) (o : Objects α) (a : α) : (o.put p a).deref p = .ok a :=
  deref_eq_ok.mpr ⟨hp, put_self o p a⟩

theorem modify_eq_ok {f : α → α} :
    o.modify p f = .ok o' ↔ ∃ a, p ≠ 0 ∧ o p = some a ∧ o' = o.put p (f a) := by
  simp only [modify, Exec.bind_eq_ok, deref_eq_ok, Exec.pure_eq, Except.ok.injEq]
  constructor
  · rintro ⟨a, ⟨hp, ha⟩, rfl⟩
    exact ⟨a, hp, ha, rfl⟩
  · rintro ⟨a, hp, ha, rfl⟩
    exact ⟨a, ⟨hp, ha⟩, rfl⟩

theorem modify_of_deref {f : α → α} (h : o.deref p = .ok a) :
    o.modify p f = .ok (o.put p (f a)) := by
  rw [modify, h]
  rfl

/-! ## What assignments leave alone -/

/-- The same addresses are alive, and `g` of every object is the same. -/
def Agree (g : α → β) (o o' : Objects α) : Prop := ∀ x, (o' x).map g = (o x).map g

variable {g : α → β}

theorem Agree.refl (g : α → β) (o : Objects α) : Agree g o o := fun _ ↦ rfl

theorem Agree.trans {o'' : Objects α} (h : Agree g o o') (h' : Agree g o' o'') : Agree g o o'' :=
  fun x ↦ (h' x).trans (h x)

/-- **An assignment that keeps `g` of its object keeps `g` of all.** -/
theorem agree_modify {f : α → α} (h : o.modify p f = .ok o') (hf : ∀ a, g (f a) = g a) :
    Agree g o o' := by
  obtain ⟨a, -, ha, rfl⟩ := modify_eq_ok.mp h
  intro x
  rw [put]
  split
  · rename_i hx
    rw [hx, ha, Option.map_some, Option.map_some, hf]
  · rfl

theorem Agree.exists_eq (h : Agree g o o') (hx : o x = some a) :
    ∃ b, o' x = some b ∧ g b = g a := by
  have := h x
  rw [hx, Option.map_some, Option.map_eq_some_iff] at this
  exact this

theorem Agree.symm (h : Agree g o o') : Agree g o' o := fun x ↦ (h x).symm

end Objects
