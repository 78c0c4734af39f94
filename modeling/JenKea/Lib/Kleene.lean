import Mathlib.Data.Bool.AllAny
import Mathlib.Data.List.Basic

/-!
# Three-valued logic

The connectives on values that may be undecided: `none` is a value that nobody knows. A conjunction is
false when a part is, and a disjunction is true when a part is, whatever the other parts are.
-/

namespace JenKea.Kleene

/-- A conjunction. -/
def and (a b : Option Bool) : Option Bool :=
  if a = some false ∨ b = some false then some false
  else if a = none ∨ b = none then none
  else some true

/-- A disjunction. -/
def or (a b : Option Bool) : Option Bool :=
  if a = some true ∨ b = some true then some true
  else if a = none ∨ b = none then none
  else some false

/-- A negation. -/
def not (a : Option Bool) : Option Bool := a.map Bool.not

/-- The conjunction of a list. -/
def all (l : List (Option Bool)) : Option Bool := l.foldr and (some true)

/-- The disjunction of a list. -/
def any (l : List (Option Bool)) : Option Bool := l.foldr or (some false)

@[simp] theorem and_some (a b : Bool) : and (some a) (some b) = some (a && b) := by
  cases a <;> cases b <;> rfl

@[simp] theorem or_some (a b : Bool) : or (some a) (some b) = some (a || b) := by
  cases a <;> cases b <;> rfl

@[simp] theorem not_some (a : Bool) : not (some a) = some !a := rfl

section Lists

variable {l : List (Option Bool)}

@[simp] theorem all_nil : all [] = some true := rfl

@[simp] theorem any_nil : any [] = some false := rfl

@[simp] theorem all_cons {a : Option Bool} : all (a :: l) = and a (all l) := rfl

@[simp] theorem any_cons {a : Option Bool} : any (a :: l) = or a (any l) := rfl

theorem and_eq_true {a b : Option Bool} : and a b = some true ↔ a = some true ∧ b = some true := by
  rcases a with _ | _ | _ <;> rcases b with _ | _ | _ <;> decide

theorem and_eq_false {a b : Option Bool} :
    and a b = some false ↔ a = some false ∨ b = some false := by
  rcases a with _ | _ | _ <;> rcases b with _ | _ | _ <;> decide

theorem all_eq_true : all l = some true ↔ ∀ a ∈ l, a = some true := by
  induction l with
  | nil => simp
  | cons a l ih => rw [all_cons, and_eq_true, ih, List.forall_mem_cons]

theorem all_eq_false : all l = some false ↔ some false ∈ l := by
  induction l with
  | nil => simp
  | cons a l ih => rw [all_cons, and_eq_false, ih, List.mem_cons, eq_comm]

/-- The conjunction depends on which values there are, and not on their order and number. -/
theorem all_congr {l' : List (Option Bool)} (h : ∀ a, a ∈ l ↔ a ∈ l') : all l = all l' := by
  have htrue : all l = some true ↔ all l' = some true := by simp only [all_eq_true, h]
  have hfalse : all l = some false ↔ all l' = some false := by simp only [all_eq_false, h]
  rcases hl : all l with _ | _ | _ <;> rcases hl' : all l' with _ | _ | _ <;> simp_all

/-- Values that are all decided. -/
theorem all_map_some {α : Type} (f : α → Bool) (xs : List α) :
    all (xs.map fun x => some (f x)) = some (xs.all f) := by
  induction xs with
  | nil => rfl
  | cons x xs ih => rw [List.map_cons, all_cons, ih, and_some, List.all_cons]

theorem any_map_some {α : Type} (f : α → Bool) (xs : List α) :
    any (xs.map fun x => some (f x)) = some (xs.any f) := by
  induction xs with
  | nil => rfl
  | cons x xs ih => rw [List.map_cons, any_cons, ih, or_some, List.any_cons]

end Lists

/-! ## Deciding more -/

/-- What `a` decides, `b` decides the same way. -/
def Below (a b : Option Bool) : Prop := ∀ v, a = some v → b = some v

theorem Below.refl (a : Option Bool) : Below a a := fun _ h => h

theorem below_none (b : Option Bool) : Below none b := fun _ h => nomatch h

section Below

variable {a a' b b' : Option Bool}

theorem Below.and (ha : Below a a') (hb : Below b b') : Below (and a b) (and a' b') := by
  intro v hv
  cases v with
  | true =>
    obtain ⟨hleft, hright⟩ := and_eq_true.mp hv
    rw [ha true hleft, hb true hright, and_some]
    rfl
  | false =>
    -- one side is false, and that side stays so
    rcases and_eq_false.mp hv with hleft | hright
    · exact and_eq_false.mpr (Or.inl (ha false hleft))
    · exact and_eq_false.mpr (Or.inr (hb false hright))

theorem or_eq_true : or a b = some true ↔ a = some true ∨ b = some true := by
  rcases a with _ | _ | _ <;> rcases b with _ | _ | _ <;> decide

theorem or_eq_false : or a b = some false ↔ a = some false ∧ b = some false := by
  rcases a with _ | _ | _ <;> rcases b with _ | _ | _ <;> decide

theorem Below.or (ha : Below a a') (hb : Below b b') : Below (or a b) (or a' b') := by
  intro v hv
  cases v with
  | false =>
    obtain ⟨hleft, hright⟩ := or_eq_false.mp hv
    rw [ha false hleft, hb false hright, or_some]
    rfl
  | true =>
    rcases or_eq_true.mp hv with hleft | hright
    · exact or_eq_true.mpr (Or.inl (ha true hleft))
    · exact or_eq_true.mpr (Or.inr (hb true hright))

theorem Below.not (ha : Below a a') : Below (not a) (not a') := by
  intro v hv
  obtain ⟨w, hw, rfl⟩ := Option.map_eq_some_iff.mp hv
  rw [ha w hw, not_some]

end Below

end JenKea.Kleene
