import JenKea.Lib.Dict
import Mathlib.Data.List.Infix

/-!
# Places in a JSON value

A program that holds on to a dictionary inside a value and writes into it changes the value at a path of keys
and indices. What a path leads to that neither passes through the change nor ends above it is what it was.
-/

namespace JenKea.Json

/-- A step into a value. -/
inductive Step where
  | key (k : String)
  | item (i : ℕ)
  deriving DecidableEq

/-- The steps to a place. -/
abbrev Path : Type := List Step

/-- The value that a step leads to. -/
def child : Step → Json → Option Json
  | .key k, .obj fs => lookup k fs
  | .item i, .arr xs => xs[i]?
  | _, _ => none

/-- Another value where a step leads to. -/
def putChild : Step → Json → Json → Json
  | .key k, w, .obj fs => .obj (set k w fs)
  | .item i, w, .arr xs => .arr (xs.set i w)
  | _, _, v => v

/-- The value at a place. -/
def get : Path → Json → Option Json
  | [], v => some v
  | s :: p, v => (child s v).bind (get p)

/-- The value with a change at a place, where there is one. -/
def modify : Path → (Json → Json) → Json → Json
  | [], f, v => f v
  | s :: p, f, v => (child s v).elim v fun w => putChild s (modify p f w) v

section Places

variable {s t : Step} {p r : Path} {f : Json → Json} {v w w' : Json}

theorem child_putChild_self (h : child s v = some w) : child s (putChild s w' v) = some w' := by
  cases s with
  | key k =>
    cases v with
    | obj fs => exact lookup_set_self
    | _ => cases h
  | item i =>
    cases v with
    | arr xs =>
      obtain ⟨hi, -⟩ := List.getElem?_eq_some_iff.mp h
      exact List.getElem?_set_self hi
    | _ => cases h

theorem child_putChild_ne (hne : s ≠ t) : child t (putChild s w v) = child t v := by
  cases s with
  | key k =>
    cases v with
    | obj fs =>
      cases t with
      | key j => exact lookup_set_ne fun h => hne (by rw [h])
      | item j => rfl
    | _ => rfl
  | item i =>
    cases v with
    | arr xs =>
      cases t with
      | key j => rfl
      | item j => exact List.getElem?_set_ne fun h => hne (by rw [h])
    | _ => rfl

theorem modify_cons_of_child (h : child s v = some w) :
    modify (s :: p) f v = putChild s (modify p f w) v := by
  show (child s v).elim v (fun w => putChild s (modify p f w) v) = _
  rw [h]
  rfl

theorem modify_cons_of_none (h : child s v = none) : modify (s :: p) f v = v := by
  show (child s v).elim v (fun w => putChild s (modify p f w) v) = v
  rw [h]
  rfl

theorem get_append : get (p ++ r) v = (get p v).bind (get r) := by
  induction p generalizing v with
  | nil => rfl
  | cons s p ih =>
    rw [List.cons_append, get, get]
    cases child s v with
    | none => rfl
    | some w => exact ih

/-- Above the change, the value changes below the place. -/
theorem get_modify_above : get r (modify (r ++ p) f v) = (get r v).map (modify p f) := by
  induction r generalizing v with
  | nil => rfl
  | cons s r ih =>
    rw [List.cons_append]
    cases hchild : child s v with
    | none =>
      rw [modify_cons_of_none hchild, get, hchild]
      rfl
    | some w =>
      rw [modify_cons_of_child hchild, get, child_putChild_self hchild, get, hchild]
      exact ih

/-- The change of a value is at one of its keys. -/
def OnlyKey (k : String) (f : Json → Json) : Prop := ∀ v s, s ≠ .key k → child s (f v) = child s v

/-- Off the way to the change, and not below the key that it is at, everything is as it was. -/
theorem get_modify_frame {k : String} (hf : OnlyKey k f) (hway : ¬ r <+: p) (hbelow : ¬ p ++ [.key k] <+: r) :
    get r (modify p f v) = get r v := by
  induction p generalizing r v with
  | nil =>
    cases r with
    | nil => exact absurd (List.prefix_refl _) hway
    | cons t r =>
      have ht : t ≠ .key k := by
        rintro rfl
        exact hbelow ⟨r, rfl⟩
      show (child t (f v)).bind (get r) = (child t v).bind (get r)
      rw [hf v t ht]
  | cons s p ih =>
    cases r with
    | nil => exact absurd List.nil_prefix hway
    | cons t r =>
      cases hchild : child s v with
      | none => rw [modify_cons_of_none hchild]
      | some w =>
        rw [modify_cons_of_child hchild, get, get]
        by_cases hst : s = t
        · subst hst
          rw [child_putChild_self hchild, hchild]
          refine ih (fun h => hway ?_) fun h => hbelow ?_
          · exact (List.prefix_cons_inj s).mpr h
          · exact (List.prefix_cons_inj s).mpr h
        · rw [child_putChild_ne hst]

end Places

/-! ## The outer shape -/

/-- Two values of one outer shape: two lists of one length, two dictionaries of which both have keys or neither
has, or one value. -/
def Alike : Json → Json → Prop
  | .arr xs, .arr ys => xs.length = ys.length
  | .obj fs, .obj gs => fs = [] ↔ gs = []
  | v, w => v = w

theorem Alike.refl (v : Json) : Alike v v := by
  cases v with
  | arr xs => exact (rfl : xs.length = xs.length)
  | obj fs => exact Iff.rfl
  | _ => exact rfl

theorem set_ne_nil {k : String} {v : Json} {fs : Fields} : set k v fs ≠ [] := by
  cases fs with
  | nil => exact List.cons_ne_nil _ _
  | cons f fs =>
    rw [set]
    split_ifs <;> exact List.cons_ne_nil _ _

/-- A change below keeps the outer shape. -/
theorem alike_modify {s : Step} {p : Path} {f : Json → Json} (v : Json) : Alike v (modify (s :: p) f v) := by
  cases hchild : child s v with
  | none =>
    rw [modify_cons_of_none hchild]
    exact Alike.refl v
  | some w =>
    rw [modify_cons_of_child hchild]
    cases s with
    | key k =>
      cases v with
      | obj fs =>
        have hne : fs ≠ [] := by
          rintro rfl
          cases hchild
        exact iff_of_false hne set_ne_nil
      | _ => cases hchild
    | item i =>
      cases v with
      | arr xs =>
        have hlength : xs.length = (xs.set i (modify p f w)).length := List.length_set.symm
        exact hlength
      | _ => cases hchild

end JenKea.Json
