import Mathlib.Data.List.Sort
import Mathlib.Data.Rat.Init

/-!
# JSON values, as Python compares them

A JSON value as `json.loads` builds it: a dictionary keeps its insertion order, an integer and a
float are two kinds of value, and a float is the rational it stands for. Python compares such values
in two ways that this file keeps apart: `==`, for which `True`, `1`, and `1.0` are one value and the
order of a dictionary is nothing (`Json.pyEq`), and the text of `json.dumps` with sorted keys
(`Json.canonical`, the value that this text writes down).
-/

namespace JenKea

/-- A JSON value. -/
inductive Json where
  | null
  | bool (b : Bool)
  | int (n : ℤ)
  | float (q : ℚ)
  | str (s : String)
  | arr (xs : List Json)
  | obj (fields : List (String × Json))

namespace Json

/-! ## Induction -/

/-- Induction on a value: an array is judged after its elements, a dictionary after its values. -/
@[induction_eliminator]
theorem induct {P : Json → Prop} (null : P .null) (bool : ∀ b, P (.bool b))
    (int : ∀ n, P (.int n)) (float : ∀ q, P (.float q)) (str : ∀ s, P (.str s))
    (arr : ∀ xs, (∀ x ∈ xs, P x) → P (.arr xs))
    (obj : ∀ fields, (∀ f ∈ fields, P f.2) → P (.obj fields)) (v : Json) : P v :=
  @Json.rec P (fun xs => ∀ x ∈ xs, P x) (fun fields => ∀ f ∈ fields, P f.2) (fun f => P f.2)
    null bool int float str arr obj (by simp) (fun x xs hx hxs => by simpa using ⟨hx, hxs⟩)
    (by simp) (fun f fields hf hfields => by simpa using ⟨hf, fun a b h => hfields (a, b) h⟩)
    (fun _ _ h => h) v

/-! ## Equality -/

mutual

/-- Whether two values are the same value, the order of every dictionary included. -/
def beq : Json → Json → Bool
  | .null, .null => true
  | .bool a, .bool b => a == b
  | .int a, .int b => a == b
  | .float a, .float b => a == b
  | .str a, .str b => a == b
  | .arr xs, .arr ys => beqList xs ys
  | .obj fs, .obj gs => beqFields fs gs
  | _, _ => false

/-- `beq` on the elements of two arrays. -/
def beqList : List Json → List Json → Bool
  | [], [] => true
  | x :: xs, y :: ys => beq x y && beqList xs ys
  | _, _ => false

/-- `beq` on the entries of two dictionaries. -/
def beqFields : List (String × Json) → List (String × Json) → Bool
  | [], [] => true
  | (j, v) :: fs, (k, w) :: gs => j == k && beq v w && beqFields fs gs
  | _, _ => false

end

theorem beqList_iff {xs : List Json} (h : ∀ x ∈ xs, ∀ y, beq x y = true ↔ x = y)
    (ys : List Json) : beqList xs ys = true ↔ xs = ys := by
  induction xs generalizing ys with
  | nil => cases ys <;> simp [beqList]
  | cons x xs ih =>
    cases ys with
    | nil => simp [beqList]
    | cons y ys =>
      have hx := h x (by simp) y
      have hxs := ih (fun x' hx' => h x' (by simp [hx'])) ys
      simp [beqList, hx, hxs]

theorem beqFields_iff {fs : List (String × Json)} (h : ∀ f ∈ fs, ∀ y, beq f.2 y = true ↔ f.2 = y)
    (gs : List (String × Json)) : beqFields fs gs = true ↔ fs = gs := by
  induction fs generalizing gs with
  | nil => cases gs <;> simp [beqFields]
  | cons f fs ih =>
    obtain ⟨j, v⟩ := f
    cases gs with
    | nil => simp [beqFields]
    | cons g gs =>
      obtain ⟨k, w⟩ := g
      have hv := h (j, v) (by simp) w
      have hfs := ih (fun f hf => h f (by simp [hf])) gs
      simp only [beqFields, Bool.and_eq_true, beq_iff_eq, hv, hfs, List.cons.injEq, Prod.mk.injEq]

theorem beq_iff (v w : Json) : beq v w = true ↔ v = w := by
  induction v generalizing w with
  | arr xs ih => cases w <;> simp [beq, beqList_iff ih]
  | obj fs ih => cases w <;> simp [beq, beqFields_iff ih]
  | _ => cases w <;> simp [beq]

instance : DecidableEq Json := fun v w => decidable_of_iff (beq v w = true) (beq_iff v w)

/-! ## Dictionaries -/

/-- The value of a key in the entries of a dictionary. -/
def lookup (k : String) : List (String × Json) → Option Json
  | [] => none
  | (j, v) :: fs => if j = k then some v else lookup k fs

/-- `not v`. -/
def falsy : Json → Bool
  | .null => true
  | .bool b => !b
  | .int n => n == 0
  | .float q => q == 0
  | .str s => s == ""
  | .arr xs => xs.isEmpty
  | .obj fs => fs.isEmpty

/-- `v or None`. -/
def orNull (v : Json) : Json := if v.falsy then .null else v

/-- `str(v)`, where `repr` writes floats, lists and dictionaries. -/
def pyStr (repr : Json → String) : Json → String
  | .str s => s
  | .null => "None"
  | .bool b => if b then "True" else "False"
  | .int n => toString n
  | v => repr v

/-! ## Python's equality -/

/-- The number that a value is to Python's `==`: a boolean is one. -/
def number : Json → Option ℚ
  | .bool b => some (if b then 1 else 0)
  | .int n => some n
  | .float q => some q
  | _ => none

mutual

/-- `v == w`. -/
def pyEq : Json → Json → Bool
  | .null, .null => true
  | .str a, .str b => a == b
  | .arr xs, .arr ys => pyEqList xs ys
  | .obj fs, .obj gs => fs.length == gs.length && pyEqFields fs gs
  | .null, _ => false
  | .str _, _ => false
  | .arr _, _ => false
  | .obj _, _ => false
  | .bool b, w => (bool b).number == w.number
  | .int n, w => (int n).number == w.number
  | .float q, w => (float q).number == w.number

/-- `==` on two lists. -/
def pyEqList : List Json → List Json → Bool
  | [], [] => true
  | x :: xs, y :: ys => pyEq x y && pyEqList xs ys
  | _, _ => false

/-- Whether every entry of the first dictionary is in the second one, with an equal value. -/
def pyEqFields : List (String × Json) → List (String × Json) → Bool
  | [], _ => true
  | (k, v) :: fs, gs =>
    (match lookup k gs with
      | some w => pyEq v w
      | none => false) && pyEqFields fs gs

end

/-! ## The canonical text -/

/-- Whether a key comes before another or is it, by code points. -/
def keyLe : List Char → List Char → Bool
  | [], _ => true
  | _ :: _, [] => false
  | a :: as, b :: bs => a.toNat < b.toNat || (a.toNat == b.toNat && keyLe as bs)

mutual

/-- The value with the entries of every dictionary sorted by key: `json.dumps` with `sort_keys`
writes this value down, so two values have one text when they have one canonical form. -/
def canonical : Json → Json
  | .arr xs => .arr (canonicalList xs)
  | .obj fs => .obj ((canonicalFields fs).insertionSort fun f g => keyLe f.1.toList g.1.toList)
  | v => v

/-- `canonical` on the elements of an array. -/
def canonicalList : List Json → List Json
  | [] => []
  | x :: xs => canonical x :: canonicalList xs

/-- `canonical` on the values of a dictionary. -/
def canonicalFields : List (String × Json) → List (String × Json)
  | [] => []
  | (k, v) :: fs => (k, canonical v) :: canonicalFields fs

end

/-- Two values with one canonical text. -/
abbrev Same (v w : Json) : Prop := v.canonical = w.canonical

example : Same (.obj [("b", .int 1), ("a", .null)]) (.obj [("a", .null), ("b", .int 1)]) := by
  decide

/-! ## Well-formed values -/

mutual

/-- No dictionary of the value has a key twice. Python's dictionaries never do. -/
def WF : Json → Prop
  | .arr xs => WFList xs
  | .obj fs => (fs.map Prod.fst).Nodup ∧ WFFields fs
  | _ => True

/-- `WF` on the elements of an array. -/
def WFList : List Json → Prop
  | [] => True
  | x :: xs => WF x ∧ WFList xs

/-- `WF` on the values of a dictionary. -/
def WFFields : List (String × Json) → Prop
  | [] => True
  | (_, v) :: fs => WF v ∧ WFFields fs

end

theorem wfList_iff {xs : List Json} : WFList xs ↔ ∀ x ∈ xs, WF x := by
  induction xs with
  | nil => simp [WFList]
  | cons x xs ih => simp [WFList, ih]

theorem wfFields_iff {fs : List (String × Json)} : WFFields fs ↔ ∀ f ∈ fs, WF f.2 := by
  induction fs with
  | nil => simp [WFFields]
  | cons f fs ih => simp only [WFFields, ih, List.mem_cons, forall_eq_or_imp]

theorem lookup_append (k : String) (fs gs : List (String × Json)) :
    lookup k (fs ++ gs) = (lookup k fs).or (lookup k gs) := by
  induction fs with
  | nil => rfl
  | cons f fs ih =>
    obtain ⟨j, w⟩ := f
    rw [List.cons_append, lookup, lookup]
    split_ifs
    · rfl
    · exact ih

/-- A key of a dictionary without doubles has the value it is listed with. -/
theorem lookup_of_mem {fs : List (String × Json)} (h : (fs.map Prod.fst).Nodup) {k : String}
    {v : Json} (hm : (k, v) ∈ fs) : lookup k fs = some v := by
  induction fs with
  | nil => simp at hm
  | cons f fs ih =>
    obtain ⟨j, w⟩ := f
    rw [List.map_cons, List.nodup_cons] at h
    rcases List.mem_cons.mp hm with heq | hm
    · obtain ⟨rfl, rfl⟩ := Prod.mk.inj heq
      simp [lookup]
    · have hk : k ∈ fs.map Prod.fst := List.mem_map_of_mem hm
      have hjk : j ≠ k := fun hjk => h.1 (hjk ▸ hk)
      rw [lookup, if_neg hjk]
      exact ih h.2 hm

end Json

end JenKea
