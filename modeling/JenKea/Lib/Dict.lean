import JenKea.Lib.Json

/-!
# Dictionaries, as Python changes them

The operations of a Python dictionary on the entries of a `Json.obj`: `d[k] = v` writes over the
entry in its place, or adds one at the end, and `pop` takes it out. What a program puts back after
them is the dictionary it was, the order of its entries included.
-/

namespace JenKea.Json

/-- The entries of a dictionary. -/
abbrev Fields := List (String × Json)

/-- `d[k] = v`. -/
def set (k : String) (v : Json) : Fields → Fields
  | [] => [(k, v)]
  | (j, w) :: fs => if j = k then (k, v) :: fs else (j, w) :: set k v fs

/-- `d.pop(k, None)`. -/
def pop (k : String) (fs : Fields) : Fields := fs.filter fun f => f.1 != k

/-- `d.get(k)`: `None` where the key is not there. -/
def valueOf (k : String) (fs : Fields) : Json := (lookup k fs).getD .null

/-- The keys of the dictionary are the ones listed, in any order: `set(d) == {...}`. -/
def keysAre (names : List String) (fs : Fields) : Bool :=
  fs.length == names.length && names.all fun k => (lookup k fs).isSome

variable {k j : String} {v w : Json} {fs : Fields}

@[simp] theorem lookup_nil : lookup k [] = none := rfl

@[simp] theorem lookup_cons :
    lookup k ((j, v) :: fs) = if j = k then some v else lookup k fs := rfl

theorem set_nil : set k v [] = [(k, v)] := rfl

theorem set_cons : set k v ((j, w) :: fs) = if j = k then (k, v) :: fs else (j, w) :: set k v fs := rfl

theorem pop_nil : pop k [] = [] := rfl

theorem pop_cons_self : pop k ((k, v) :: fs) = pop k fs :=
  List.filter_cons_of_neg (by simp)

theorem pop_cons_ne (h : j ≠ k) : pop k ((j, v) :: fs) = (j, v) :: pop k fs :=
  List.filter_cons_of_pos (by simp [h])

@[simp] theorem lookup_set_self : lookup k (set k v fs) = some v := by
  induction fs with
  | nil => simp [set_nil]
  | cons f fs ih =>
    obtain ⟨j, w⟩ := f
    rw [set_cons]
    split_ifs with h
    · simp
    · simp [h, ih]

theorem lookup_set_ne (h : j ≠ k) : lookup k (set j v fs) = lookup k fs := by
  induction fs with
  | nil => simp [set_nil, h]
  | cons f fs ih =>
    obtain ⟨i, w⟩ := f
    rw [set_cons]
    split_ifs with hi
    · subst hi
      simp [h]
    · simp [ih]

theorem lookup_set : lookup k (set j v fs) = if j = k then some v else lookup k fs := by
  split_ifs with h
  · rw [h, lookup_set_self]
  · exact lookup_set_ne h

theorem lookup_pop : lookup k (pop j fs) = if j = k then none else lookup k fs := by
  induction fs with
  | nil => simp [pop_nil]
  | cons f fs ih =>
    obtain ⟨i, w⟩ := f
    by_cases hi : i = j
    · subst hi
      rw [pop_cons_self, ih, lookup_cons]
      split_ifs <;> rfl
    · rw [pop_cons_ne hi, lookup_cons, lookup_cons, ih]
      by_cases hjk : j = k
      · subst hjk
        simp [hi]
      · simp [hjk]

/-- A key that has a value is written over in place. -/
theorem set_set : set k v (set k w fs) = set k v fs := by
  induction fs with
  | nil => simp [set_nil, set_cons]
  | cons f fs ih =>
    obtain ⟨j, u⟩ := f
    by_cases h : j = k <;> simp [set_cons, h, ih]

/-- The value that a key has is written over with itself. -/
theorem set_lookup (h : lookup k fs = some v) : set k v fs = fs := by
  induction fs with
  | nil => simp at h
  | cons f fs ih =>
    obtain ⟨j, u⟩ := f
    rw [lookup_cons] at h
    rw [set_cons]
    split_ifs at h ⊢ with hj
    · rw [Option.some.inj h, hj]
    · rw [ih h]

/-- A key that had no value is at the end. -/
theorem set_of_lookup_none (h : lookup k fs = none) : set k v fs = fs ++ [(k, v)] := by
  induction fs with
  | nil => rfl
  | cons f fs ih =>
    obtain ⟨j, u⟩ := f
    rw [lookup_cons] at h
    split_ifs at h with hj
    rw [set_cons, if_neg hj, ih h, List.cons_append]

theorem pop_of_lookup_none (h : lookup k fs = none) : pop k fs = fs := by
  induction fs with
  | nil => rfl
  | cons f fs ih =>
    obtain ⟨j, u⟩ := f
    rw [lookup_cons] at h
    split_ifs at h with hj
    rw [pop_cons_ne hj, ih h]

theorem pop_append (gs : Fields) : pop k (fs ++ gs) = pop k fs ++ pop k gs :=
  List.filter_append _ _

/-- What was added is taken out again. -/
theorem pop_set (h : lookup k fs = none) : pop k (set k v fs) = fs := by
  rw [set_of_lookup_none h, pop_append, pop_of_lookup_none h, pop_cons_self, pop_nil, List.append_nil]

/-- What was written is taken out as what was there before is. -/
theorem pop_set_self : pop k (set k v fs) = pop k fs := by
  induction fs with
  | nil => rw [set_nil, pop_cons_self]
  | cons f fs ih =>
    obtain ⟨j, u⟩ := f
    rw [set_cons]
    split_ifs with h
    · rw [h, pop_cons_self, pop_cons_self]
    · rw [pop_cons_ne h, pop_cons_ne h, ih]

/-- Two keys that are both there are written in either order. -/
theorem set_comm (h : j ≠ k) (hj : (lookup j fs).isSome) :
    set j v (set k w fs) = set k w (set j v fs) := by
  induction fs with
  | nil => simp at hj
  | cons f fs ih =>
    obtain ⟨i, u⟩ := f
    by_cases hi : i = j
    · subst hi
      simp [set_cons, h]
    · rw [lookup_cons, if_neg hi] at hj
      by_cases hik : i = k
      · subst hik
        simp [set_cons, hi]
      · simp [set_cons, hi, hik, ih hj]

/-- A key is taken out, or another one is written, in either order. -/
theorem pop_set_ne (h : j ≠ k) : pop k (set j v fs) = set j v (pop k fs) := by
  induction fs with
  | nil => rw [set_nil, pop_cons_ne h, pop_nil, set_nil]
  | cons f fs ih =>
    obtain ⟨i, u⟩ := f
    by_cases hi : i = j
    · subst hi
      rw [set_cons, if_pos rfl, pop_cons_ne h, pop_cons_ne h, set_cons, if_pos rfl]
    · by_cases hik : i = k
      · subst hik
        rw [set_cons, if_neg hi, pop_cons_self, pop_cons_self, ih]
      · rw [set_cons, if_neg hi, pop_cons_ne hik, pop_cons_ne hik, set_cons, if_neg hi, ih]

end JenKea.Json
