/-!
# Results that may be errors

A computation in steps ends well just where every step does.
-/

namespace JenKea.Except

variable {ε α β : Type}

theorem bind_eq_ok {x : Except ε α} {f : α → Except ε β} {b : β} :
    (x >>= f) = .ok b ↔ ∃ a, x = .ok a ∧ f a = .ok b := by
  cases x with
  | error e =>
    constructor
    · intro h
      cases h
    · rintro ⟨a, h, -⟩
      cases h
  | ok a =>
    constructor
    · intro h
      exact ⟨a, rfl, h⟩
    · rintro ⟨a', h, h'⟩
      obtain rfl := Except.ok.inj h
      exact h'

theorem map_eq_ok {x : Except ε α} {f : α → β} {b : β} :
    x.map f = .ok b ↔ ∃ a, x = .ok a ∧ f a = b := by
  cases x with
  | error e =>
    constructor
    · intro h
      cases h
    · rintro ⟨a, h, -⟩
      cases h
  | ok a =>
    constructor
    · intro h
      exact ⟨a, rfl, Except.ok.inj h⟩
    · rintro ⟨a', h, rfl⟩
      obtain rfl := Except.ok.inj h
      rfl

/-- What a computation over a list raises, one of its elements does. -/
theorem exists_mem_of_mapM_error {l : List α} {f : α → Except ε β} {e : ε} (h : l.mapM f = .error e) :
    ∃ a ∈ l, f a = .error e := by
  induction l with
  | nil => cases h
  | cons x l ih =>
    rw [List.mapM_cons] at h
    cases hx : f x with
    | error e' =>
      rw [hx] at h
      obtain rfl : e' = e := Except.error.inj h
      exact ⟨x, List.mem_cons_self, hx⟩
    | ok b =>
      rw [hx] at h
      cases hl : l.mapM f with
      | error e' =>
        rw [hl] at h
        obtain rfl : e' = e := Except.error.inj h
        obtain ⟨a, ha, hfa⟩ := ih hl
        exact ⟨a, List.mem_cons_of_mem x ha, hfa⟩
      | ok bs =>
        rw [hl] at h
        cases h

/-- A computation over a list ends well where each of its elements does. -/
theorem exists_mapM_ok {l : List α} {f : α → Except ε β} (h : ∀ a ∈ l, ∃ b, f a = .ok b) :
    ∃ bs, l.mapM f = .ok bs := by
  cases hl : l.mapM f with
  | ok bs => exact ⟨bs, rfl⟩
  | error e =>
    obtain ⟨a, ha, hfa⟩ := exists_mem_of_mapM_error hl
    obtain ⟨b, hb⟩ := h a ha
    rw [hb] at hfa
    cases hfa

/-- A computation over a list raises where one of its elements does. -/
theorem exists_mapM_error {l : List α} {f : α → Except ε β} {a : α} {e : ε} (ha : a ∈ l)
    (h : f a = .error e) : ∃ e', l.mapM f = .error e' := by
  induction l with
  | nil => cases ha
  | cons x l ih =>
    rw [List.mapM_cons]
    cases hx : f x with
    | error e' => exact ⟨e', rfl⟩
    | ok b =>
      have hmem : a ∈ l := by
        rcases List.mem_cons.mp ha with rfl | hmem
        · rw [hx] at h
          cases h
        · exact hmem
      obtain ⟨e', hl⟩ := ih hmem
      rw [hl]
      exact ⟨e', rfl⟩

/-- The lists that a computation gives for the elements of a list, as one. -/
theorem mem_flatten_of_mapM {l : List α} {f : α → Except ε (List β)} {bs : List (List β)} (h : l.mapM f = .ok bs)
    {b : β} : b ∈ bs.flatten ↔ ∃ a ∈ l, ∃ found, f a = .ok found ∧ b ∈ found := by
  induction l generalizing bs with
  | nil =>
    obtain rfl : [] = bs := Except.ok.inj h
    exact iff_of_false List.not_mem_nil fun ⟨a, ha, _⟩ => List.not_mem_nil ha
  | cons x l ih =>
    rw [List.mapM_cons] at h
    obtain ⟨first, hfirst, h⟩ := bind_eq_ok.mp h
    obtain ⟨rest, hrest, h⟩ := bind_eq_ok.mp h
    obtain rfl : first :: rest = bs := Except.ok.inj h
    rw [List.flatten_cons, List.mem_append, ih hrest]
    constructor
    · rintro (hb | ⟨a, ha, found, hfound, hb⟩)
      · exact ⟨x, List.mem_cons_self, first, hfirst, hb⟩
      · exact ⟨a, List.mem_cons_of_mem x ha, found, hfound, hb⟩
    · rintro ⟨a, ha, found, hfound, hb⟩
      rcases List.mem_cons.mp ha with rfl | ha
      · obtain rfl := Except.ok.inj (hfirst.symm.trans hfound)
        exact .inl hb
      · exact .inr ⟨a, ha, found, hfound, hb⟩

/-- What a computation gives for the elements of a list. -/
theorem mem_of_mapM {l : List α} {f : α → Except ε β} {bs : List β} (h : l.mapM f = .ok bs) {b : β} :
    b ∈ bs ↔ ∃ a ∈ l, f a = .ok b := by
  induction l generalizing bs with
  | nil =>
    obtain rfl : [] = bs := Except.ok.inj h
    exact iff_of_false List.not_mem_nil fun ⟨a, ha, _⟩ => List.not_mem_nil ha
  | cons x l ih =>
    rw [List.mapM_cons] at h
    obtain ⟨first, hfirst, h⟩ := bind_eq_ok.mp h
    obtain ⟨rest, hrest, h⟩ := bind_eq_ok.mp h
    obtain rfl : first :: rest = bs := Except.ok.inj h
    rw [List.mem_cons, ih hrest]
    constructor
    · rintro (rfl | ⟨a, ha, hb⟩)
      · exact ⟨x, List.mem_cons_self, hfirst⟩
      · exact ⟨a, List.mem_cons_of_mem x ha, hb⟩
    · rintro ⟨a, ha, hb⟩
      rcases List.mem_cons.mp ha with rfl | ha
      · exact .inl (Except.ok.inj (hb.symm.trans hfirst))
      · exact .inr ⟨a, ha, hb⟩

/-- A computation over a list that ends well does so on each element. -/
theorem exists_of_mapM {l : List α} {f : α → Except ε β} {bs : List β} (h : l.mapM f = .ok bs) {a : α} (ha : a ∈ l) :
    ∃ b, f a = .ok b := by
  cases hf : f a with
  | ok b => exact ⟨b, rfl⟩
  | error e =>
    obtain ⟨e', he'⟩ := exists_mapM_error ha hf
    rw [h] at he'
    cases he'

end JenKea.Except
