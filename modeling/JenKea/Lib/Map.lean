import Mathlib.Data.List.Nodup

/-!
# Maps in the order of their keys' arrival

A dictionary that remembers the order in which its keys came: writing to a key that is there changes its
value in place, and writing to another adds an entry at the end. Each key stands once, which is part of
the type.
-/

namespace JenKea

/-- A dictionary. -/
structure Map (κ α : Type) where
  entries : List (κ × α)
  nodup : (entries.map Prod.fst).Nodup

namespace Map

variable {κ α β : Type} [DecidableEq κ] {m : Map κ α} {k j : κ} {v : α}

instance [DecidableEq α] : DecidableEq (Map κ α) := fun m m' =>
  decidable_of_iff (m.entries = m'.entries) (by
    cases m
    cases m'
    simp)

/-- `d.get(k)`. -/
def get (m : Map κ α) (k : κ) : Option α := m.entries.lookup k

/-- The keys, in order. -/
def keys (m : Map κ α) : List κ := m.entries.map Prod.fst

/-- The dictionary without entries. -/
def empty : Map κ α := ⟨[], List.nodup_nil⟩

/-- Entries after a write to a key. -/
def putEntries (k : κ) (v : α) : List (κ × α) → List (κ × α)
  | [] => [(k, v)]
  | (j, w) :: l => if j = k then (k, v) :: l else (j, w) :: putEntries k v l

theorem keys_putEntries (l : List (κ × α)) :
    (putEntries k v l).map Prod.fst =
      if k ∈ l.map Prod.fst then l.map Prod.fst else l.map Prod.fst ++ [k] := by
  induction l with
  | nil => simp [putEntries]
  | cons x l ih =>
    obtain ⟨j, w⟩ := x
    rw [putEntries]
    by_cases hj : j = k
    · simp [hj]
    · have hk : k ≠ j := fun h => hj h.symm
      rw [if_neg hj, List.map_cons, ih]
      by_cases hmem : k ∈ l.map Prod.fst
      · simp [hmem]
      · simp [hmem, hk]

/-- `d[k] = v`. -/
def put (m : Map κ α) (k : κ) (v : α) : Map κ α :=
  ⟨putEntries k v m.entries, by
    rw [keys_putEntries]
    split_ifs with h
    · exact m.nodup
    · rw [← List.concat_eq_append]
      exact m.nodup.concat h⟩

/-- `d.pop(k, None)`. -/
def erase (m : Map κ α) (k : κ) : Map κ α :=
  ⟨m.entries.filter fun x => x.1 ≠ k, m.nodup.sublist (List.filter_sublist.map _)⟩

/-- The values changed, under the same keys. -/
def mapValues (f : α → β) (m : Map κ α) : Map κ β :=
  ⟨m.entries.map fun x => (x.1, f x.2), by
    rw [List.map_map]
    exact m.nodup⟩

/-- The values changed, each by its key. -/
def mapEntries (f : κ → α → β) (m : Map κ α) : Map κ β :=
  ⟨m.entries.map fun x => (x.1, f x.1 x.2), by
    rw [List.map_map]
    exact m.nodup⟩

/-- `for k, v in l: d[k] = v`. -/
def putAll (m : Map κ α) (l : List (κ × α)) : Map κ α := l.foldl (fun m x => m.put x.1 x.2) m

/-- `{k: v for k, v in l}`. -/
def ofList (l : List (κ × α)) : Map κ α := empty.putAll l

@[simp] theorem get_empty : (empty : Map κ α).get k = none := rfl

theorem lookup_cons_ite {x : κ × α} {l : List (κ × α)} :
    (x :: l).lookup k = if k = x.1 then some x.2 else l.lookup k := by
  rw [List.lookup_cons]
  split_ifs with h
  · simp [h]
  · simp [beq_false_of_ne h]

theorem get_put : (m.put j v).get k = if k = j then some v else m.get k := by
  have hlookup : ∀ l : List (κ × α),
      (putEntries j v l).lookup k = if k = j then some v else l.lookup k := by
    intro l
    induction l with
    | nil => rw [putEntries, lookup_cons_ite]
    | cons x l ih =>
      obtain ⟨i, w⟩ := x
      rw [putEntries]
      by_cases hi : i = j
      · rw [if_pos hi, lookup_cons_ite, lookup_cons_ite]
        by_cases hk : k = j
        · rw [if_pos hk, if_pos hk]
        · rw [if_neg hk, if_neg hk, if_neg fun h => hk (h.trans hi)]
      · rw [if_neg hi, lookup_cons_ite, lookup_cons_ite, ih]
        by_cases hk : k = j
        · rw [if_pos hk, if_pos hk, if_neg fun h => hi (h.symm.trans hk)]
        · rw [if_neg hk, if_neg hk]
  exact hlookup m.entries

theorem get_erase : (m.erase j).get k = if k = j then none else m.get k := by
  have hlookup : ∀ l : List (κ × α),
      (l.filter fun x => x.1 ≠ j).lookup k = if k = j then none else l.lookup k := by
    intro l
    induction l with
    | nil => simp
    | cons x l ih =>
      obtain ⟨i, w⟩ := x
      rw [List.filter_cons, lookup_cons_ite]
      by_cases hi : i = j
      · rw [if_neg (by simpa using hi), ih]
        by_cases hk : k = j
        · rw [if_pos hk, if_pos hk]
        · rw [if_neg hk, if_neg hk, if_neg fun h => hk (h.trans hi)]
      · rw [if_pos (by simpa using hi), lookup_cons_ite, ih]
        by_cases hk : k = j
        · rw [if_pos hk, if_neg fun h => hi (h.symm.trans hk), if_pos hk]
        · rw [if_neg hk, if_neg hk]
  exact hlookup m.entries

theorem get_foldl_erase {l : List κ} :
    (l.foldl (fun m j => m.erase j) m).get k = if k ∈ l then none else m.get k := by
  induction l generalizing m with
  | nil => simp
  | cons j l ih =>
    rw [List.foldl_cons, ih, get_erase]
    by_cases hk : k = j
    · simp [hk]
    · simp [hk]

theorem get_mapValues {f : α → β} : (m.mapValues f).get k = (m.get k).map f := by
  have hlookup : ∀ l : List (κ × α),
      (l.map fun x => (x.1, f x.2)).lookup k = (l.lookup k).map f := by
    intro l
    induction l with
    | nil => rfl
    | cons x l ih =>
      rw [List.map_cons, lookup_cons_ite, lookup_cons_ite, ih]
      split_ifs <;> rfl
  exact hlookup m.entries

theorem get_mapEntries {f : κ → α → β} : (m.mapEntries f).get k = (m.get k).map (f k) := by
  have hlookup : ∀ l : List (κ × α),
      (l.map fun x => (x.1, f x.1 x.2)).lookup k = (l.lookup k).map (f k) := by
    intro l
    induction l with
    | nil => rfl
    | cons x l ih =>
      rw [List.map_cons, lookup_cons_ite, lookup_cons_ite, ih]
      split_ifs with hk
      · rw [hk]
        rfl
      · rfl
  exact hlookup m.entries

/-- The entries are what the keys read. -/
theorem mem_entries : (k, v) ∈ m.entries ↔ m.get k = some v := by
  have hlookup : ∀ l : List (κ × α), (l.map Prod.fst).Nodup →
      ((k, v) ∈ l ↔ l.lookup k = some v) := by
    intro l hl
    induction l with
    | nil => simp
    | cons x l ih =>
      obtain ⟨i, w⟩ := x
      obtain ⟨hi, hl⟩ := List.nodup_cons.mp hl
      rw [List.mem_cons, lookup_cons_ite, Prod.mk.injEq]
      by_cases hk : k = i
      · subst hk
        have hnot : (k, v) ∉ l := fun h => hi (List.mem_map.mpr ⟨_, h, rfl⟩)
        rw [if_pos rfl, Option.some.injEq]
        simp [hnot, eq_comm]
      · rw [if_neg hk, ih hl]
        simp [hk]
  exact hlookup m.entries m.nodup

theorem mem_keys : k ∈ m.keys ↔ (m.get k).isSome := by
  rw [keys, List.mem_map, Option.isSome_iff_exists]
  constructor
  · rintro ⟨⟨j, v⟩, hmem, rfl⟩
    exact ⟨v, mem_entries.mp hmem⟩
  · rintro ⟨v, hv⟩
    exact ⟨(k, v), mem_entries.mpr hv, rfl⟩

@[simp] theorem putAll_nil : m.putAll [] = m := rfl

@[simp] theorem putAll_cons {x : κ × α} {l : List (κ × α)} :
    m.putAll (x :: l) = (m.put x.1 x.2).putAll l := rfl

/-- The last entry of a key counts. -/
theorem get_putAll {l : List (κ × α)} :
    (m.putAll l).get k = ((l.filter fun x => x.1 = k).getLast?.map Prod.snd).or (m.get k) := by
  induction l generalizing m with
  | nil => simp
  | cons x l ih =>
    rw [putAll_cons, ih, List.filter_cons, get_put]
    by_cases hk : x.1 = k
    · have hkeep : decide (x.1 = k) = true := decide_eq_true hk
      rw [hkeep, if_pos rfl, if_pos hk.symm, List.getLast?_cons]
      cases h : (l.filter fun x => x.1 = k).getLast? with
      | none => simp
      | some y => simp
    · have hskip : decide (x.1 = k) = false := decide_eq_false hk
      rw [hskip, if_neg fun h => hk h.symm]
      rfl

/-- A key that `l` does not write reads as before. -/
theorem get_putAll_of_notMem {l : List (κ × α)} (h : ∀ x ∈ l, x.1 ≠ k) :
    (m.putAll l).get k = m.get k := by
  have hnone : (l.filter fun x => x.1 = k) = [] := by simpa using h
  rw [get_putAll, hnone]
  rfl

/-- A key that `l` writes one value to reads that value. -/
theorem get_putAll_of_mem {l : List (κ × α)} (hmem : (k, v) ∈ l) (hall : ∀ x ∈ l, x.1 = k → x.2 = v) :
    (m.putAll l).get k = some v := by
  have hfilter : (k, v) ∈ l.filter fun x => x.1 = k := by simp [hmem]
  obtain ⟨y, hy⟩ : ∃ y, (l.filter fun x => x.1 = k).getLast? = some y :=
    ⟨_, List.getLast?_eq_some_getLast (List.ne_nil_of_mem hfilter)⟩
  have hy' : y ∈ l.filter fun x => x.1 = k := List.mem_of_getLast? hy
  rw [get_putAll, hy]
  obtain ⟨hyl, hyk⟩ := List.mem_filter.mp hy'
  simp [hall y hyl (by simpa using hyk)]

omit [DecidableEq κ] in
/-- A dictionary is its entries. -/
theorem eq_of_entries {m m' : Map κ α} (h : m.entries = m'.entries) : m = m' := by
  cases m
  cases m'
  simpa using h

/-- The later of two writes to a key counts. -/
theorem put_put {w : α} : (m.put k v).put k w = m.put k w := by
  have hentries : ∀ l : List (κ × α), putEntries k w (putEntries k v l) = putEntries k w l := by
    intro l
    induction l with
    | nil => simp [putEntries]
    | cons x l ih =>
      obtain ⟨j, u⟩ := x
      by_cases hj : j = k
      · simp [putEntries, hj]
      · simp [putEntries, hj, ih]
  exact eq_of_entries (hentries m.entries)

/-- A write of what is there changes nothing. -/
theorem put_of_get (h : m.get k = some v) : m.put k v = m := by
  have hentries : ∀ l : List (κ × α), l.lookup k = some v → putEntries k v l = l := by
    intro l hl
    induction l with
    | nil => cases hl
    | cons x l ih =>
      obtain ⟨j, u⟩ := x
      rw [lookup_cons_ite] at hl
      rw [putEntries]
      by_cases hj : j = k
      · rw [if_pos hj.symm] at hl
        have hu : u = v := Option.some.inj hl
        rw [if_pos hj, hj, hu]
      · rw [if_neg fun h => hj h.symm] at hl
        rw [if_neg hj, ih hl]
  exact eq_of_entries (hentries m.entries h)

theorem mapValues_put {f : α → β} : (m.put k v).mapValues f = (m.mapValues f).put k (f v) := by
  have hentries : ∀ l : List (κ × α), (putEntries k v l).map (fun x => (x.1, f x.2)) =
      putEntries k (f v) (l.map fun x => (x.1, f x.2)) := by
    intro l
    induction l with
    | nil => rfl
    | cons x l ih =>
      obtain ⟨j, u⟩ := x
      rw [putEntries, List.map_cons, putEntries]
      by_cases hj : j = k
      · rw [if_pos hj, if_pos hj]
        rfl
      · rw [if_neg hj, if_neg hj, ← ih]
        rfl
  exact eq_of_entries (hentries m.entries)

/-- A write to a new key adds an entry at the end. -/
theorem entries_put (h : k ∉ m.keys) : (m.put k v).entries = m.entries ++ [(k, v)] := by
  have hentries : ∀ l : List (κ × α), k ∉ l.map Prod.fst → putEntries k v l = l ++ [(k, v)] := by
    intro l hl
    induction l with
    | nil => rfl
    | cons x l ih =>
      obtain ⟨j, u⟩ := x
      rw [List.map_cons, List.mem_cons, not_or] at hl
      rw [putEntries, if_neg fun hj => hl.1 hj.symm, ih hl.2]
      rfl
  exact hentries m.entries h

/-- Writes to new keys add their entries at the end. -/
theorem entries_putAll {l : List (κ × α)} (hnodup : (l.map Prod.fst).Nodup)
    (h : ∀ x ∈ l, x.1 ∉ m.keys) : (m.putAll l).entries = m.entries ++ l := by
  induction l generalizing m with
  | nil => simp
  | cons x l ih =>
    obtain ⟨hx, hl⟩ := List.nodup_cons.mp hnodup
    have hput := entries_put (v := x.2) (h x List.mem_cons_self)
    have hkeys : ∀ y ∈ l, y.1 ∉ (m.put x.1 x.2).keys := by
      intro y hy
      rw [keys, hput, List.map_append, List.mem_append, not_or]
      have hne : y.1 ≠ x.1 := fun heq => hx (heq ▸ List.mem_map_of_mem hy)
      exact ⟨h y (List.mem_cons_of_mem x hy), by simpa using hne⟩
    rw [putAll_cons, ih hl hkeys, hput, List.append_assoc]
    rfl

/-- A dictionary is made of its entries. -/
theorem ofList_entries : ofList m.entries = m := by
  refine eq_of_entries ?_
  rw [ofList, entries_putAll m.nodup fun _ _ => List.not_mem_nil]
  rfl

/-- Entries whose keys differ are the entries of the dictionary made of them. -/
theorem get_ofList {l : List (κ × α)} (h : (l.map Prod.fst).Nodup) :
    (ofList l).get k = some v ↔ (k, v) ∈ l := by
  have hentries : (ofList l).entries = l := by
    rw [ofList, entries_putAll h fun _ _ => List.not_mem_nil]
    rfl
  rw [← mem_entries, hentries]

/-- A dictionary, written over another. -/
theorem get_putAll_entries {m' : Map κ α} : (m.putAll m'.entries).get k = (m'.get k).or (m.get k) := by
  cases hget : m'.get k with
  | none =>
    have hnot : ∀ x ∈ m'.entries, x.1 ≠ k := by
      rintro ⟨j, w⟩ hx rfl
      rw [mem_entries.mp hx] at hget
      cases hget
    rw [get_putAll_of_notMem hnot]
    rfl
  | some v =>
    refine (get_putAll_of_mem (mem_entries.mpr hget) fun x hx hk => ?_).trans rfl
    obtain ⟨j, w⟩ := x
    obtain rfl : j = k := hk
    exact Option.some.inj ((mem_entries.mp hx).symm.trans hget)

end Map

end JenKea
