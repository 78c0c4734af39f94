import Mathlib.Data.List.Induction

/-!
# Grouping by a key

A list is grouped by keys that count as one where a test says so: an entry goes to the first group whose key the
test holds of, or starts a group. Where the test is an equivalence on the keys, a group holds what has its key,
in the order of the list.
-/

namespace JenKea.Grouping

variable {κ α : Type} (same : κ → κ → Bool)

/-- An entry, into the first group of its key or into a new one. -/
def addTo (k : κ) (a : α) : List (κ × List α) → List (κ × List α)
  | [] => [(k, [a])]
  | e :: groups => if same e.1 k then (e.1, e.2 ++ [a]) :: groups else e :: addTo k a groups

/-- The groups of a list, in the order in which their keys come up. -/
def groups (l : List (κ × α)) : List (κ × List α) := l.foldl (fun g x => addTo same x.1 x.2 g) []

/-- The test is an equivalence on the keys of a list. -/
structure Keys (l : List (κ × α)) : Prop where
  refl : ∀ x ∈ l, same x.1 x.1 = true
  symm : ∀ x ∈ l, ∀ y ∈ l, same x.1 y.1 = true → same y.1 x.1 = true
  trans : ∀ i j k, same i j = true → same j k = true → same i k = true

/-- The groups of a list: each has a key of the list and holds what has this key, each key has a group, and no
two groups have one key. -/
structure Grouped (l : List (κ × α)) (g : List (κ × List α)) : Prop where
  keys : ∀ e ∈ g, ∃ x ∈ l, x.1 = e.1
  members : ∀ e ∈ g, e.2 = (l.filter fun x => same e.1 x.1).map Prod.snd
  covered : ∀ x ∈ l, ∃ e ∈ g, same e.1 x.1 = true
  apart : g.Pairwise fun e e' => same e.1 e'.1 = false

variable {same}

theorem Keys.of_append {l r : List (κ × α)} (h : Keys same (l ++ r)) : Keys same l where
  refl x hx := h.refl x (List.mem_append_left r hx)
  symm x hx y hy := h.symm x (List.mem_append_left r hx) y (List.mem_append_left r hy)
  trans := h.trans

section AddTo

variable {k : κ} {a : α} {g : List (κ × List α)}

/-- An entry whose key no group has starts a group. -/
theorem addTo_of_forall (h : ∀ e ∈ g, same e.1 k = false) : addTo same k a g = g ++ [(k, [a])] := by
  induction g with
  | nil => rfl
  | cons e g ih =>
    obtain ⟨he, hg⟩ := List.forall_mem_cons.mp h
    rw [addTo, he, if_neg Bool.false_ne_true, ih hg]
    rfl

/-- An entry goes to the first group that has its key. -/
theorem addTo_of_mem {e : κ × List α} {g₁ g₂ : List (κ × List α)} (h : ∀ e' ∈ g₁, same e'.1 k = false)
    (he : same e.1 k = true) : addTo same k a (g₁ ++ e :: g₂) = g₁ ++ (e.1, e.2 ++ [a]) :: g₂ := by
  induction g₁ with
  | nil => exact if_pos he
  | cons e' g₁ ih =>
    obtain ⟨he', hg₁⟩ := List.forall_mem_cons.mp h
    rw [List.cons_append, addTo, he', if_neg Bool.false_ne_true, ih hg₁]
    rfl

end AddTo

/-- One entry more. -/
theorem Grouped.addTo {l : List (κ × α)} {g : List (κ × List α)} {x : κ × α} (h : Grouped same l g)
    (hkeys : Keys same (l ++ [x])) : Grouped same (l ++ [x]) (addTo same x.1 x.2 g) := by
  have hx : x ∈ l ++ [x] := List.mem_append_right l List.mem_cons_self
  have hl : ∀ {y}, y ∈ l → y ∈ l ++ [x] := fun hy => List.mem_append_left [x] hy
  -- the entries of a key, once the new one is there
  have hfilter : ∀ k, ((l ++ [x]).filter fun y => same k y.1).map Prod.snd =
      (l.filter fun y => same k y.1).map Prod.snd ++ if same k x.1 then [x.2] else [] := by
    intro k
    rw [List.filter_append, List.map_append]
    cases hk : same k x.1 <;> simp [hk]
  cases hfind : g.find? fun e => same e.1 x.1 with
  | none =>
    have hnone : ∀ e ∈ g, same e.1 x.1 = false := fun e he => by
      simpa using List.find?_eq_none.mp hfind e he
    -- the new entry is the only one of its key
    have hnew : (l.filter fun y => same x.1 y.1) = [] := by
      rw [List.filter_eq_nil_iff]
      intro y hy hxy
      obtain ⟨e, he, hey⟩ := h.covered y hy
      have hyx := hkeys.symm x hx y (hl hy) hxy
      have hex := hkeys.trans _ _ _ hey hyx
      rw [hnone e he] at hex
      cases hex
    rw [addTo_of_forall hnone]
    refine ⟨?_, ?_, ?_, ?_⟩
    · rw [List.forall_mem_append, List.forall_mem_singleton]
      refine ⟨fun e he => ?_, x, hx, rfl⟩
      obtain ⟨y, hy, hkey⟩ := h.keys e he
      exact ⟨y, hl hy, hkey⟩
    · rw [List.forall_mem_append, List.forall_mem_singleton]
      refine ⟨fun e he => ?_, ?_⟩
      · rw [hfilter, hnone e he, if_neg Bool.false_ne_true, List.append_nil]
        exact h.members e he
      · rw [hfilter, hkeys.refl x hx, if_pos rfl, hnew]
        rfl
    · rw [List.forall_mem_append, List.forall_mem_singleton]
      refine ⟨fun y hy => ?_, (x.1, [x.2]), List.mem_append_right g List.mem_cons_self, hkeys.refl x hx⟩
      obtain ⟨e, he, hey⟩ := h.covered y hy
      exact ⟨e, List.mem_append_left _ he, hey⟩
    · rw [List.pairwise_append]
      refine ⟨h.apart, List.pairwise_singleton _ _, fun e he e' he' => ?_⟩
      rw [List.mem_singleton.mp he']
      exact hnone e he
  | some e =>
    obtain ⟨hsame, g₁, g₂, rfl, hg₁⟩ := List.find?_eq_some_iff_append.mp hfind
    have hbefore : ∀ e' ∈ g₁, same e'.1 x.1 = false := fun e' he' => by simpa using hg₁ e' he'
    have hmem : e ∈ g₁ ++ e :: g₂ := List.mem_append_right g₁ List.mem_cons_self
    have hapart := List.pairwise_append.mp h.apart
    -- no later group has the key either: the keys of two groups are apart
    have hafter : ∀ e' ∈ g₂, same e'.1 x.1 = false := by
      intro e' he'
      by_contra hsame'
      rw [Bool.not_eq_false] at hsame'
      obtain ⟨y, hy, hkey⟩ := h.keys e' (List.mem_append_right g₁ (List.mem_cons_of_mem e he'))
      have hback : same x.1 e'.1 = true := by
        rw [← hkey] at hsame' ⊢
        exact hkeys.symm y (hl hy) x hx hsame'
      have htwo := (List.pairwise_cons.mp hapart.2.1).1 e' he'
      rw [hkeys.trans _ _ _ hsame hback] at htwo
      cases htwo
    have hold : ∀ e' ∈ g₁ ++ g₂, same e'.1 x.1 = false := by
      rw [List.forall_mem_append]
      exact ⟨hbefore, hafter⟩
    have hold' : ∀ e' ∈ g₁ ++ g₂, e' ∈ g₁ ++ e :: g₂ := by
      intro e' he'
      rw [List.mem_append] at he' ⊢
      exact he'.imp id (List.mem_cons_of_mem e)
    have hparts : ∀ {P : κ × List α → Prop}, P (e.1, e.2 ++ [x.2]) → (∀ e' ∈ g₁ ++ g₂, P e') →
        ∀ e' ∈ g₁ ++ (e.1, e.2 ++ [x.2]) :: g₂, P e' := by
      intro P hone hrest
      rw [List.forall_mem_append, List.forall_mem_cons]
      exact ⟨fun e' he' => hrest e' (List.mem_append_left g₂ he'), hone,
        fun e' he' => hrest e' (List.mem_append_right g₁ he')⟩
    rw [addTo_of_mem hbefore hsame]
    refine ⟨hparts ?_ fun e' he' => ?_, hparts ?_ fun e' he' => ?_, ?_, ?_⟩
    · obtain ⟨y, hy, hkey⟩ := h.keys e hmem
      exact ⟨y, hl hy, hkey⟩
    · obtain ⟨y, hy, hkey⟩ := h.keys e' (hold' e' he')
      exact ⟨y, hl hy, hkey⟩
    · rw [hfilter, hsame, if_pos rfl, ← h.members e hmem]
    · rw [hfilter, hold e' he', if_neg Bool.false_ne_true, List.append_nil]
      exact h.members e' (hold' e' he')
    · rw [List.forall_mem_append, List.forall_mem_singleton]
      refine ⟨fun y hy => ?_, (e.1, e.2 ++ [x.2]), List.mem_append_right g₁ List.mem_cons_self, hsame⟩
      obtain ⟨e', he', hey⟩ := h.covered y hy
      rcases List.mem_append.mp he' with he' | he'
      · exact ⟨e', List.mem_append_left _ he', hey⟩
      · rcases List.mem_cons.mp he' with rfl | he'
        · exact ⟨(e'.1, e'.2 ++ [x.2]), List.mem_append_right g₁ List.mem_cons_self, hey⟩
        · exact ⟨e', List.mem_append_right g₁ (List.mem_cons_of_mem _ he'), hey⟩
    · rw [List.pairwise_append, List.pairwise_cons]
      obtain ⟨hfirst, hsecond, hcross⟩ := hapart
      rw [List.pairwise_cons] at hsecond
      refine ⟨hfirst, ⟨hsecond.1, hsecond.2⟩, fun e' he' => ?_⟩
      rw [List.forall_mem_cons]
      exact ⟨hcross e' he' e List.mem_cons_self,
        fun e'' he'' => hcross e' he' e'' (List.mem_cons_of_mem e he'')⟩

/-- The groups of a list are its groups. -/
theorem grouped {l : List (κ × α)} (hkeys : Keys same l) : Grouped same l (groups same l) := by
  induction l using List.reverseRecOn with
  | nil => exact ⟨nofun, nofun, nofun, List.Pairwise.nil⟩
  | append_singleton l x ih =>
    unfold groups
    rw [List.foldl_append, List.foldl_cons, List.foldl_nil]
    exact (ih hkeys.of_append).addTo hkeys

end JenKea.Grouping
