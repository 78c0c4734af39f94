import Mathlib.Data.List.Count
import JenKea.Lib.Map

/-!
# Entries that a later one hides

Entries with keys, written into a dictionary one after the other: the last entry of a key is shown, and hides the
earlier ones. Two lists hold alike entries where each entry stands in both as often, its value taken up to an
equality. The dictionaries of two lists tell whether what they show is alike, and nothing of what is hidden.
-/

namespace JenKea.Overwritten

variable {κ α : Type} [DecidableEq κ]

/-- The last entry of each key. -/
def shown : List (κ × α) → List (κ × α)
  | [] => []
  | x :: l => if l.any fun y => y.1 = x.1 then shown l else x :: shown l

/-- The entries of which a later one has the key. -/
def hidden : List (κ × α) → List (κ × α)
  | [] => []
  | x :: l => if l.any fun y => y.1 = x.1 then x :: hidden l else hidden l

variable (same : α → α → Bool)

/-- How often an entry stands in a list. -/
def occurrences (e : κ × α) (l : List (κ × α)) : ℕ := l.countP fun x => x.1 = e.1 && same e.2 x.2

/-- Each entry stands in both lists as often. -/
def Alike (l l' : List (κ × α)) : Prop := ∀ e, occurrences same e l = occurrences same e l'

/-- What a dictionary has at a key equals what another has there. -/
def sameValue : Option α → Option α → Bool
  | some a, some b => same a b
  | none, none => true
  | _, _ => false

/-- An equality on the values that `P` holds of. -/
structure Equality (P : α → Prop) : Prop where
  refl : ∀ a, P a → same a a = true
  symm : ∀ a b, P a → P b → same a b = true → same b a = true
  trans : ∀ a b c, same a b = true → same b c = true → same a c = true

variable {same} {l l' : List (κ × α)} {e x : κ × α} {k : κ} {v : α}

/-! ## What the dictionary has -/

theorem get_ofList_cons :
    (Map.ofList (x :: l)).get k = ((Map.ofList l).get k).or (if k = x.1 then some x.2 else none) := by
  show ((Map.empty.put x.1 x.2).putAll l).get k = (Map.get (Map.empty.putAll l) k).or _
  rw [Map.get_putAll, Map.get_putAll, Map.get_put, Map.get_empty, Option.or_none]

theorem get_ofList_append :
    (Map.ofList (l ++ l')).get k = ((Map.ofList l').get k).or ((Map.ofList l).get k) := by
  induction l with
  | nil => exact Option.or_none.symm
  | cons x l ih => rw [List.cons_append, get_ofList_cons, get_ofList_cons, ih, Option.or_assoc]

theorem isSome_get_ofList : ((Map.ofList l).get k).isSome = l.any fun y => y.1 = k := by
  induction l with
  | nil => rfl
  | cons x l ih =>
    rw [get_ofList_cons, Option.isSome_or, ih, List.any_cons, Bool.or_comm]
    by_cases hk : k = x.1
    · simp [hk]
    · have hne : x.1 ≠ k := fun h => hk h.symm
      simp [hk, hne]

theorem mem_of_get_ofList (h : (Map.ofList l).get k = some v) : (k, v) ∈ l := by
  induction l with
  | nil => cases h
  | cons x l ih =>
    rw [get_ofList_cons] at h
    rcases Option.or_eq_some_iff.mp h with h | ⟨_, h⟩
    · exact List.mem_cons_of_mem x (ih h)
    · split_ifs at h with hk
      rw [hk, ← Option.some.inj h]
      exact List.mem_cons_self

/-! ## Counting -/

theorem occurrences_cons :
    occurrences same e (x :: l) = occurrences same e l + if x.1 = e.1 && same e.2 x.2 then 1 else 0 :=
  List.countP_cons

/-- An entry is shown or hidden. -/
theorem occurrences_split :
    occurrences same e l = occurrences same e (shown l) + occurrences same e (hidden l) := by
  induction l with
  | nil => rfl
  | cons x l ih =>
    rw [shown, hidden]
    split_ifs with hlater
    · rw [occurrences_cons, occurrences_cons, ih]
      omega
    · rw [occurrences_cons, occurrences_cons, ih]
      omega

/-- What is shown is once what the dictionary has. -/
theorem occurrences_shown :
    occurrences same e (shown l) = if ((Map.ofList l).get e.1).any (same e.2) then 1 else 0 := by
  induction l with
  | nil => rfl
  | cons x l ih =>
    have hsome : ((Map.ofList l).get x.1).isSome = l.any fun y => y.1 = x.1 := isSome_get_ofList
    rw [shown, get_ofList_cons]
    by_cases hkey : e.1 = x.1
    · rw [hkey] at ih
      rw [hkey, if_pos rfl]
      by_cases hlater : (l.any fun y => y.1 = x.1) = true
      · -- the later entry hides this one, in the dictionary too
        rw [hlater, Option.isSome_iff_exists] at hsome
        obtain ⟨w, hw⟩ := hsome
        rw [if_pos hlater, ih, hw, Option.some_or]
      · have hnone : (Map.ofList l).get x.1 = none := by
          rw [← Option.not_isSome_iff_eq_none, hsome]
          exact hlater
        rw [if_neg hlater, occurrences_cons, ih, hnone, hkey]
        simp
    · have hne : x.1 ≠ e.1 := fun h => hkey h.symm
      rw [if_neg hkey, Option.or_none, ← ih]
      by_cases hlater : (l.any fun y => y.1 = x.1) = true
      · rw [if_pos hlater]
      · rw [if_neg hlater, occurrences_cons]
        simp [hne]

/-! ## Alike lists -/

theorem alike_refl (l : List (κ × α)) : Alike same l l := fun _ => rfl

/-- Where what is shown is alike, the lists are alike just where what is hidden is. -/
theorem alike_iff_hidden (h : Alike same (shown l) (shown l')) :
    Alike same l l' ↔ Alike same (hidden l) (hidden l') := by
  refine forall_congr' fun e => ?_
  have hshown := h e
  have hl : occurrences same e l = _ := occurrences_split
  have hl' : occurrences same e l' = _ := occurrences_split
  omega

/-- The dictionaries tell whether what is shown is alike. -/
theorem alike_shown_iff {P : α → Prop} (heq : Equality same P) (hl : ∀ x ∈ l, P x.2) (hl' : ∀ x ∈ l', P x.2) :
    Alike same (shown l) (shown l') ↔
      ∀ k, sameValue same ((Map.ofList l).get k) ((Map.ofList l').get k) = true := by
  have hboth : ∀ e : κ × α, occurrences same e (shown l) = occurrences same e (shown l') ↔
      (((Map.ofList l).get e.1).any (same e.2) = ((Map.ofList l').get e.1).any (same e.2)) := by
    intro e
    rw [occurrences_shown, occurrences_shown]
    cases ((Map.ofList l).get e.1).any (same e.2) <;> cases ((Map.ofList l').get e.1).any (same e.2) <;> simp
  constructor
  · intro h k
    have hany := fun v => (hboth (k, v)).mp (h (k, v))
    cases hv : (Map.ofList l).get k with
    | none =>
      cases hw : (Map.ofList l').get k with
      | none => rfl
      | some w =>
        have hw' := hany w
        rw [hv, hw] at hw'
        have hself := heq.refl w (hl' _ (mem_of_get_ofList hw))
        exact absurd (hw'.trans hself) Bool.false_ne_true
    | some v =>
      have hv' := hany v
      rw [hv] at hv'
      have hself := heq.refl v (hl _ (mem_of_get_ofList hv))
      cases hw : (Map.ofList l').get k with
      | none =>
        rw [hw] at hv'
        exact absurd (hv'.symm.trans hself) Bool.false_ne_true
      | some w =>
        rw [hw] at hv'
        exact hv'.symm.trans hself
  · intro h e
    rw [hboth]
    have hk := h e.1
    cases hv : (Map.ofList l).get e.1 with
    | none =>
      cases hw : (Map.ofList l').get e.1 with
      | none => rfl
      | some w =>
        rw [hv, hw] at hk
        cases hk
    | some v =>
      cases hw : (Map.ofList l').get e.1 with
      | none =>
        rw [hv, hw] at hk
        cases hk
      | some w =>
        rw [hv, hw] at hk
        have hk' := heq.symm v w (hl _ (mem_of_get_ofList hv)) (hl' _ (mem_of_get_ofList hw)) hk
        exact Bool.eq_iff_iff.mpr ⟨fun hev => heq.trans _ _ _ hev hk, fun hew => heq.trans _ _ _ hew hk'⟩

end JenKea.Overwritten
