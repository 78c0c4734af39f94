import Mathlib
import JenKea.Lib.Interval

/-!
# Merging ranges

Ranges in ascending order become separated ones: a range that overlaps the one before it, or touches it, is
merged into it. `merge_spec` says that this adds and loses no number, and `sum_size` that the sizes of separated
ranges add up to the numbers that they hold.
-/

namespace JenKea.Interval

/-- One range of the sorted list, onto the ranges that are merged so far, the newest first. -/
def mergeStep (merged : List Range) (r : Range) : List Range :=
  match merged with
  | [] => [r]
  | last :: earlier =>
    if r.1 ≤ last.2 + 1 then (last.1, max last.2 r.2) :: earlier else r :: last :: earlier

/-- Ranges in ascending order, merged. -/
def merge (ranges : List Range) : List Range := (ranges.foldl mergeStep []).reverse

/-- Ranges merged so far, the newest first: none is empty, each has a gap to the one before it, and
none starts above `bound`, where the next range may start. -/
structure Merging (merged : List Range) (bound : ℤ) : Prop where
  proper : ∀ r ∈ merged, Proper r
  apart : merged.Pairwise fun r r' => r'.2 + 1 < r.1
  below : ∀ r ∈ merged.head?, r.1 ≤ bound

section Merge

variable {merged : List Range} {bound : ℤ} {r : Range}

/-- Nothing is merged at first. -/
theorem Merging.nil (bound : ℤ) : Merging [] bound := ⟨by simp, by simp, by simp⟩

theorem Merging.mono (h : Merging merged bound) {bound' : ℤ} (hle : bound ≤ bound') :
    Merging merged bound' :=
  ⟨h.proper, h.apart, fun r hr => (h.below r hr).trans hle⟩

/-- A range that starts no lower than the newest is merged into it or put before it. -/
theorem Merging.step (h : Merging merged r.1) (hr : Proper r) :
    Merging (mergeStep merged r) r.1 := by
  cases merged with
  | nil => exact ⟨by simpa [mergeStep] using hr, by simp [mergeStep], by simp [mergeStep]⟩
  | cons last earlier =>
    have hproper := List.forall_mem_cons.mp h.proper
    have hapart := List.pairwise_cons.mp h.apart
    have hbelow : last.1 ≤ r.1 := h.below last rfl
    have hlast : last.1 ≤ last.2 := hproper.1
    rw [mergeStep]
    split_ifs with htouch
    · refine ⟨List.forall_mem_cons.mpr ⟨?_, hproper.2⟩, List.pairwise_cons.mpr hapart, ?_⟩
      · show last.1 ≤ max last.2 r.2
        omega
      · simpa using hbelow
    · refine ⟨List.forall_mem_cons.mpr ⟨hr, h.proper⟩, List.pairwise_cons.mpr ⟨?_, h.apart⟩, ?_⟩
      · rw [List.forall_mem_cons]
        refine ⟨by omega, fun r' hr' => ?_⟩
        have hgap := hapart.1 r' hr'
        omega
      · simp

/-- Merging a range adds the addresses of the range and no others. -/
theorem Merging.exists_mem_step (h : Merging merged r.1) (hr : Proper r) (x : ℤ) :
    (∃ a ∈ mergeStep merged r, Holds a x x) ↔ Holds r x x ∨ ∃ a ∈ merged, Holds a x x := by
  cases merged with
  | nil => simp [mergeStep]
  | cons last earlier =>
    have hbelow : last.1 ≤ r.1 := h.below last rfl
    have hlast : last.1 ≤ last.2 := h.proper last (by simp)
    have hrle : r.1 ≤ r.2 := hr
    rw [mergeStep]
    split_ifs with htouch
    · -- the range starts within the newest or right above it, so the two leave no gap
      have hunion : Holds (last.1, max last.2 r.2) x x ↔ Holds r x x ∨ Holds last x x := by
        unfold Holds
        dsimp only
        omega
      rw [List.exists_mem_cons_iff, List.exists_mem_cons_iff, hunion, or_assoc]
    · rw [List.exists_mem_cons_iff]

/-- Ranges in ascending order are merged without losing or adding an address. -/
theorem Merging.foldl {ranges : List Range} (hproper : ∀ r ∈ ranges, Proper r)
    (hsorted : ranges.Pairwise fun r r' => r.1 ≤ r'.1) (h : Merging merged bound)
    (hbound : ∀ r ∈ ranges, bound ≤ r.1) :
    (∃ bound', Merging (ranges.foldl mergeStep merged) bound') ∧
      ∀ x, (∃ a ∈ ranges.foldl mergeStep merged, Holds a x x) ↔
        (∃ a ∈ merged, Holds a x x) ∨ ∃ a ∈ ranges, Holds a x x := by
  induction ranges generalizing merged bound with
  | nil => exact ⟨⟨bound, h⟩, by simp⟩
  | cons r ranges ih =>
    rw [List.forall_mem_cons] at hproper hbound
    obtain ⟨hfirst, hsorted⟩ := List.pairwise_cons.mp hsorted
    have hnow := h.mono hbound.1
    obtain ⟨hmerging, hunion⟩ := ih hproper.2 hsorted (hnow.step hproper.1) hfirst
    refine ⟨hmerging, fun x => ?_⟩
    rw [List.foldl_cons, hunion x, hnow.exists_mem_step hproper.1, List.exists_mem_cons_iff,
      or_assoc, or_left_comm]

/-- Ranges in ascending order become separated ones, which hold the same numbers. -/
theorem merge_spec {ranges : List Range} (hproper : ∀ r ∈ ranges, Proper r)
    (hsorted : ranges.Pairwise fun r r' => r.1 ≤ r'.1) :
    Separated (merge ranges) ∧
      ∀ x, (∃ r ∈ merge ranges, Holds r x x) ↔ ∃ r ∈ ranges, Holds r x x := by
  -- nothing is merged at first, so the first range may start anywhere
  obtain ⟨bound, hbound⟩ : ∃ bound : ℤ, ∀ r ∈ ranges, bound ≤ r.1 := by
    cases ranges with
    | nil => exact ⟨0, by simp⟩
    | cons r rest =>
      have hfirst := (List.pairwise_cons.mp hsorted).1
      exact ⟨r.1, List.forall_mem_cons.mpr ⟨le_rfl, hfirst⟩⟩
  obtain ⟨⟨bound', hmerging⟩, hunion⟩ :=
    Merging.foldl hproper hsorted (Merging.nil bound) hbound
  constructor
  · constructor
    · intro r hr
      exact hmerging.proper r (List.mem_reverse.mp hr)
    · show List.Pairwise _ (List.reverse _)
      rw [List.pairwise_reverse]
      exact hmerging.apart
  · intro x
    have hx := hunion x
    simp only [List.not_mem_nil, false_and, exists_false, false_or] at hx
    simp only [merge, List.mem_reverse]
    exact hx

end Merge

/-! ## How many numbers ranges hold -/

/-- How many numbers a range holds. -/
def size (r : Range) : ℤ := r.2 - r.1 + 1

/-- The numbers of the ranges. -/
def numbers (l : List Range) : Set ℤ := {x | ∃ r ∈ l, Holds r x x}

section Size

variable {l : List Range} {a r : Range}

theorem numbers_cons : numbers (a :: l) = Set.Icc a.1 a.2 ∪ numbers l := by
  ext x
  simp only [numbers, Set.mem_ofPred_eq, List.exists_mem_cons_iff, Set.mem_union, Set.mem_Icc]
  rfl

theorem finite_numbers (l : List Range) : (numbers l).Finite := by
  induction l with
  | nil => simp [numbers]
  | cons a l ih =>
    rw [numbers_cons]
    exact (Set.finite_Icc a.1 a.2).union ih

theorem ncard_Icc (h : Proper r) : ((Set.Icc r.1 r.2).ncard : ℤ) = size r := by
  have hle : r.1 ≤ r.2 := h
  have hcard : (Set.Icc r.1 r.2).ncard = (Finset.Icc r.1 r.2).card := by
    rw [← Set.ncard_coe_finset, Finset.coe_Icc]
  rw [hcard, Int.card_Icc]
  unfold size
  omega

/-- The first of separated ranges has no number of the others. -/
theorem Separated.disjoint (h : Separated (a :: l)) : ∀ x ∈ Set.Icc a.1 a.2, x ∉ numbers l := by
  rintro x ⟨-, hx⟩ ⟨r, hr, hbelow, -⟩
  have hgap : a.2 + 1 < r.1 := List.rel_of_pairwise_cons h.apart hr
  have hlow : r.1 ≤ x := hbelow
  omega

/-- The sizes of separated ranges add up to the numbers that they hold. -/
theorem sum_size (h : Separated l) : (l.map size).sum = ((numbers l).ncard : ℤ) := by
  induction l with
  | nil => simp [numbers]
  | cons a l ih =>
    have hunion : (numbers (a :: l)).ncard = (Set.Icc a.1 a.2).ncard + (numbers l).ncard := by
      rw [numbers_cons]
      exact Set.ncard_union_eq (Set.disjoint_left.mpr h.disjoint) (Set.finite_Icc a.1 a.2) (finite_numbers l)
    calc ((a :: l).map size).sum = size a + (l.map size).sum := List.sum_cons
      _ = ((Set.Icc a.1 a.2).ncard : ℤ) + ((numbers l).ncard : ℤ) := by
        rw [ncard_Icc (h.proper a List.mem_cons_self), ih h.tail]
      _ = ((numbers (a :: l)).ncard : ℤ) := by rw [hunion, Nat.cast_add]

end Size

end JenKea.Interval
