import Mathlib
import JenKea.Compare.DifferenceText

/-!
# Paths without their indexes

A path with its indexes blanked has the segments that it had, but for the indexes. A number is the name of no
secret, so that a path of a secret stays one.
-/

namespace JenKea.Compare

open Json Api

/-! ## Numbers -/

section Numbers

variable {c : Char} {cs : List Char}

theorem not_isUpper_of_isDigit (h : c.isDigit = true) : c.isUpper = false := by
  simp only [Char.isDigit, Char.isUpper, Bool.and_eq_true, decide_eq_true_eq, decide_eq_false_iff_not,
    UInt32.le_iff_toNat_le, ge_iff_le] at h ⊢
  have h57 : '9'.val.toNat = 57 := rfl
  have h65 : 'A'.val.toNat = 65 := rfl
  omega

theorem snakeCase_digits {p : Option Char} (h : ∀ c ∈ cs, c.isDigit = true) : snakeCase p cs = cs := by
  induction cs generalizing p with
  | nil => rfl
  | cons c cs ih =>
    rw [List.forall_mem_cons] at h
    have hcapital : ¬ (c.isUpper = true ∧ p.any (fun p => p.isLower || p.isDigit) = true) := by
      rw [not_isUpper_of_isDigit h.1]
      exact fun hc => absurd hc.1 (by decide)
    rw [snakeCase, if_neg hcapital, ih h.2]

theorem lowerChar_digit (h : c.isDigit = true) : lowerChar c = [c] := by
  have hrange : 48 ≤ c.toNat ∧ c.toNat ≤ 57 := by
    simp only [Char.isDigit, Bool.and_eq_true, decide_eq_true_eq, UInt32.le_iff_toNat_le, ge_iff_le] at h
    exact h
  have hlower : c.toLower = c := by
    unfold Char.toLower
    refine dif_neg fun hupper => ?_
    have hcapital : c.isUpper = true := by
      rw [Char.isUpper]
      exact decide_eq_true hupper
    rw [not_isUpper_of_isDigit h] at hcapital
    cases hcapital
  unfold lowerChar
  rw [if_neg (by omega), if_neg (by omega), hlower]

theorem mem_of_mem_strip {text : String} (h : c ∈ (Text.strip text).toList) : c ∈ text.toList := by
  unfold Text.strip at h
  rw [String.toList_ofList, List.mem_reverse] at h
  have hback := List.mem_reverse.mp ((List.dropWhile_sublist _).mem h)
  exact (List.dropWhile_sublist _).mem hback

/-- Each of the words has a letter. -/
theorem exists_letter : ∀ word ∈ secretWords, ∃ c ∈ word.toList, c.isDigit = false := by
  have hall : (secretWords.all fun word => word.toList.any fun c => !c.isDigit) = true := by decide
  intro word hword
  obtain ⟨c, hc, hdigit⟩ := List.any_eq_true.mp (List.all_eq_true.mp hall word hword)
  exact ⟨c, hc, by simpa using hdigit⟩

/-- A number is the name of no secret. -/
theorem isSecretKey_digits (h : ∀ c ∈ cs, c.isDigit = true) : isSecretKey (String.ofList cs) = false := by
  have hstrip : ∀ c ∈ (Text.strip (String.ofList cs)).toList, c.isDigit = true := by
    intro c hc
    have hmem := mem_of_mem_strip hc
    rw [String.toList_ofList] at hmem
    exact h c hmem
  unfold isSecretKey
  generalize (Text.strip (String.ofList cs)).toList = digits at hstrip
  rw [snakeCase_digits hstrip]
  -- what is looked through is digits alone
  have htext : ∀ c ∈ (digits.flatMap lowerChar).map (fun c => if c = '-' then '_' else c), c.isDigit = true := by
    intro c hc
    obtain ⟨c', hc', rfl⟩ := List.mem_map.mp hc
    obtain ⟨digit, hdigit, hlower⟩ := List.mem_flatMap.mp hc'
    rw [lowerChar_digit (hstrip digit hdigit), List.mem_singleton] at hlower
    subst hlower
    split_ifs with hdash
    · subst hdash
      exact absurd (hstrip _ hdigit) (by decide)
    · exact hstrip _ hdigit
  generalize (digits.flatMap lowerChar).map (fun c => if c = '-' then '_' else c) = text at htext
  show secretWords.any _ = false
  rw [List.any_eq_false]
  intro word hword hfound
  obtain ⟨letter, hletter, hno⟩ := exists_letter word hword
  have hmem : letter ∈ text := by
    rcases Bool.or_eq_true_iff.mp hfound with heq | hsuffix
    · rw [eq_of_beq heq]
      exact hletter
    · exact (List.isSuffixOf_iff_suffix.mp hsuffix).subset (List.mem_cons_of_mem _ hletter)
  rw [htext letter hmem] at hno
  cases hno

end Numbers

/-! ## The segments that are left -/

/-- A piece, and what is left of it: all of it, or nothing of a number. -/
def Left (piece left : List Char) : Prop := left = piece ∨ left = [] ∧ ∀ c ∈ piece, c.isDigit = true

section Segments

variable {cs : List Char}

theorem isSeparator_of_isDigit {c : Char} (h : c.isDigit = true) : isSeparator c = false := by
  have hne : ∀ d : Char, d.isDigit = false → (c == d) = false := by
    intro d hd
    rw [beq_eq_false_iff_ne]
    rintro rfl
    rw [h] at hd
    cases hd
  unfold isSeparator
  rw [hne '.' (by decide), hne '[' (by decide), hne ']' (by decide)]
  rfl

theorem splitOnP_cons_separator {c : Char} (h : isSeparator c = true) :
    (c :: cs).splitOnP isSeparator = [] :: cs.splitOnP isSeparator := by
  rw [List.splitOnP_cons_eq_if_modifyHead, if_pos h]

/-- A text without separators is part of the first piece. -/
theorem splitOnP_append_of_not_separator {xs ys piece : List Char} {pieces : List (List Char)}
    (h : ∀ x ∈ xs, isSeparator x = false) (hys : ys.splitOnP isSeparator = piece :: pieces) :
    (xs ++ ys).splitOnP isSeparator = (xs ++ piece) :: pieces := by
  induction xs with
  | nil => exact hys
  | cons x xs ih =>
    rw [List.forall_mem_cons] at h
    rw [List.cons_append, List.splitOnP_cons_eq_if_modifyHead, h.1, ih h.2]
    rfl

theorem exists_splitOnP (cs : List Char) : ∃ piece pieces, cs.splitOnP isSeparator = piece :: pieces :=
  List.exists_cons_of_ne_nil (List.splitOnP_ne_nil _ _)

theorem left_self (pieces : List (List Char)) : List.Forall₂ Left pieces pieces :=
  List.forall₂_same.mpr fun _ _ => Or.inl rfl

/-- What is left where the text goes on outside of a bracket. -/
def LeftOutside (cs : List Char) : Prop :=
  ∃ piece pieces lefts, cs.splitOnP isSeparator = piece :: pieces ∧
    (blankIndexes none cs).splitOnP isSeparator = piece :: lefts ∧ List.Forall₂ Left pieces lefts

/-- What is left where the text goes on after a bracket and some digits, the last one first. -/
def LeftInside (ds cs : List Char) : Prop :=
  ∃ lefts, (blankIndexes (some ds) cs).splitOnP isSeparator = [] :: lefts ∧
    List.Forall₂ Left ((ds.reverse ++ cs).splitOnP isSeparator) lefts

theorem leftOutside_cons {c : Char} (houtside : LeftOutside cs) (hinside : LeftInside [] cs) :
    LeftOutside (c :: cs) := by
  obtain ⟨piece, pieces, lefts, hcs, hblank, hlefts⟩ := houtside
  by_cases hopen : c = '['
  · subst hopen
    obtain ⟨lefts, hblank, hlefts⟩ := hinside
    exact ⟨[], cs.splitOnP isSeparator, lefts, splitOnP_cons_separator rfl, hblank, hlefts⟩
  · have hstep : blankIndexes none (c :: cs) = c :: blankIndexes none cs := if_neg hopen
    unfold LeftOutside
    rw [hstep]
    cases hc : isSeparator c with
    | true =>
      rw [splitOnP_cons_separator hc, splitOnP_cons_separator hc, hcs, hblank]
      exact ⟨[], _, _, rfl, rfl, .cons (Or.inl rfl) hlefts⟩
    | false =>
      have hxs : ∀ x ∈ [c], isSeparator x = false := fun x hx => by rw [List.mem_singleton.mp hx, hc]
      exact ⟨_, _, _, splitOnP_append_of_not_separator hxs hcs, splitOnP_append_of_not_separator hxs hblank, hlefts⟩

theorem leftInside_cons {c : Char} {ds : List Char} (hds : ∀ d ∈ ds, d.isDigit = true)
    (houtside : LeftOutside cs) (hinside : LeftInside [] cs)
    (hdigit : c.isDigit = true → LeftInside (c :: ds) cs) : LeftInside ds (c :: cs) := by
  obtain ⟨piece, pieces, lefts, hcs, hblank, hlefts⟩ := houtside
  have hreverse : ∀ x ∈ ds.reverse, isSeparator x = false := fun x hx =>
    isSeparator_of_isDigit (hds x (List.mem_reverse.mp hx))
  have hseparated : ∀ {d ys}, isSeparator d = true →
      (ds.reverse ++ d :: ys).splitOnP isSeparator = ds.reverse :: ys.splitOnP isSeparator := by
    intro d ys hd
    rw [List.splitOnP_append_cons _ _ hd, List.splitOnP_eq_singleton hreverse]
    rfl
  by_cases hc : c.isDigit = true
  · obtain ⟨lefts, hblank, hlefts⟩ := hdigit hc
    have hstep : blankIndexes (some ds) (c :: cs) = blankIndexes (some (c :: ds)) cs := if_pos hc
    refine ⟨lefts, by rw [hstep, hblank], ?_⟩
    rw [List.reverse_cons, List.append_assoc] at hlefts
    exact hlefts
  · by_cases hclose : c = ']' ∧ ds ≠ []
    · -- the digits are an index
      have hstep : blankIndexes (some ds) (c :: cs) = '[' :: ']' :: blankIndexes none cs := by
        rw [blankIndexes, if_neg hc, if_pos hclose]
      refine ⟨[] :: piece :: lefts, ?_, ?_⟩
      · rw [hstep, splitOnP_cons_separator rfl, splitOnP_cons_separator rfl, hblank]
      · rw [hclose.1, hseparated rfl, hcs]
        refine .cons (Or.inr ⟨rfl, fun x hx => hds x (List.mem_reverse.mp hx)⟩) (.cons (Or.inl rfl) hlefts)
    · by_cases hopen : c = '['
      · obtain ⟨lefts, hblank, hlefts⟩ := hinside
        have hstep : blankIndexes (some ds) (c :: cs) = '[' :: (ds.reverse ++ blankIndexes (some []) cs) := by
          rw [blankIndexes, if_neg hc, if_neg hclose, if_pos hopen]
          rfl
        refine ⟨ds.reverse :: lefts, ?_, ?_⟩
        · rw [hstep, splitOnP_cons_separator rfl, splitOnP_append_of_not_separator hreverse hblank, List.append_nil]
        · rw [hopen, hseparated rfl]
          exact .cons (Or.inl rfl) hlefts
      · have hstep : blankIndexes (some ds) (c :: cs) = '[' :: (ds.reverse ++ c :: blankIndexes none cs) := by
          rw [blankIndexes, if_neg hc, if_neg hclose, if_neg hopen]
          rfl
        unfold LeftInside
        rw [hstep, splitOnP_cons_separator rfl]
        cases hsep : isSeparator c with
        | true =>
          rw [hseparated hsep, hseparated hsep, hcs, hblank]
          exact ⟨_, rfl, .cons (Or.inl rfl) (.cons (Or.inl rfl) hlefts)⟩
        | false =>
          have hxs : ∀ x ∈ ds.reverse ++ [c], isSeparator x = false := by
            intro x hx
            rcases List.mem_append.mp hx with hx | hx
            · exact hreverse x hx
            · rw [List.mem_singleton.mp hx, hsep]
          have hjoin : ∀ ys : List Char, ds.reverse ++ c :: ys = (ds.reverse ++ [c]) ++ ys := by simp
          rw [hjoin (blankIndexes none cs), hjoin cs, splitOnP_append_of_not_separator hxs hcs, splitOnP_append_of_not_separator hxs hblank]
          exact ⟨_, rfl, .cons (Or.inl rfl) hlefts⟩

/-- Each piece is left, or was a number. -/
theorem left_blankIndexes (cs : List Char) :
    LeftOutside cs ∧ ∀ ds, (∀ d ∈ ds, d.isDigit = true) → LeftInside ds cs := by
  induction cs with
  | nil =>
    refine ⟨⟨[], [], [], rfl, rfl, .nil⟩, fun ds hds => ⟨ds.reverse.splitOnP isSeparator, ?_, ?_⟩⟩
    · exact splitOnP_cons_separator rfl
    · rw [List.append_nil]
      exact left_self _
  | cons c cs ih =>
    obtain ⟨houtside, hinside⟩ := ih
    have hempty : LeftInside [] cs := hinside [] fun d hd => absurd hd List.not_mem_nil
    refine ⟨leftOutside_cons houtside hempty, fun ds hds => ?_⟩
    exact leftInside_cons hds houtside hempty fun hc => hinside _ (List.forall_mem_cons.mpr ⟨hc, hds⟩)

theorem isSecretKey_empty : isSecretKey (String.ofList []) = false :=
  isSecretKey_digits fun c hc => absurd hc List.not_mem_nil

theorem secretPath_iff {path : String} :
    secretPath path = true ↔ ∃ piece ∈ path.toList.splitOnP isSeparator, isSecretKey (String.ofList piece) = true := by
  unfold secretPath segments
  generalize path.toList.splitOnP isSeparator = pieces
  rw [List.any_eq_true]
  constructor
  · rintro ⟨segment, hsegment, hsecret⟩
    obtain ⟨piece, hpiece, rfl⟩ := List.mem_map.mp hsegment
    exact ⟨piece, List.mem_of_mem_filter hpiece, hsecret⟩
  · rintro ⟨piece, hpiece, hsecret⟩
    refine ⟨_, List.mem_map_of_mem (List.mem_filter.mpr ⟨hpiece, ?_⟩), hsecret⟩
    cases piece with
    | nil =>
      rw [isSecretKey_empty] at hsecret
      cases hsecret
    | cons c cs => rfl

/-- What is no number is left. -/
theorem mem_of_left {piece : List Char} {pieces lefts : List (List Char)} (h : List.Forall₂ Left pieces lefts)
    (hpiece : piece ∈ pieces) (hsecret : isSecretKey (String.ofList piece) = true) : piece ∈ lefts := by
  induction h with
  | nil => cases hpiece
  | cons hleft _ ih =>
    rcases List.mem_cons.mp hpiece with rfl | hpiece
    · rcases hleft with rfl | ⟨rfl, hdigits⟩
      · exact List.mem_cons_self
      · rw [isSecretKey_digits hdigits] at hsecret
        cases hsecret
    · exact List.mem_cons_of_mem _ (ih hpiece)

/-- A path of a secret is one without its indexes too. -/
theorem secretPath_blankPath {path : String} (h : secretPath path = true) : secretPath (blankPath path) = true := by
  obtain ⟨piece, hpiece, hsecret⟩ := secretPath_iff.mp h
  obtain ⟨⟨first, pieces, lefts, hcs, hblank, hlefts⟩, -⟩ := left_blankIndexes path.toList
  refine secretPath_iff.mpr ⟨piece, ?_, hsecret⟩
  unfold blankPath
  rw [String.toList_ofList, hblank]
  rw [hcs] at hpiece
  rcases List.mem_cons.mp hpiece with rfl | hpiece
  · exact List.mem_cons_self
  · exact List.mem_cons_of_mem _ (mem_of_left hlefts hpiece hsecret)

end Segments

end JenKea.Compare
