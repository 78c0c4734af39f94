import Mathlib.Data.List.Basic

/-!
# The lines of a stream

A stream is cut at its ends of line: `linesOf` are the lines that have ended, and `tailOf` is what follows the
last of them. A stream may be read in any chunks, where the tail of one is put before the next.
-/

namespace JenKea

variable {α : Type} [DecidableEq α]

/-- The lines of a stream that have ended. -/
def linesOf (newline : α) (stream : List α) : List (List α) := (stream.splitOn newline).dropLast

/-- What follows the last end of line. -/
def tailOf (newline : α) (stream : List α) : List α := (stream.splitOn newline).getLastD []

variable {newline : α} {stream : List α}

theorem splitOn_eq (newline : α) (stream : List α) :
    stream.splitOn newline = linesOf newline stream ++ [tailOf newline stream] := by
  have hne := List.splitOn_ne_nil newline stream
  rw [linesOf, tailOf, List.getLastD_eq_getLast?, List.getLast?_eq_some_getLast hne, Option.getD_some]
  exact (List.dropLast_concat_getLast hne).symm

/-- Lines and a tail that a stream is cut to are its own. -/
theorem of_splitOn_eq {lines : List (List α)} {tail : List α}
    (h : stream.splitOn newline = lines ++ [tail]) :
    linesOf newline stream = lines ∧ tailOf newline stream = tail := by
  rw [linesOf, tailOf, h]
  exact ⟨List.dropLast_concat, by simp⟩

theorem lines_nil : linesOf newline [] = [] ∧ tailOf newline [] = [] :=
  of_splitOn_eq (List.splitOn_nil newline)

/-- A stream is cut where its first part is, and then the rest behind the tail of that. -/
theorem splitOn_append (newline : α) (first rest : List α) :
    (first ++ rest).splitOn newline =
      linesOf newline first ++ (tailOf newline first ++ rest).splitOn newline := by
  induction first with
  | nil =>
    rw [lines_nil.1, lines_nil.2]
    rfl
  | cons a first ih =>
    have hcut := splitOn_eq newline first
    rw [List.cons_append, List.splitOn_cons_eq_if_modifyHead]
    by_cases ha : a == newline
    · have hfirst : (a :: first).splitOn newline =
          ([] :: linesOf newline first) ++ [tailOf newline first] := by
        rw [List.splitOn_cons_eq_if_modifyHead, if_pos ha, hcut]
        rfl
      obtain ⟨hlines, htail⟩ := of_splitOn_eq hfirst
      rw [if_pos ha, hlines, htail, ih]
      rfl
    · rw [if_neg ha, ih]
      -- the first line of the rest is longer by one, be it the tail
      cases hlines : linesOf newline first with
      | nil =>
        have hfirst : (a :: first).splitOn newline = [] ++ [a :: tailOf newline first] := by
          rw [List.splitOn_cons_eq_if_modifyHead, if_neg ha, hcut, hlines]
          rfl
        obtain ⟨hlines', htail⟩ := of_splitOn_eq hfirst
        rw [hlines', htail, List.nil_append, List.nil_append, List.cons_append,
          List.splitOn_cons_eq_if_modifyHead, if_neg ha]
      | cons line lines =>
        have hfirst : (a :: first).splitOn newline = ((a :: line) :: lines) ++ [tailOf newline first] := by
          rw [List.splitOn_cons_eq_if_modifyHead, if_neg ha, hcut, hlines]
          rfl
        obtain ⟨hlines', htail⟩ := of_splitOn_eq hfirst
        rw [hlines', htail]
        rfl

/-- The lines of a stream that is read in two chunks. -/
theorem lines_append (newline : α) (first rest : List α) :
    linesOf newline (first ++ rest) =
        linesOf newline first ++ linesOf newline (tailOf newline first ++ rest) ∧
      tailOf newline (first ++ rest) = tailOf newline (tailOf newline first ++ rest) := by
  refine of_splitOn_eq ?_
  rw [splitOn_append, splitOn_eq newline (tailOf newline first ++ rest), List.append_assoc]

/-- A tail has no line of its own. -/
theorem lines_tailOf (newline : α) (stream : List α) :
    linesOf newline (tailOf newline stream) = [] ∧
      tailOf newline (tailOf newline stream) = tailOf newline stream := by
  have h := lines_append newline stream []
  rw [List.append_nil, List.append_nil] at h
  exact ⟨by simpa using h.1.symm, h.2.symm⟩

end JenKea
