import JenKea.Lib.IniRoundTrip

/-!
# Comments before a configuration file

A file is read line by line, so that what stands before its first section is read first: comments and blank lines there
are skipped.
-/

namespace JenKea

namespace Ini

variable {a b cs l : List Char}

theorem universal_append (h : '\r' ∉ a) : universal (a ++ b) = a ++ universal b := by
  induction a with
  | nil => rfl
  | cons c a ih =>
    rw [List.mem_cons, not_or] at h
    have hc : c ≠ '\r' := fun heq => h.1 heq.symm
    rw [List.cons_append, universal.eq_4 c (a ++ b) (fun _ heq _ => hc heq) hc, ih h.2, List.cons_append]

/-- The first line of a file. -/
theorem lines_cons (h : '\n' ∉ a ∧ '\r' ∉ a) : lines (a ++ '\n' :: b) = a :: lines b := by
  have hnewline : universal ('\n' :: b) = '\n' :: universal b :=
    universal.eq_4 '\n' b (fun _ heq _ => absurd heq (by decide)) (by decide)
  have hpieces := List.splitOn_ne_nil '\n' (universal b)
  unfold lines
  dsimp only
  rw [universal_append h.2, hnewline, List.splitOn_append_cons_self_of_not_mem h.1,
    List.getLast?_cons_of_ne_nil hpieces, List.dropLast_cons_of_ne_nil hpieces]
  split_ifs <;> rfl

/-- A line that says nothing before the first section. -/
def Skipped (l : List Char) : Prop := isComment (strip l) = true ∨ strip l = []

theorem readLine_skipped (h : Skipped l) : Reading.start.readLine l = some Reading.start := by
  unfold Reading.readLine
  dsimp only
  by_cases hcomment : isComment (strip l) = true
  · rw [if_pos hcomment]
  · rw [if_neg hcomment, if_pos (h.resolve_left hcomment)]
    rfl

/-- What is skipped before a file leaves it what it is. -/
theorem read_skipped {ls : Lines} (hlines : ∀ l ∈ ls, '\n' ∉ l ∧ '\r' ∉ l) (hskipped : ∀ l ∈ ls, Skipped l)
    (text : String) : read (String.ofList ((ls.flatMap fun l => l ++ ['\n']) ++ text.toList)) = read text := by
  unfold read
  rw [String.toList_ofList]
  induction ls with
  | nil => rfl
  | cons l ls ih =>
    have hcut : ((l :: ls).flatMap fun l => l ++ ['\n']) ++ text.toList =
        l ++ '\n' :: ((ls.flatMap fun l => l ++ ['\n']) ++ text.toList) := by
      rw [List.flatMap_cons, List.append_assoc, List.append_assoc]
      rfl
    rw [hcut, lines_cons (hlines l List.mem_cons_self), List.foldlM_cons,
      readLine_skipped (hskipped l List.mem_cons_self)]
    exact ih (fun l' hl' => hlines l' (List.mem_cons_of_mem l hl')) fun l' hl' => hskipped l' (List.mem_cons_of_mem l hl')

end Ini

end JenKea
