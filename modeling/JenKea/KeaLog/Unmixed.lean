import JenKea.KeaLog.Transactions
import Mathlib.Logic.Relation
import Mathlib.Data.List.Induction
import Mathlib.Data.List.TakeWhile

/-!
# The log of one client, and nobody else's

The scan of `transactions` gathers evidence: the headers of the client, each packet dump with its rows. What it makes of
the lines is made of the evidence alone, so that lines of other clients, wherever they stand between, change nothing.
The evidence falls into exchanges, each of one transaction id, by the gaps between its times.
-/

namespace JenKea.KeaLog.Inputs

/-- The evidence that the lines have of a client. -/
def evidence (needle : String) : List Line → List Evidence
  | [] => []
  | l :: ls =>
    match ownOf needle l with
    | none => evidence needle ls
    | some e =>
      if e.header.id = queryData then
        { e with dump := some (ls.takeWhile isRow) } :: evidence needle (ls.dropWhile isRow)
      else e :: evidence needle ls
termination_by ls => ls.length
decreasing_by
  all_goals
    have := (List.dropWhile_sublist (l := ls) isRow).length_le
    simp only [List.length_cons]
    omega

section Evidence

variable {needle : String} {l : Line} {ls a b chunk rows : List Line} {e : Evidence} {w : Walk}

theorem evidence_skip (h : ownOf needle l = none) : evidence needle (l :: ls) = evidence needle ls := by
  rw [evidence, h]

theorem evidence_header (h : ownOf needle l = some e) (hid : e.header.id ≠ queryData) :
    evidence needle (l :: ls) = e :: evidence needle ls := by
  rw [evidence, h]
  exact if_neg hid

theorem evidence_dump (h : ownOf needle l = some e) (hid : e.header.id = queryData) : evidence needle (l :: ls) =
    { e with dump := some (ls.takeWhile isRow) } :: evidence needle (ls.dropWhile isRow) := by
  rw [evidence, h]
  exact if_pos hid

/-- The scan is a walk over the evidence. -/
theorem scan_eq : scan needle w ls = (evidence needle ls).foldl Walk.add w := by
  induction hlen : ls.length using Nat.strong_induction_on generalizing ls w with
  | _ n ih =>
    cases ls with
    | nil =>
      rw [scan, evidence]
      rfl
    | cons l ls =>
      have hrest : (ls.dropWhile isRow).length ≤ ls.length := (List.dropWhile_sublist isRow).length_le
      rw [List.length_cons] at hlen
      rw [scan]
      cases hown : ownOf needle l with
      | none =>
        dsimp only
        rw [ih ls.length (by omega) rfl, evidence_skip hown]
      | some e =>
        dsimp only
        by_cases hid : e.header.id = queryData
        · rw [if_pos hid, ih _ (by omega) rfl, evidence_dump hown hid, List.foldl_cons]
        · rw [if_neg hid, ih ls.length (by omega) rfl, evidence_header hown hid, List.foldl_cons]

/-! ## Lines of others -/

theorem ownOf_of_isRow (h : isRow l = true) : ownOf needle l = none := by
  unfold ownOf
  rw [Option.isNone_iff_eq_none.mp h]
  rfl

theorem evidence_rows (h : ∀ r ∈ rows, isRow r = true) : evidence needle (rows ++ b) = evidence needle b := by
  induction rows with
  | nil => rfl
  | cons r rows ih =>
    rw [List.cons_append, evidence_skip (ownOf_of_isRow (h r List.mem_cons_self))]
    exact ih fun r' hr' => h r' (List.mem_cons_of_mem r hr')

/-- A header of another client, with the rows of its dump. -/
structure Foreign (needle : String) (chunk : List Line) : Prop where
  parts : ∃ l rows, chunk = l :: rows ∧ isRow l = false ∧ ownOf needle l = none ∧ ∀ r ∈ rows, isRow r = true

/-- The lines after a place go on with a dump of the client before it. -/
def Inside (needle : String) (a b : List Line) : Prop :=
  (∃ before l e rows, a = before ++ l :: rows ∧ ownOf needle l = some e ∧ e.header.id = queryData ∧
    ∀ r ∈ rows, isRow r = true) ∧ ∃ r rest, b = r :: rest ∧ isRow r = true

theorem Inside.cons (h : Inside needle a b) : Inside needle (l :: a) b := by
  obtain ⟨⟨before, l', e, rows, rfl, hown⟩, hb⟩ := h
  exact ⟨⟨l :: before, l', e, rows, rfl, hown⟩, hb⟩

theorem Inside.append {front : List Line} (h : Inside needle a b) : Inside needle (front ++ a) b := by
  obtain ⟨⟨before, l', e, rows, rfl, hown⟩, hb⟩ := h
  exact ⟨⟨front ++ before, l', e, rows, (List.append_assoc _ _ _).symm, hown⟩, hb⟩

theorem evidence_foreign (h : Foreign needle chunk) : evidence needle (chunk ++ b) = evidence needle b := by
  obtain ⟨l, rows, rfl, -, hown, hrows⟩ := h.parts
  rw [List.cons_append, evidence_skip hown, evidence_rows hrows]

theorem takeWhile_rows (h : ∀ r ∈ rows, isRow r = true) : (rows ++ b).takeWhile isRow = rows ++ b.takeWhile isRow :=
  List.takeWhile_append_of_pos h

theorem dropWhile_rows (h : ∀ r ∈ rows, isRow r = true) : (rows ++ b).dropWhile isRow = b.dropWhile isRow :=
  List.dropWhile_append_of_pos h

/-- Lines of another client, between the lines of a log, are no evidence of this one. -/
theorem evidence_inserted (h : Foreign needle chunk) (hout : ¬ Inside needle a b) :
    evidence needle (a ++ chunk ++ b) = evidence needle (a ++ b) := by
  induction hlen : a.length using Nat.strong_induction_on generalizing a with
  | _ n ih =>
    cases a with
    | nil => exact evidence_foreign h
    | cons l a =>
      rw [List.length_cons] at hlen
      rw [List.cons_append, List.cons_append, List.cons_append]
      cases hown : ownOf needle l with
      | none =>
        rw [evidence_skip hown, evidence_skip hown]
        exact ih a.length (by omega) (fun hin => hout hin.cons) rfl
      | some e =>
        by_cases hid : e.header.id = queryData
        · rw [evidence_dump hown hid, evidence_dump hown hid]
          -- the rows of the dump end before the place, or at it
          have hrows : ∀ r ∈ a.takeWhile isRow, isRow r = true := fun r hr => List.mem_takeWhile_imp hr
          have hparts := List.takeWhile_append_dropWhile (p := isRow) (l := a)
          rw [← hparts, List.append_assoc, List.append_assoc, List.append_assoc, takeWhile_rows hrows,
            takeWhile_rows hrows, dropWhile_rows hrows, dropWhile_rows hrows]
          have hrest : (a.dropWhile isRow).length ≤ a.length := (List.dropWhile_sublist isRow).length_le
          cases hdrop : a.dropWhile isRow with
          | nil =>
            obtain ⟨l', rows', hchunk, hhead, -, -⟩ := h.parts
            have hb : b.takeWhile isRow = [] ∧ b.dropWhile isRow = b := by
              cases b with
              | nil => exact ⟨rfl, rfl⟩
              | cons r b =>
                have hr : isRow r = false := by
                  refine Bool.eq_false_iff.mpr fun hr => hout ⟨⟨[], l, e, a, rfl, hown, hid, ?_⟩, r, b, rfl, hr⟩
                  rw [hdrop, List.append_nil] at hparts
                  rwa [hparts] at hrows
                have hno : ¬ isRow r = true := by rw [hr]; exact Bool.false_ne_true
                exact ⟨List.takeWhile_cons_of_neg hno, List.dropWhile_cons_of_neg hno⟩
            have hno : ¬ isRow l' = true := by rw [hhead]; exact Bool.false_ne_true
            have hchunkTake : (chunk ++ b).takeWhile isRow = [] := by
              rw [hchunk, List.cons_append]
              exact List.takeWhile_cons_of_neg hno
            have hchunkDrop : (chunk ++ b).dropWhile isRow = chunk ++ b := by
              rw [hchunk, List.cons_append]
              exact List.dropWhile_cons_of_neg hno
            rw [List.nil_append, List.nil_append, hchunkTake, hchunkDrop, hb.1, hb.2, evidence_foreign h]
          | cons l' a' =>
            have hl' : ¬ isRow l' = true := by
              have hhead := List.head_dropWhile_not (p := isRow) (l := a) (by rw [hdrop]; exact List.cons_ne_nil _ _)
              simp only [hdrop, List.head_cons] at hhead
              rw [hhead]
              exact Bool.false_ne_true
            have hnot : ¬ Inside needle (l' :: a') b := by
              intro hin
              have happ : Inside needle (l :: a.takeWhile isRow ++ (l' :: a')) b := hin.append
              rw [List.cons_append, ← hdrop, hparts] at happ
              exact hout happ
            have hlen' : (l' :: a').length < n := by
              rw [hdrop] at hrest
              omega
            have heq : evidence needle (l' :: (a' ++ (chunk ++ b))) = evidence needle (l' :: (a' ++ b)) := by
              simpa using ih _ hlen' hnot rfl
            rw [List.cons_append, List.cons_append, List.takeWhile_cons_of_neg hl', List.takeWhile_cons_of_neg hl',
              List.dropWhile_cons_of_neg hl', List.dropWhile_cons_of_neg hl']
            rw [heq]
        · rw [evidence_header hown hid, evidence_header hown hid, ih a.length (by omega) (fun hin => hout hin.cons) rfl]

end Evidence

/-- Lines of another client stand in the second log, and not in the first. -/
def Inserted (needle : String) (lines lines' : List Line) : Prop :=
  ∃ a chunk b, lines = a ++ b ∧ lines' = a ++ chunk ++ b ∧ Foreign needle chunk ∧ ¬ Inside needle a b

theorem evidence_eqvGen {needle : String} {lines lines' : List Line}
    (h : Relation.EqvGen (Inserted needle) lines lines') : evidence needle lines = evidence needle lines' := by
  induction h with
  | rel _ _ h =>
    obtain ⟨a, chunk, b, rfl, rfl, hforeign, hout⟩ := h
    exact (evidence_inserted hforeign hout).symm
  | refl => rfl
  | symm _ _ _ ih => exact ih.symm
  | trans _ _ _ _ _ ih ih' => exact ih.trans ih'

theorem transactions_eqvGen {mac : String} {lines lines' : List Line}
    (h : Relation.EqvGen (Inserted (normMac mac)) lines lines') : transactions lines mac = transactions lines' mac := by
  unfold transactions
  dsimp only
  rw [scan_eq, scan_eq, evidence_eqvGen h]

end JenKea.KeaLog.Inputs
