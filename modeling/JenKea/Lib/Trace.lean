import Mathlib.Data.List.Basic
import Mathlib.Data.List.Induction

/-!
# Ordered traces

A trace is the list of what happened, the oldest first. `Ordered Ok` says of a trace that each event
was allowed by what had happened before it, so it is a statement about every prefix.
-/

namespace JenKea

variable {α : Type}

/-- Each event of the trace satisfies `Ok`, given the events before it. -/
def Ordered (Ok : List α → α → Prop) (trace : List α) : Prop :=
  ∀ before e after, trace = before ++ e :: after → Ok before e

theorem ordered_nil (Ok : List α → α → Prop) : Ordered Ok [] := by
  intro before e after h
  simp at h

/-- A trace grows by an event that what happened so far allows. -/
theorem ordered_snoc {Ok : List α → α → Prop} {trace : List α} {e : α} :
    Ordered Ok (trace ++ [e]) ↔ Ordered Ok trace ∧ Ok trace e := by
  constructor
  · intro h
    refine ⟨fun before e' after ht => h before e' (after ++ [e]) (by simp [ht]), h trace e [] rfl⟩
  · rintro ⟨h, he⟩ before e' after ht
    rcases List.eq_nil_or_concat after with rfl | ⟨init, last, rfl⟩
    · obtain ⟨rfl, h1⟩ := List.append_inj' ht rfl
      rw [List.singleton_inj] at h1
      exact h1 ▸ he
    · have ht' : trace ++ [e] = (before ++ e' :: init) ++ [last] := by simpa using ht
      obtain ⟨rfl, -⟩ := List.append_inj' ht' rfl
      exact h before e' init rfl

/-- A trace grows by events that any history allows. -/
theorem Ordered.append {Ok : List α → α → Prop} {trace more : List α} (h : Ordered Ok trace)
    (hmore : ∀ e ∈ more, ∀ before, Ok before e) : Ordered Ok (trace ++ more) := by
  induction more using List.reverseRecOn with
  | nil => simpa using h
  | append_singleton more e ih =>
    rw [← List.append_assoc, ordered_snoc]
    refine ⟨ih fun e' he' => hmore e' (List.mem_append_left _ he'), hmore e (by simp) _⟩

/-- A trace grows by events that it allows itself, when what a history allows a longer one allows. -/
theorem Ordered.append_of_mono {Ok : List α → α → Prop} {trace more : List α}
    (hmono : ∀ before after e, Ok before e → Ok (before ++ after) e) (h : Ordered Ok trace)
    (hmore : ∀ e ∈ more, Ok trace e) : Ordered Ok (trace ++ more) := by
  induction more using List.reverseRecOn with
  | nil => simpa using h
  | append_singleton more e ih =>
    rw [← List.append_assoc, ordered_snoc]
    refine ⟨ih fun e' he' => hmore e' (List.mem_append_left _ he'), ?_⟩
    exact hmono _ _ _ (hmore e (by simp))

/-- Every prefix of an ordered trace is ordered. -/
theorem Ordered.of_prefix {Ok : List α → α → Prop} {before trace : List α}
    (h : Ordered Ok trace) (hp : before <+: trace) : Ordered Ok before := by
  obtain ⟨after, rfl⟩ := hp
  intro b e a hb
  exact h b e (a ++ after) (by simp [hb])

end JenKea
