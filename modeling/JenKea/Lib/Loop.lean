import Mathlib.Data.List.Forall2

/-!
# Loops that may fail

What `foldlM` and `mapM` in `Option` come to, by what each step does.
-/

namespace JenKea.Loop

variable {α β : Type} {l : List α}

/-- A loop keeps what each of its steps keeps. -/
theorem foldlM_keeps {f : β → α → Option β} {P : β → Prop}
    (hstep : ∀ b a b', P b → f b a = some b' → P b') {b b' : β} (hb : P b)
    (h : l.foldlM f b = some b') : P b' := by
  induction l generalizing b with
  | nil =>
    obtain rfl := Option.some.inj h
    exact hb
  | cons a l ih =>
    rw [List.foldlM_cons, Option.bind_eq_bind, Option.bind_eq_some_iff] at h
    obtain ⟨b₁, hb₁, hrest⟩ := h
    exact ih (hstep b a b₁ hb hb₁) hrest

/-- Where each element comes to something, the list does, element by element. -/
theorem exists_mapM {f : α → Option β} {P : α → β → Prop} (h : ∀ a ∈ l, ∃ b, f a = some b ∧ P a b) :
    ∃ l', l.mapM f = some l' ∧ List.Forall₂ P l l' ∧ ∀ b ∈ l', ∃ a ∈ l, P a b := by
  induction l with
  | nil => exact ⟨[], rfl, .nil, by simp⟩
  | cons a l ih =>
    rw [List.forall_mem_cons] at h
    obtain ⟨b, hb, hab⟩ := h.1
    obtain ⟨l', hl', hrest, hmem⟩ := ih h.2
    refine ⟨b :: l', by simp [List.mapM_cons, hb, hl'], .cons hab hrest, ?_⟩
    rw [List.forall_mem_cons]
    refine ⟨⟨a, List.mem_cons_self, hab⟩, fun b' hb' => ?_⟩
    obtain ⟨a', ha', hab'⟩ := hmem b' hb'
    exact ⟨a', List.mem_cons_of_mem _ ha', hab'⟩

/-- What an element comes to is among what the list comes to. -/
theorem exists_mem_of_mapM {f : α → Option β} {l' : List β} (h : l.mapM f = some l') :
    ∀ a ∈ l, ∃ b ∈ l', f a = some b := by
  induction l generalizing l' with
  | nil => simp
  | cons a l ih =>
    simp only [List.mapM_cons, Option.bind_eq_bind, Option.bind_eq_some_iff, Option.pure_def,
      Option.some.injEq] at h
    obtain ⟨b, hb, bs, hbs, rfl⟩ := h
    rw [List.forall_mem_cons]
    refine ⟨⟨b, List.mem_cons_self, hb⟩, fun a' ha' => ?_⟩
    obtain ⟨b', hb', heq⟩ := ih hbs a' ha'
    exact ⟨b', List.mem_cons_of_mem _ hb', heq⟩

/-- A loop no step of which fails gives what its steps give. -/
theorem mapM_eq_pure {m : Type → Type} [Monad m] [LawfulMonad m] {f : α → m β} {g : α → β}
    (h : ∀ a ∈ l, f a = pure (g a)) : l.mapM f = pure (l.map g) := by
  induction l with
  | nil => rw [List.mapM_nil, List.map_nil]
  | cons a l ih =>
    rw [List.forall_mem_cons] at h
    rw [List.mapM_cons, h.1, ih h.2, pure_bind, pure_bind, List.map_cons]

end JenKea.Loop
