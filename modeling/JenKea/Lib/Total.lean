import JenKea.Lib.Calls

/-!
# Programs that return

`Prog.Does` says what a program returns: whatever the environment decides, the program returns a value and ends
with it in the postcondition, or it raises, where it may. `Prog.run_bind` splits the run of a sequence, with the
decisions that each part uses. `Prog.Spares` says of a program which errors it never raises.
-/

namespace JenKea

namespace Prog

variable {I : Interface} {ε ε' α β φ σ : Type} {h : Handler I φ σ} {s : σ}

/-- Whatever the environment decides, the program returns a value, which ends with the state in `Q`, or it
raises, where it `may`. -/
def Does (may : Prop) (h : Handler I φ σ) (p : Prog I ε α) (Q : α → σ → Prop) (s : σ) : Prop :=
  p.wp h (fun _ => True) (fun r t => match r with
    | .ok a => Q a t
    | .error _ => may) s

section Does

variable {may : Prop} {p : Prog I ε α} {Q Q' : α → σ → Prop}

theorem does_pure {a : α} (ha : Q a s) : (pure a : Prog I ε α).Does may h Q s := ha

theorem does_raise {e : ε} (hmay : may) : (Prog.raise e : Prog I ε α).Does may h Q s := hmay

theorem does_call {o : I.Op} {k : I.Ans o → Prog I ε α} (hk : ∀ c, (k (h o c s).1).Does may h Q (h o c s).2) :
    (Prog.call o k).Does may h Q s := fun c => ⟨trivial, hk c⟩

theorem Does.mono (hp : p.Does may h Q s) (hQ : ∀ a t, Q a t → Q' a t) : p.Does may h Q' s := by
  refine wp_mono ?_ hp
  rintro (e | a) t ht
  · exact ht
  · exact hQ a t ht

theorem Does.weaken {may' : Prop} (hp : p.Does may h Q s) (hmay : may → may') : p.Does may' h Q s := by
  refine wp_mono ?_ hp
  rintro (e | a) t ht
  · exact hmay ht
  · exact ht

/-- Sequencing: the second program is judged from where the first one ends. -/
theorem Does.bind {f : α → Prog I ε β} {R : β → σ → Prop} (hp : p.Does may h Q s)
    (hf : ∀ a t, Q a t → (f a).Does may h R t) : (p >>= f).Does may h R s := by
  refine (wp_bind p f _).mpr (wp_mono ?_ hp)
  rintro (e | a) t ht
  · exact ht
  · exact hf a t ht

/-- The rule of the loop that goes to the end. `Inv xs a s` is what holds when `xs` is still to come. -/
theorem Does.fold {body : β → α → Prog I ε α} (Inv : List β → α → σ → Prop)
    (hbody : ∀ x xs a t, Inv (x :: xs) a t → (body x a).Does may h (Inv xs) t) {xs : List β} {a : α}
    (h0 : Inv xs a s) : (Prog.fold body xs a).Does may h (Inv []) s := by
  induction xs generalizing a s with
  | nil => exact does_pure h0
  | cons x xs ih => exact Does.bind (hbody x xs a s h0) fun a' t ht => ih ht

/-- A loop whose passes leave the state as it is computes a fold. -/
theorem does_foldl {body : β → α → Prog I ε α} {g : α → β → α}
    (hbody : ∀ x a, (body x a).Does may h (fun a' t => a' = g a x ∧ t = s) s) {xs : List β} {a : α} :
    (Prog.fold body xs a).Does may h (fun a' t => a' = xs.foldl g a ∧ t = s) s := by
  induction xs generalizing a with
  | nil => exact does_pure ⟨rfl, rfl⟩
  | cons x xs ih =>
    refine Does.bind (hbody x a) ?_
    rintro a' t ⟨rfl, rfl⟩
    exact ih

/-- A program whose failure is a value does not fail. -/
theorem Does.attempt {may' : Prop} (hp : p.Does may h Q s) :
    (attempt p : Prog I ε' (Except ε α)).Does may' h (fun r t => match r with
      | .ok a => Q a t
      | .error _ => may) s :=
  wp_attempt.mpr hp

/-- What is raised is handed to the handler. -/
theorem Does.handle {g : ε → Prog I ε' α} (hp : p.Does may h Q s)
    (hg : may → ∀ e t, (g e).Does may h Q t) : (p.handle g).Does may h Q s := by
  refine (wp_handle p g _).mpr (wp_mono ?_ hp)
  rintro (e | a) t ht
  · exact hg ht e t
  · exact ht

theorem Does.ends (hp : p.Does may h Q s) : p.Ends h Q s := by
  refine wp_mono ?_ hp
  rintro (e | a) t ht b hb
  · cases hb
  · exact Except.ok.inj hb ▸ ht

theorem does_of_ends (hp : p.Ends h Q s) : p.Does True h Q s := by
  refine wp_mono ?_ hp
  rintro (e | a) t ht
  · exact trivial
  · exact ht a rfl

end Does

/-! ## The run of a sequence -/

/-- The second part of a sequence runs from where the first one ended, with the decisions that are left. -/
theorem run_bind (p : Prog I ε α) (f : α → Prog I ε β) (g : ℕ → φ) :
    (p >>= f).run h g s =
      match (p.run h g s).result with
      | .ok a => (f a).run h (p.run h g s).rest (p.run h g s).state
      | .error e => ⟨.error e, (p.run h g s).state, (p.run h g s).rest⟩ := by
  induction p generalizing g s with
  | done a => rfl
  | raise e => rfl
  | call o k ih => exact ih _ _

theorem run_bind_ok {p : Prog I ε α} {f : α → Prog I ε β} {g : ℕ → φ} {a : α} (hp : (p.run h g s).result = .ok a) :
    (p >>= f).run h g s = (f a).run h (p.run h g s).rest (p.run h g s).state := by rw [run_bind, hp]

theorem run_bind_error {p : Prog I ε α} {f : α → Prog I ε β} {g : ℕ → φ} {e : ε}
    (hp : (p.run h g s).result = .error e) :
    (p >>= f).run h g s = ⟨.error e, (p.run h g s).state, (p.run h g s).rest⟩ := by rw [run_bind, hp]

/-- Where every call is decided alike, so are those that are left. -/
theorem rest_const (p : Prog I ε α) {c : φ} : (p.run h (fun _ => c) s).rest = fun _ => c := by
  induction p generalizing s with
  | done a => rfl
  | raise e => rfl
  | call o k ih => exact ih _

/-! ## Errors that are not raised -/

/-- A run ends in a result that the program can have. -/
theorem wp_returns (p : Prog I ε α) : p.wp h (fun _ => True) (fun r _ => p.Returns r) s := by
  induction p generalizing s with
  | done a => exact rfl
  | raise e => exact rfl
  | call o k ih => exact fun c => ⟨trivial, wp_mono (fun r _ hr => ⟨_, hr⟩) (ih _)⟩

/-- The program raises no error in `E`. -/
def Spares (E : ε → Prop) (p : Prog I ε α) : Prop := ∀ e, p.Returns (.error e) → ¬ E e

section Spares

variable {E : ε → Prop} {p : Prog I ε α}

theorem spares_pure (a : α) : (pure a : Prog I ε α).Spares E := fun _ h => nomatch h

theorem spares_raise {e : ε} (he : ¬ E e) : (Prog.raise e : Prog I ε α).Spares E :=
  fun _ h => Except.error.inj h ▸ he

theorem Spares.bind {f : α → Prog I ε β} (hp : p.Spares E) (hf : ∀ a, (f a).Spares E) : (p >>= f).Spares E := by
  intro e h
  rcases returns_bind.mp h with ⟨e', he', hraise⟩ | ⟨a, -, hraise⟩
  · exact Except.error.inj he' ▸ hp e' hraise
  · exact hf a e hraise

theorem Spares.fold {body : β → α → Prog I ε α} (hbody : ∀ x a, (body x a).Spares E) :
    ∀ xs a, (Prog.fold body xs a).Spares E
  | [], a => spares_pure a
  | x :: xs, a => Spares.bind (hbody x a) fun a' => Spares.fold hbody xs a'

/-- What is handed to a handler is raised by the handler, or not at all. -/
theorem Spares.handle {E' : ε' → Prop} {g : ε → Prog I ε' α} (hg : ∀ e, (g e).Spares E') :
    (p.handle g).Spares E' := by
  intro e h
  rcases returns_handle.mp h with ⟨a, ha, -⟩ | ⟨e', -, hraise⟩
  · cases ha
  · exact hg e' e hraise

theorem spares_attempt {E' : ε' → Prop} : (attempt p : Prog I ε' (Except ε α)).Spares E' := by
  intro e h
  obtain ⟨r, hr, -⟩ := returns_attempt.mp h
  cases hr

theorem spares_ofExcept {x : Except ε α} (hx : ∀ e, x = .error e → ¬ E e) : (ofExcept x : Prog I ε α).Spares E :=
  fun e h => hx e ((returns_ofExcept x).mp h).symm

end Spares

end Prog

end JenKea
