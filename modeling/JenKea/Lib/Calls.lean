import JenKea.Lib.Prog

/-!
# What a program can call

`Prog.Calls A` says of a program that some answers lead it to an operation in `A`, and `Prog.Returns r` that
some lead it to the result `r`. Both are read off a program by its parts, so that what it can do is known
exactly. `Prog.attempt` is a program whose failure is a value.
-/

namespace JenKea

namespace Prog

variable {I : Interface} {ε ε' α β φ σ : Type}

/-- The program, with what it raises as a value. -/
def attempt (p : Prog I ε α) : Prog I ε' (Except ε α) :=
  (p.bind fun a => .done (.ok a)).handle fun e => .done (.error e)

/-- Some answers lead to an operation in `A`. -/
def Calls (A : I.Op → Prop) : Prog I ε α → Prop
  | .done _ => False
  | .raise _ => False
  | .call o k => A o ∨ ∃ a, (k a).Calls A

/-- Some answers lead to the result `r`. -/
def Returns (r : Except ε α) : Prog I ε α → Prop
  | .done a => r = .ok a
  | .raise e => r = .error e
  | .call _ k => ∃ a, (k a).Returns r

/-- The operations that are called where each is answered by `f`. -/
def trace (f : (o : I.Op) → I.Ans o) : Prog I ε α → List I.Op
  | .done _ => []
  | .raise _ => []
  | .call o k => o :: (k (f o)).trace f

section

variable {A : I.Op → Prop} {P : α → Prop} {p : Prog I ε α}

@[simp] theorem calls_pure (a : α) : (pure a : Prog I ε α).Calls A ↔ False := Iff.rfl

@[simp] theorem calls_done (a : α) : (Prog.done a : Prog I ε α).Calls A ↔ False := Iff.rfl

@[simp] theorem calls_raise (e : ε) : (Prog.raise e : Prog I ε α).Calls A ↔ False := Iff.rfl

@[simp] theorem calls_call (o : I.Op) (k : I.Ans o → Prog I ε α) :
    (Prog.call o k).Calls A ↔ A o ∨ ∃ a, (k a).Calls A := Iff.rfl

@[simp] theorem returns_pure {r : Except ε α} (a : α) : (pure a : Prog I ε α).Returns r ↔ r = .ok a := Iff.rfl

@[simp] theorem returns_done {r : Except ε α} (a : α) : (Prog.done a : Prog I ε α).Returns r ↔ r = .ok a := Iff.rfl

@[simp] theorem returns_raise {r : Except ε α} (e : ε) :
    (Prog.raise e : Prog I ε α).Returns r ↔ r = .error e := Iff.rfl

@[simp] theorem returns_call {r : Except ε α} (o : I.Op) (k : I.Ans o → Prog I ε α) :
    (Prog.call o k).Returns r ↔ ∃ a, (k a).Returns r := Iff.rfl

/-- Sequencing: the second program is reached with what the first returns. -/
theorem calls_bind {p : Prog I ε α} {f : α → Prog I ε β} :
    (p >>= f).Calls A ↔ p.Calls A ∨ ∃ a, p.Returns (.ok a) ∧ (f a).Calls A := by
  induction p with
  | done a =>
    constructor
    · exact fun h => .inr ⟨a, rfl, h⟩
    · rintro (h | ⟨b, hb, h⟩)
      · exact h.elim
      · exact Except.ok.inj hb ▸ h
  | raise e =>
    constructor
    · exact fun h => h.elim
    · rintro (h | ⟨b, hb, -⟩)
      · exact h
      · cases hb
  | call o k ih =>
    constructor
    · rintro (ho | ⟨a, ha⟩)
      · exact .inl (.inl ho)
      · rcases (ih a).mp ha with h | ⟨b, hb, h⟩
        · exact .inl (.inr ⟨a, h⟩)
        · exact .inr ⟨b, ⟨a, hb⟩, h⟩
    · rintro ((ho | ⟨a, ha⟩) | ⟨b, ⟨a, hb⟩, h⟩)
      · exact .inl ho
      · exact .inr ⟨a, (ih a).mpr (.inl ha)⟩
      · exact .inr ⟨a, (ih a).mpr (.inr ⟨b, hb, h⟩)⟩

theorem returns_bind {p : Prog I ε α} {f : α → Prog I ε β} {r : Except ε β} :
    (p >>= f).Returns r ↔
      (∃ e, r = .error e ∧ p.Returns (.error e)) ∨ ∃ a, p.Returns (.ok a) ∧ (f a).Returns r := by
  induction p with
  | done a =>
    constructor
    · exact fun h => .inr ⟨a, rfl, h⟩
    · rintro (⟨e, -, he⟩ | ⟨b, hb, h⟩)
      · cases he
      · exact Except.ok.inj hb ▸ h
  | raise e =>
    constructor
    · exact fun h => .inl ⟨e, h, rfl⟩
    · rintro (⟨e', he', h⟩ | ⟨b, hb, -⟩)
      · exact he'.trans (congrArg _ (Except.error.inj h))
      · cases hb
  | call o k ih =>
    constructor
    · rintro ⟨a, ha⟩
      rcases (ih a).mp ha with ⟨e, he, h⟩ | ⟨b, hb, h⟩
      · exact .inl ⟨e, he, a, h⟩
      · exact .inr ⟨b, ⟨a, hb⟩, h⟩
    · rintro (⟨e, he, a, h⟩ | ⟨b, ⟨a, hb⟩, h⟩)
      · exact ⟨a, (ih a).mpr (.inl ⟨e, he, h⟩)⟩
      · exact ⟨a, (ih a).mpr (.inr ⟨b, hb, h⟩)⟩

/-- Handling: what the program raises goes on in the handler. -/
theorem calls_handle {g : ε → Prog I ε' α} :
    (p.handle g).Calls A ↔ p.Calls A ∨ ∃ e, p.Returns (.error e) ∧ (g e).Calls A := by
  induction p with
  | done a =>
    constructor
    · exact fun h => h.elim
    · rintro (h | ⟨e, he, -⟩)
      · exact h
      · cases he
  | raise e =>
    constructor
    · exact fun h => .inr ⟨e, rfl, h⟩
    · rintro (h | ⟨e', he, h⟩)
      · exact h.elim
      · exact Except.error.inj he ▸ h
  | call o k ih =>
    constructor
    · rintro (ho | ⟨a, ha⟩)
      · exact .inl (.inl ho)
      · rcases (ih a).mp ha with h | ⟨e, he, h⟩
        · exact .inl (.inr ⟨a, h⟩)
        · exact .inr ⟨e, ⟨a, he⟩, h⟩
    · rintro ((ho | ⟨a, ha⟩) | ⟨e, ⟨a, he⟩, h⟩)
      · exact .inl ho
      · exact .inr ⟨a, (ih a).mpr (.inl ha)⟩
      · exact .inr ⟨a, (ih a).mpr (.inr ⟨e, he, h⟩)⟩

theorem returns_handle {g : ε → Prog I ε' α} {r : Except ε' α} :
    (p.handle g).Returns r ↔
      (∃ a, r = .ok a ∧ p.Returns (.ok a)) ∨ ∃ e, p.Returns (.error e) ∧ (g e).Returns r := by
  induction p with
  | done a =>
    constructor
    · exact fun h => .inl ⟨a, h, rfl⟩
    · rintro (⟨b, hb, h⟩ | ⟨e, he, -⟩)
      · exact hb.trans (Except.ok.inj h ▸ rfl)
      · cases he
  | raise e =>
    constructor
    · exact fun h => .inr ⟨e, rfl, h⟩
    · rintro (⟨b, -, h⟩ | ⟨e', he, h⟩)
      · cases h
      · exact Except.error.inj he ▸ h
  | call o k ih =>
    constructor
    · rintro ⟨a, ha⟩
      rcases (ih a).mp ha with ⟨b, hb, h⟩ | ⟨e, he, h⟩
      · exact .inl ⟨b, hb, a, h⟩
      · exact .inr ⟨e, ⟨a, he⟩, h⟩
    · rintro (⟨b, hb, a, h⟩ | ⟨e, ⟨a, he⟩, h⟩)
      · exact ⟨a, (ih a).mpr (.inl ⟨b, hb, h⟩)⟩
      · exact ⟨a, (ih a).mpr (.inr ⟨e, he, h⟩)⟩

@[simp] theorem calls_ofExcept (x : Except ε α) : (ofExcept x : Prog I ε α).Calls A ↔ False := by
  cases x <;> exact Iff.rfl

@[simp] theorem returns_ofExcept {r : Except ε α} (x : Except ε α) :
    (ofExcept x : Prog I ε α).Returns r ↔ r = x := by
  cases x <;> exact Iff.rfl

@[simp] theorem calls_attempt : (attempt p : Prog I ε' (Except ε α)).Calls A ↔ p.Calls A := by
  induction p with
  | done a => exact Iff.rfl
  | raise e => exact Iff.rfl
  | call o k ih => exact or_congr_right (exists_congr fun a => ih a)

@[simp] theorem returns_attempt {r : Except ε' (Except ε α)} :
    (attempt p : Prog I ε' (Except ε α)).Returns r ↔ ∃ r', r = .ok r' ∧ p.Returns r' := by
  induction p with
  | done a =>
    constructor
    · exact fun h => ⟨.ok a, h, rfl⟩
    · rintro ⟨r', hr, h⟩
      exact hr.trans (congrArg _ h)
  | raise e =>
    constructor
    · exact fun h => ⟨.error e, h, rfl⟩
    · rintro ⟨r', hr, h⟩
      exact hr.trans (congrArg _ h)
  | call o k ih =>
    constructor
    · rintro ⟨a, ha⟩
      obtain ⟨r', hr, h⟩ := (ih a).mp ha
      exact ⟨r', hr, a, h⟩
    · rintro ⟨r', hr, a, h⟩
      exact ⟨a, (ih a).mpr ⟨r', hr, h⟩⟩

@[simp] theorem wp_attempt {h : Handler I φ σ} {J : σ → Prop} {s : σ}
    {Q : Except ε' (Except ε α) → σ → Prop} :
    (attempt p : Prog I ε' (Except ε α)).wp h J Q s ↔ p.wp h J (fun r t => Q (.ok r) t) s := by
  induction p generalizing s with
  | done a => exact Iff.rfl
  | raise e => exact Iff.rfl
  | call o k ih => exact forall_congr' fun c => and_congr_right fun _ => ih _

/-- What is called under some answers can be called. -/
theorem calls_of_trace {f : (o : I.Op) → I.Ans o} {o : I.Op} (ho : o ∈ p.trace f) (hA : A o) : p.Calls A := by
  induction p with
  | done a => exact absurd ho List.not_mem_nil
  | raise e => exact absurd ho List.not_mem_nil
  | call o' k ih =>
    rcases List.mem_cons.mp ho with rfl | ho
    · exact .inl hA
    · exact .inr ⟨f o', ih _ ho⟩

/-- Where every operation has an answer, a program has a result. -/
theorem exists_returns (hI : ∀ o, Nonempty (I.Ans o)) (p : Prog I ε α) : ∃ r, p.Returns r := by
  induction p with
  | done a => exact ⟨.ok a, rfl⟩
  | raise e => exact ⟨.error e, rfl⟩
  | call o k ih =>
    obtain ⟨a⟩ := hI o
    obtain ⟨r, hr⟩ := ih a
    exact ⟨r, a, hr⟩

/-- A loop whose every pass returns something returns. -/
theorem exists_returns_fold {body : β → α → Prog I ε α} (hbody : ∀ x a, ∃ a', (body x a).Returns (.ok a')) :
    ∀ xs a, ∃ a', (fold body xs a).Returns (.ok a')
  | [], a => ⟨a, rfl⟩
  | x :: xs, a => by
    obtain ⟨a', ha'⟩ := hbody x a
    obtain ⟨b, hb⟩ := exists_returns_fold hbody xs a'
    exact ⟨b, returns_bind.mpr (.inr ⟨a', ha', hb⟩)⟩

/-- A loop whose every pass returns something calls what some pass calls, where that does not depend on the
accumulator. -/
theorem calls_fold {C : β → Prop} {body : β → α → Prog I ε α} (hbody : ∀ x a, ∃ a', (body x a).Returns (.ok a'))
    (hcalls : ∀ x a, (body x a).Calls A ↔ C x) {xs : List β} {a : α} :
    (fold body xs a).Calls A ↔ ∃ x ∈ xs, C x := by
  induction xs generalizing a with
  | nil => exact iff_of_false id (by simp)
  | cons x xs ih =>
    rw [fold, List.exists_mem_cons_iff]
    refine calls_bind.trans (or_congr (hcalls x a) ?_)
    constructor
    · rintro ⟨b, -, h⟩
      exact ih.mp h
    · intro h
      obtain ⟨b, hb⟩ := hbody x a
      exact ⟨b, hb, ih.mpr h⟩

end

end Prog

end JenKea
