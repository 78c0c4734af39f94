import Mathlib.Data.List.Basic
import Mathlib.Logic.Basic

/-!
# Programs over an interface

A program here is a tree of calls. It calls an operation of its interface, goes on with the answer,
and ends by returning a value or by raising. What the operations do is left to a `Handler`, a
function from the operation, the state of the world, and a `φ`: what the environment decides at that
one call (a reply that is lost, a host that does not answer, a daemon that refuses). A run takes a
stream of such decisions, so a property of every run is a property of every stream.

`Prog.wp` is the rule the proofs use: it holds of a program, a postcondition, and a state when the
postcondition holds at the end, and an invariant `J` after each call on the way, whatever the
environment decides. `Prog.wp_sound` reads it back as a statement about runs.
-/

namespace JenKea

/-- An interface: the operations that a program may call, each with the type of its answer. -/
structure Interface where
  /-- The operations. -/
  Op : Type
  /-- The type of an operation's answer. -/
  Ans : Op → Type

/-- A program over the interface `I`, which returns an `α` or raises an `ε`. -/
inductive Prog (I : Interface) (ε α : Type) : Type
  /-- The program returns `a`. -/
  | done (a : α) : Prog I ε α
  /-- The program raises `e`. -/
  | raise (e : ε) : Prog I ε α
  /-- The program calls `o` and goes on with its answer. -/
  | call (o : I.Op) (k : I.Ans o → Prog I ε α) : Prog I ε α

/-- What an operation does: its answer and the state after it, from what the environment decides
at the call and the state before it. -/
abbrev Handler (I : Interface) (φ σ : Type) : Type :=
  (o : I.Op) → φ → σ → I.Ans o × σ

namespace Prog

variable {I : Interface} {ε ε' α β γ φ σ : Type}

/-- One call, returning its answer. -/
def op (o : I.Op) : Prog I ε (I.Ans o) := .call o .done

/-- Sequencing: what the first program raises, the whole raises. -/
def bind : Prog I ε α → (α → Prog I ε β) → Prog I ε β
  | .done a, f => f a
  | .raise e, _ => .raise e
  | .call o k, f => .call o fun a => (k a).bind f

/-- The program `p`, except that what it raises is handed to `g`. -/
def handle : Prog I ε α → (ε → Prog I ε' α) → Prog I ε' α
  | .done a, _ => .done a
  | .raise e, g => g e
  | .call o k, g => .call o fun a => (k a).handle g

instance : Monad (Prog I ε) where
  pure := .done
  bind := bind

instance : MonadExceptOf ε (Prog I ε) where
  throw := .raise
  tryCatch := handle

/-- A loop over a list with an accumulator: `Sum.inl` goes on with the next element and
`Sum.inr` leaves the loop with a result. -/
def loop {ρ : Type} (body : β → α → Prog I ε (α ⊕ ρ)) : List β → α → Prog I ε (α ⊕ ρ)
  | [], a => .done (.inl a)
  | x :: xs, a => (body x a).bind fun
    | .inl a' => loop body xs a'
    | .inr r => .done (.inr r)

/-- A loop over a list with an accumulator that always goes to the end of the list. -/
def fold (body : β → α → Prog I ε α) : List β → α → Prog I ε α
  | [], a => .done a
  | x :: xs, a => (body x a).bind (fold body xs)

/-- A pure computation that may raise. -/
def ofExcept : Except ε α → Prog I ε α
  | .ok a => .done a
  | .error e => .raise e

/-! ## Runs -/

/-- Where a run ends: what the program returned or raised, the state of the world, and the
decisions of the environment that the run did not use. -/
structure End (φ ε α σ : Type) where
  /-- What the program returned or raised. -/
  result : Except ε α
  /-- The state of the world at the end. -/
  state : σ
  /-- The decisions left. -/
  rest : ℕ → φ

/-- The run of a program from the state `s` under the decisions `f`. -/
def run (h : Handler I φ σ) : Prog I ε α → (ℕ → φ) → σ → End φ ε α σ
  | .done a, f, s => ⟨.ok a, s, f⟩
  | .raise e, f, s => ⟨.error e, s, f⟩
  | .call o k, f, s =>
    (k (h o (f 0) s).1).run h (fun n => f (n + 1)) (h o (f 0) s).2

/-- The states that a run passes through, one after each call, in order. -/
def visits (h : Handler I φ σ) : Prog I ε α → (ℕ → φ) → σ → List σ
  | .done _, _, _ => []
  | .raise _, _, _ => []
  | .call o k, f, s =>
    (h o (f 0) s).2 :: (k (h o (f 0) s).1).visits h (fun n => f (n + 1)) (h o (f 0) s).2

/-- A run ends in its last visited state, or where it started when it called nothing. -/
theorem run_state_mem_visits (h : Handler I φ σ) (p : Prog I ε α) (f : ℕ → φ) (s : σ) :
    (p.run h f s).state ∈ s :: p.visits h f s := by
  induction p generalizing f s with
  | done a => simp [run]
  | raise e => simp [run]
  | call o k ih =>
    simp only [run, visits]
    exact List.mem_cons_of_mem _ (ih _ _ _)

/-! ## The rule -/

/-- Whatever the environment decides, `J` holds after each call of the program and `Q` holds of
what it returns or raises and of the state at the end. -/
def wp (h : Handler I φ σ) (J : σ → Prop) : Prog I ε α → (Except ε α → σ → Prop) → σ → Prop
  | .done a, Q, s => Q (.ok a) s
  | .raise e, Q, s => Q (.error e) s
  | .call o k, Q, s =>
    ∀ c, J (h o c s).2 ∧ (k (h o c s).1).wp h J Q (h o c s).2

section Rules

variable {h : Handler I φ σ} {J : σ → Prop} {s : σ}

@[simp] theorem wp_pure (a : α) (Q : Except ε α → σ → Prop) :
    (pure a : Prog I ε α).wp h J Q s ↔ Q (.ok a) s := Iff.rfl

@[simp] theorem wp_done (a : α) (Q : Except ε α → σ → Prop) :
    (Prog.done a : Prog I ε α).wp h J Q s ↔ Q (.ok a) s := Iff.rfl

@[simp] theorem wp_throw (e : ε) (Q : Except ε α → σ → Prop) :
    (throw e : Prog I ε α).wp h J Q s ↔ Q (.error e) s := Iff.rfl

@[simp] theorem wp_raise (e : ε) (Q : Except ε α → σ → Prop) :
    (Prog.raise e : Prog I ε α).wp h J Q s ↔ Q (.error e) s := Iff.rfl

@[simp] theorem wp_op (o : I.Op) (Q : Except ε (I.Ans o) → σ → Prop) :
    (op o : Prog I ε (I.Ans o)).wp h J Q s ↔
      ∀ c, J (h o c s).2 ∧ Q (.ok (h o c s).1) (h o c s).2 := Iff.rfl

/-- A weaker postcondition holds where a stronger one does. -/
theorem wp_mono {p : Prog I ε α} {Q Q' : Except ε α → σ → Prop} (hQ : ∀ r t, Q r t → Q' r t)
    (hp : p.wp h J Q s) : p.wp h J Q' s := by
  induction p generalizing s with
  | done a => exact hQ _ _ hp
  | raise e => exact hQ _ _ hp
  | call o k ih => exact fun c => ⟨(hp c).1, ih _ (hp c).2⟩

/-- A weaker invariant holds where a stronger one does. -/
theorem wp_weaken {J' : σ → Prop} {p : Prog I ε α} {Q : Except ε α → σ → Prop}
    (hJ : ∀ t, J t → J' t) (hp : p.wp h J Q s) : p.wp h J' Q s := by
  induction p generalizing s with
  | done a => exact hp
  | raise e => exact hp
  | call o k ih => exact fun c => ⟨hJ _ (hp c).1, ih _ (hp c).2⟩

/-- The invariant may be dropped. -/
theorem wp_forget {p : Prog I ε α} {Q : Except ε α → σ → Prop} (hp : p.wp h J Q s) :
    p.wp h (fun _ => True) Q s := wp_weaken (fun _ _ => trivial) hp

/-- Two postconditions, each proved alone, hold together. -/
theorem wp_and {J' : σ → Prop} {p : Prog I ε α} {Q Q' : Except ε α → σ → Prop}
    (hp : p.wp h J Q s) (hp' : p.wp h J' Q' s) :
    p.wp h (fun t => J t ∧ J' t) (fun r t => Q r t ∧ Q' r t) s := by
  induction p generalizing s with
  | done a => exact ⟨hp, hp'⟩
  | raise e => exact ⟨hp, hp'⟩
  | call o k ih => exact fun c => ⟨⟨(hp c).1, (hp' c).1⟩, ih _ (hp c).2 (hp' c).2⟩

/-- Sequencing: the second program is judged from where the first one ends. -/
@[simp] theorem wp_bind (p : Prog I ε α) (f : α → Prog I ε β) (Q : Except ε β → σ → Prop) :
    (p >>= f).wp h J Q s ↔
      p.wp h J (fun r t => match r with
        | .ok a => (f a).wp h J Q t
        | .error e => Q (.error e) t) s := by
  induction p generalizing s with
  | done a => exact Iff.rfl
  | raise e => exact Iff.rfl
  | call o k ih => exact forall_congr' fun c => and_congr_right fun _ => ih _

/-- Handling: what the program raises goes on in the handler. -/
@[simp] theorem wp_handle (p : Prog I ε α) (g : ε → Prog I ε' α) (Q : Except ε' α → σ → Prop) :
    (p.handle g).wp h J Q s ↔
      p.wp h J (fun r t => match r with
        | .ok a => Q (.ok a) t
        | .error e => (g e).wp h J Q t) s := by
  induction p generalizing s with
  | done a => exact Iff.rfl
  | raise e => exact Iff.rfl
  | call o k ih => exact forall_congr' fun c => and_congr_right fun _ => ih _

@[simp] theorem wp_ite (c : Prop) [Decidable c] (p q : Prog I ε α)
    (Q : Except ε α → σ → Prop) :
    (if c then p else q).wp h J Q s ↔ (c → p.wp h J Q s) ∧ (¬ c → q.wp h J Q s) := by
  split_ifs with hc <;> simp [hc]

/-- The loop rule. `Inv xs a s` is what holds when `xs` is still to come: it holds at the start,
the body restores it for the rest of the list or leaves with the postcondition, and at the end of
the list it gives the postcondition. -/
theorem wp_loop {ρ : Type} {body : β → α → Prog I ε (α ⊕ ρ)} (Inv : List β → α → σ → Prop)
    {Q : Except ε (α ⊕ ρ) → σ → Prop}
    (hbody : ∀ x xs a t, Inv (x :: xs) a t → (body x a).wp h J (fun r u => match r with
      | .ok (.inl a') => Inv xs a' u
      | .ok (.inr b) => Q (.ok (.inr b)) u
      | .error e => Q (.error e) u) t)
    (hend : ∀ a t, Inv [] a t → Q (.ok (.inl a)) t) {xs : List β} {a : α} (h0 : Inv xs a s) :
    (loop body xs a).wp h J Q s := by
  induction xs generalizing a s with
  | nil => exact hend a s h0
  | cons x xs ih =>
    refine (wp_bind (body x a) _ Q).mpr (wp_mono ?_ (hbody x xs a s h0))
    rintro (e | a' | b) t ht
    · exact ht
    · exact ih ht
    · exact ht

/-- The rule of the loop that always goes to the end. -/
theorem wp_fold {body : β → α → Prog I ε α} (Inv : List β → α → σ → Prop)
    {Q : Except ε α → σ → Prop}
    (hbody : ∀ x xs a t, Inv (x :: xs) a t → (body x a).wp h J (fun r u => match r with
      | .ok a' => Inv xs a' u
      | .error e => Q (.error e) u) t)
    (hend : ∀ a t, Inv [] a t → Q (.ok a) t) {xs : List β} {a : α} (h0 : Inv xs a s) :
    (fold body xs a).wp h J Q s := by
  induction xs generalizing a s with
  | nil => exact hend a s h0
  | cons x xs ih =>
    refine (wp_bind (body x a) _ Q).mpr (wp_mono ?_ (hbody x xs a s h0))
    rintro (e | a') t ht
    · exact ht
    · exact ih ht

@[simp] theorem wp_ofExcept (x : Except ε α) (Q : Except ε α → σ → Prop) :
    (ofExcept x : Prog I ε α).wp h J Q s ↔ Q x s := by
  cases x <;> exact Iff.rfl

/-- A rule proved over one world holds in another that it simulates: `π` reads the simulating
world, and each of its calls is one that the simulated world could make. -/
theorem wp_of_simulates {φ' σ' : Type} {h' : Handler I φ' σ'} {J' : σ' → Prop} (π : σ → σ')
    (hsim : ∀ o c t, ∃ c', h' o c' (π t) = ((h o c t).1, π (h o c t).2)) {p : Prog I ε α}
    {Q : Except ε α → σ' → Prop} (hp : p.wp h' J' Q (π s)) :
    p.wp h (fun t => J' (π t)) (fun r t => Q r (π t)) s := by
  induction p generalizing s with
  | done a => exact hp
  | raise e => exact hp
  | call o k ih =>
    intro c
    obtain ⟨c', hc'⟩ := hsim o c s
    have hp' := hp c'
    rw [hc'] at hp'
    exact ⟨hp'.1, ih _ hp'.2⟩

/-- What every operation keeps, every program keeps. -/
theorem wp_of_keeps (hkeep : ∀ o c t, J t → J (h o c t).2) (p : Prog I ε α) (hs : J s) :
    p.wp h J (fun _ t => J t) s := by
  induction p generalizing s with
  | done a => exact hs
  | raise e => exact hs
  | call o k ih => exact fun c => ⟨hkeep o c s hs, ih _ (hkeep o c s hs)⟩

/-- The rule is sound: a program that satisfies it ends every run as it says, and satisfies the
invariant after every call of the run. -/
theorem wp_sound {p : Prog I ε α} {Q : Except ε α → σ → Prop} (hp : p.wp h J Q s) (f : ℕ → φ) :
    Q (p.run h f s).result (p.run h f s).state ∧ ∀ t ∈ p.visits h f s, J t := by
  induction p generalizing f s with
  | done a => exact ⟨hp, by simp [visits]⟩
  | raise e => exact ⟨hp, by simp [visits]⟩
  | call o k ih =>
    obtain ⟨hJ, hk⟩ := hp (f 0)
    obtain ⟨hQ, hv⟩ := ih _ hk fun n => f (n + 1)
    refine ⟨hQ, fun t ht => ?_⟩
    rcases List.mem_cons.mp ht with rfl | ht
    · exact hJ
    · exact hv t ht

end Rules

/-! ## Runs in which every call is decided alike -/

/-- What the program returns or raises, and the state at the end, where every call is decided by `c`. -/
def eval (h : Handler I φ σ) (c : φ) : Prog I ε α → σ → Except ε α × σ
  | .done a, s => (.ok a, s)
  | .raise e, s => (.error e, s)
  | .call o k, s => (k (h o c s).1).eval h c (h o c s).2

section Eval

variable {h : Handler I φ σ} {c : φ} {s : σ}

theorem run_const (p : Prog I ε α) :
    ((p.run h (fun _ => c) s).result, (p.run h (fun _ => c) s).state) = p.eval h c s := by
  induction p generalizing s with
  | done a => rfl
  | raise e => rfl
  | call o k ih => exact ih _

@[simp] theorem eval_pure (a : α) : (pure a : Prog I ε α).eval h c s = (.ok a, s) := rfl

@[simp] theorem eval_done (a : α) : (Prog.done a : Prog I ε α).eval h c s = (.ok a, s) := rfl

@[simp] theorem eval_call (o : I.Op) (k : I.Ans o → Prog I ε α) :
    (Prog.call o k).eval h c s = (k (h o c s).1).eval h c (h o c s).2 := rfl

/-- Sequencing. -/
theorem eval_bind {p : Prog I ε α} {f : α → Prog I ε β} {a : α} {t : σ}
    (hp : p.eval h c s = (.ok a, t)) : (p >>= f).eval h c s = (f a).eval h c t := by
  induction p generalizing s with
  | done b =>
    rw [eval_done, Prod.mk.injEq, Except.ok.injEq] at hp
    obtain ⟨rfl, rfl⟩ := hp
    rfl
  | raise e => cases hp
  | call o k ih => exact ih _ hp

/-- The loop that always goes to the end, by what one pass does. -/
theorem eval_fold {body : β → α → Prog I ε α} {g : α × σ → β → α × σ}
    (hbody : ∀ x a s, (body x a).eval h c s = (.ok (g (a, s) x).1, (g (a, s) x).2)) (xs : List β)
    (a : α) : (fold body xs a).eval h c s =
      (.ok (xs.foldl g (a, s)).1, (xs.foldl g (a, s)).2) := by
  induction xs generalizing a s with
  | nil => rfl
  | cons x xs ih => exact (eval_bind (hbody x a s)).trans (ih _)

/-- Where every call is decided by `c`, the program returns a value, which ends with the state in `Q`. -/
def Gives (h : Handler I φ σ) (c : φ) (p : Prog I ε α) (Q : α → σ → Prop) (s : σ) : Prop :=
  ∃ a t, p.eval h c s = (.ok a, t) ∧ Q a t

variable {p : Prog I ε α} {Q : α → σ → Prop}

theorem gives_pure {a : α} (ha : Q a s) : (pure a : Prog I ε α).Gives h c Q s := ⟨a, s, rfl, ha⟩

theorem gives_call {o : I.Op} {k : I.Ans o → Prog I ε α}
    (hk : (k (h o c s).1).Gives h c Q (h o c s).2) : (Prog.call o k).Gives h c Q s := hk

theorem Gives.mono {Q' : α → σ → Prop} (hp : p.Gives h c Q s) (hQ : ∀ a t, Q a t → Q' a t) :
    p.Gives h c Q' s := by
  obtain ⟨a, t, heval, ha⟩ := hp
  exact ⟨a, t, heval, hQ a t ha⟩

theorem Gives.bind {f : α → Prog I ε β} {R : β → σ → Prop} (hp : p.Gives h c Q s)
    (hf : ∀ a t, Q a t → (f a).Gives h c R t) : (p >>= f).Gives h c R s := by
  obtain ⟨a, t, heval, ha⟩ := hp
  obtain ⟨b, u, hb, hR⟩ := hf a t ha
  exact ⟨b, u, (eval_bind heval).trans hb, hR⟩

/-- What raises nothing is handed to no handler. -/
theorem Gives.handle {g : ε → Prog I ε' α} (hp : p.Gives h c Q s) : (p.handle g).Gives h c Q s := by
  obtain ⟨a, t, heval, ha⟩ := hp
  refine ⟨a, t, ?_, ha⟩
  induction p generalizing s with
  | done b =>
    rw [eval_done, Prod.mk.injEq, Except.ok.injEq] at heval
    obtain ⟨rfl, rfl⟩ := heval
    rfl
  | raise e => cases heval
  | call o k ih => exact ih _ heval

end Eval

/-! ## Programs by what they call and return -/

/-- Whatever the answers are, the program calls only operations in `A` and returns only values in
`P`. -/
def Within (A : I.Op → Prop) (P : α → Prop) : Prog I ε α → Prop
  | .done a => P a
  | .raise _ => True
  | .call o k => A o ∧ ∀ a, (k a).Within A P

section Within

variable {A A' : I.Op → Prop} {P P' : α → Prop}

@[simp] theorem within_pure (a : α) : (pure a : Prog I ε α).Within A P ↔ P a := Iff.rfl

@[simp] theorem within_done (a : α) : (Prog.done a : Prog I ε α).Within A P ↔ P a := Iff.rfl

@[simp] theorem within_raise (e : ε) : (Prog.raise e : Prog I ε α).Within A P ↔ True := Iff.rfl

@[simp] theorem within_call (o : I.Op) (k : I.Ans o → Prog I ε α) :
    (Prog.call o k).Within A P ↔ A o ∧ ∀ a, (k a).Within A P := Iff.rfl

@[simp] theorem within_ite (c : Prop) [Decidable c] (p q : Prog I ε α) :
    (if c then p else q).Within A P ↔ (c → p.Within A P) ∧ (¬ c → q.Within A P) := by
  split_ifs with hc <;> simp [hc]

@[simp] theorem within_ofExcept (x : Except ε α) :
    (ofExcept x : Prog I ε α).Within A P ↔ ∀ a, x = .ok a → P a := by
  cases x <;> simp [ofExcept]

theorem Within.mono {p : Prog I ε α} (hp : p.Within A P) (hA : ∀ o, A o → A' o)
    (hP : ∀ a, P a → P' a) : p.Within A' P' := by
  induction p with
  | done a => exact hP a hp
  | raise e => trivial
  | call o k ih => exact ⟨hA o hp.1, fun a => ih a (hp.2 a)⟩

theorem Within.and {p : Prog I ε α} (hp : p.Within A P) (hp' : p.Within A' P') :
    p.Within A fun a => P a ∧ P' a := by
  induction p with
  | done a => exact ⟨hp, hp'⟩
  | raise e => trivial
  | call o k ih => exact ⟨hp.1, fun a => ih a (hp.2 a) (hp'.2 a)⟩

theorem Within.bind {p : Prog I ε α} {f : α → Prog I ε β} {R : β → Prop} (hp : p.Within A P)
    (hf : ∀ a, P a → (f a).Within A R) : (p >>= f).Within A R := by
  induction p with
  | done a => exact hf a hp
  | raise e => trivial
  | call o k ih => exact ⟨hp.1, fun a => ih a (hp.2 a)⟩

theorem Within.handle {p : Prog I ε α} {g : ε → Prog I ε' α} (hp : p.Within A P)
    (hg : ∀ e, (g e).Within A P) : (p.handle g).Within A P := by
  induction p with
  | done a => exact hp
  | raise e => exact hg e
  | call o k ih => exact ⟨hp.1, fun a => ih a (hp.2 a)⟩

/-- A loop leaves with a value in `P` when each pass that leaves does. -/
theorem Within.loop {ρ : Type} {body : β → α → Prog I ε (α ⊕ ρ)} {Q : ρ → Prop}
    (hbody : ∀ x a, (body x a).Within A (Sum.elim (fun _ => True) Q)) :
    ∀ xs a, (Prog.loop body xs a).Within A (Sum.elim (fun _ => True) Q)
  | [], _ => trivial
  | x :: xs, a => Within.bind (hbody x a) fun r hr => by
    cases r with
    | inl a' => exact Within.loop hbody xs a'
    | inr b => exact hr

/-- What each pass of a loop calls, the loop calls. -/
theorem Within.fold {body : β → α → Prog I ε α} {xs : List β}
    (hbody : ∀ x ∈ xs, ∀ a, (body x a).Within A fun _ => True) (a : α) :
    (Prog.fold body xs a).Within A fun _ => True := by
  induction xs generalizing a with
  | nil => trivial
  | cons x xs ih =>
    refine Within.bind (hbody x List.mem_cons_self a) fun a' _ => ?_
    exact ih (fun y hy => hbody y (List.mem_cons_of_mem x hy)) a'

/-- Every program calls some operations and returns some value. -/
theorem within_true (p : Prog I ε α) : p.Within (fun _ => True) fun _ => True := by
  induction p with
  | done a => trivial
  | raise e => trivial
  | call o k ih => exact ⟨trivial, ih⟩

/-- What the operations in `A` keep, a program that calls only these keeps. -/
theorem Within.wp {h : Handler I φ σ} {J : σ → Prop} {s : σ} {p : Prog I ε α}
    (hp : p.Within A P) (hkeep : ∀ o, A o → ∀ c t, J t → J (h o c t).2) (hs : J s) :
    p.wp h J (fun r t => J t ∧ ∀ a, r = .ok a → P a) s := by
  induction p generalizing s with
  | done a => exact ⟨hs, fun b hb => Except.ok.inj hb ▸ hp⟩
  | raise e => exact ⟨hs, by simp⟩
  | call o k ih =>
    intro c
    have hJ : J (h o c s).2 := hkeep o hp.1 c s hs
    exact ⟨hJ, ih _ (hp.2 _) hJ⟩

end Within

/-! ## Programs that keep an invariant -/

/-- Whatever the environment decides, the invariant holds after each call, and what is returned is in `P`. -/
def Keeps (h : Handler I φ σ) (J : σ → Prop) (p : Prog I ε α) (P : α → Prop) : Prop :=
  ∀ s, J s → p.wp h J (fun r t => J t ∧ ∀ a, r = .ok a → P a) s

section Keeps

variable {h : Handler I φ σ} {J : σ → Prop} {P : α → Prop} {p : Prog I ε α}

theorem keeps_pure {a : α} (ha : P a) : (pure a : Prog I ε α).Keeps h J P :=
  fun _ hs => ⟨hs, fun _ hb => Except.ok.inj hb ▸ ha⟩

theorem keeps_raise {e : ε} : (Prog.raise e : Prog I ε α).Keeps h J P := fun _ hs => ⟨hs, nofun⟩

theorem keeps_ofExcept {x : Except ε α} (hx : ∀ a, x = .ok a → P a) :
    (ofExcept x : Prog I ε α).Keeps h J P := by
  cases x with
  | ok a => exact keeps_pure (hx a rfl)
  | error e => exact keeps_raise

theorem keeps_call {o : I.Op} {k : I.Ans o → Prog I ε α}
    (hk : ∀ c s, J s → J (h o c s).2 ∧ (k (h o c s).1).Keeps h J P) :
    (Prog.call o k).Keeps h J P :=
  fun s hs c => ⟨(hk c s hs).1, (hk c s hs).2 _ (hk c s hs).1⟩

theorem Keeps.bind {f : α → Prog I ε β} {R : β → Prop} (hp : p.Keeps h J P)
    (hf : ∀ a, P a → (f a).Keeps h J R) : (p >>= f).Keeps h J R := by
  intro s hs
  refine (wp_bind p f _).mpr (wp_mono ?_ (hp s hs))
  rintro (e | a) t ⟨ht, ha⟩
  · exact ⟨ht, nofun⟩
  · exact hf a (ha a rfl) t ht

theorem Keeps.handle {g : ε → Prog I ε' α} (hp : p.Keeps h J P) (hg : ∀ e, (g e).Keeps h J P) :
    (p.handle g).Keeps h J P := by
  intro s hs
  refine (wp_handle p g _).mpr (wp_mono ?_ (hp s hs))
  rintro (e | a) t ⟨ht, ha⟩
  · exact hg e t ht
  · exact ⟨ht, fun b hb => Except.ok.inj hb ▸ ha a rfl⟩

theorem Keeps.fold {body : β → α → Prog I ε α} {xs : List β} {a : α}
    (hbody : ∀ x ∈ xs, ∀ a, P a → (body x a).Keeps h J P) (ha : P a) :
    (Prog.fold body xs a).Keeps h J P := by
  induction xs generalizing a with
  | nil => exact keeps_pure ha
  | cons x xs ih =>
    refine Keeps.bind (hbody x List.mem_cons_self a ha) fun a' ha' => ?_
    exact ih (fun y hy => hbody y (List.mem_cons_of_mem x hy)) ha'

theorem Keeps.mono {P' : α → Prop} (hp : p.Keeps h J P) (hP : ∀ a, P a → P' a) : p.Keeps h J P' :=
  fun s hs => wp_mono (fun _ _ hr => ⟨hr.1, fun a ha => hP a (hr.2 a ha)⟩) (hp s hs)

end Keeps

/-! ## Runs under an assumption about the environment -/

/-- The handler, with the decisions that `A` holds of. -/
def under (h : Handler I φ σ) (A : φ → Prop) : Handler I {c // A c} σ :=
  fun o c s => h o c.1 s

theorem run_under (h : Handler I φ σ) (A : φ → Prop) (p : Prog I ε α) (f : ℕ → {c // A c})
    (s : σ) : (p.run (under h A) f s).result = (p.run h (fun n => (f n).1) s).result ∧
      (p.run (under h A) f s).state = (p.run h (fun n => (f n).1) s).state := by
  induction p generalizing f s with
  | done a => exact ⟨rfl, rfl⟩
  | raise e => exact ⟨rfl, rfl⟩
  | call o k ih => exact ih _ (fun n => f (n + 1)) _

theorem visits_under (h : Handler I φ σ) (A : φ → Prop) (p : Prog I ε α) (f : ℕ → {c // A c})
    (s : σ) : p.visits (under h A) f s = p.visits h (fun n => (f n).1) s := by
  induction p generalizing f s with
  | done a => rfl
  | raise e => rfl
  | call o k ih => exact congrArg _ (ih _ (fun n => f (n + 1)) _)

/-- The rule under an assumption is sound for the runs whose decisions all meet it. -/
theorem wp_under_sound {h : Handler I φ σ} {A : φ → Prop} {J : σ → Prop} {s : σ}
    {p : Prog I ε α} {Q : Except ε α → σ → Prop} (hp : p.wp (under h A) J Q s) (f : ℕ → φ)
    (hf : ∀ n, A (f n)) :
    Q (p.run h f s).result (p.run h f s).state ∧ ∀ t ∈ p.visits h f s, J t := by
  have hrun := run_under h A p (fun n => ⟨f n, hf n⟩) s
  have hvisits := visits_under h A p (fun n => ⟨f n, hf n⟩) s
  have hsound := wp_sound hp fun n => ⟨f n, hf n⟩
  rw [hrun.1, hrun.2, hvisits] at hsound
  exact hsound

/-! ## Programs that end in a postcondition -/

/-- Whatever the environment decides, where the program returns a value it ends with the value and the
state in `Q`. -/
def Ends (h : Handler I φ σ) (p : Prog I ε α) (Q : α → σ → Prop) (s : σ) : Prop :=
  p.wp h (fun _ => True) (fun r t => ∀ a, r = .ok a → Q a t) s

section Ends

variable {h : Handler I φ σ} {s : σ} {p : Prog I ε α} {Q Q' : α → σ → Prop}

@[simp] theorem ends_pure (a : α) : (pure a : Prog I ε α).Ends h Q s ↔ Q a s := by
  simp [Ends]

/-- A call ends as its answer does, whatever the environment decides. -/
theorem Ends.call {o : I.Op} {k : I.Ans o → Prog I ε α}
    (hk : ∀ c, (k (h o c s).1).Ends h Q (h o c s).2) : (Prog.call o k).Ends h Q s :=
  fun c => ⟨trivial, hk c⟩

theorem Ends.mono (hp : p.Ends h Q s) (hQ : ∀ a t, Q a t → Q' a t) : p.Ends h Q' s :=
  wp_mono (fun _ t hr a ha => hQ a t (hr a ha)) hp

/-- Sequencing: the second program is judged from where the first one ends. -/
theorem Ends.bind {f : α → Prog I ε β} {R : β → σ → Prop} (hp : p.Ends h Q s)
    (hf : ∀ a t, Q a t → (f a).Ends h R t) : (p >>= f).Ends h R s := by
  refine (wp_bind p f _).mpr (wp_mono ?_ hp)
  rintro (e | a) t hQ
  · exact fun b hb => nomatch hb
  · exact hf a t (hQ a rfl)

/-- The rule of the loop that always goes to the end: `Inv` holds at the start, and each pass keeps
it. -/
theorem Ends.fold {body : β → α → Prog I ε α} {Inv : α → σ → Prop} {xs : List β} {a : α}
    (hbody : ∀ x ∈ xs, ∀ a t, Inv a t → (body x a).Ends h Inv t) (h0 : Inv a s) :
    (Prog.fold body xs a).Ends h Inv s := by
  induction xs generalizing a s with
  | nil => exact (ends_pure a).mpr h0
  | cons x xs ih =>
    refine Ends.bind (hbody x List.mem_cons_self a s h0) fun a' t ht => ?_
    exact ih (fun y hy => hbody y (List.mem_cons_of_mem x hy)) ht

/-- The rule is sound for the runs whose decisions all meet an assumption. -/
theorem Ends.sound {h : Handler I φ σ} {A : φ → Prop} (hp : p.Ends (under h A) Q s) (f : ℕ → φ)
    (hf : ∀ n, A (f n)) {a : α} (ha : (p.run h f s).result = .ok a) :
    Q a (p.run h f s).state :=
  (wp_under_sound hp f hf).1 a ha

end Ends

/-! ## Some run -/

/-- The environment can decide so that `Q` holds of what the program returns or raises and of the
state at the end. -/
def may (h : Handler I φ σ) : Prog I ε α → (Except ε α → σ → Prop) → σ → Prop
  | .done a, Q, s => Q (.ok a) s
  | .raise e, Q, s => Q (.error e) s
  | .call o k, Q, s => ∃ c, (k (h o c s).1).may h Q (h o c s).2

section May

variable {h : Handler I φ σ} {s : σ}

@[simp] theorem may_pure (a : α) (Q : Except ε α → σ → Prop) :
    (pure a : Prog I ε α).may h Q s ↔ Q (.ok a) s := Iff.rfl

@[simp] theorem may_done (a : α) (Q : Except ε α → σ → Prop) :
    (Prog.done a : Prog I ε α).may h Q s ↔ Q (.ok a) s := Iff.rfl

@[simp] theorem may_call (o : I.Op) (k : I.Ans o → Prog I ε α) (Q : Except ε α → σ → Prop) :
    (Prog.call o k).may h Q s ↔ ∃ c, (k (h o c s).1).may h Q (h o c s).2 := Iff.rfl

@[simp] theorem may_bind (p : Prog I ε α) (f : α → Prog I ε β) (Q : Except ε β → σ → Prop) :
    (p >>= f).may h Q s ↔
      p.may h (fun r t => match r with
        | .ok a => (f a).may h Q t
        | .error e => Q (.error e) t) s := by
  induction p generalizing s with
  | done a => exact Iff.rfl
  | raise e => exact Iff.rfl
  | call o k ih => exact exists_congr fun c => ih _

@[simp] theorem may_handle (p : Prog I ε α) (g : ε → Prog I ε' α) (Q : Except ε' α → σ → Prop) :
    (p.handle g).may h Q s ↔
      p.may h (fun r t => match r with
        | .ok a => Q (.ok a) t
        | .error e => (g e).may h Q t) s := by
  induction p generalizing s with
  | done a => exact Iff.rfl
  | raise e => exact Iff.rfl
  | call o k ih => exact exists_congr fun c => ih _

@[simp] theorem may_ofExcept (x : Except ε α) (Q : Except ε α → σ → Prop) :
    (ofExcept x : Prog I ε α).may h Q s ↔ Q x s := by
  cases x <;> exact Iff.rfl

theorem may_mono {p : Prog I ε α} {Q Q' : Except ε α → σ → Prop} (hQ : ∀ r t, Q r t → Q' r t)
    (hp : p.may h Q s) : p.may h Q' s := by
  induction p generalizing s with
  | done a => exact hQ _ _ hp
  | raise e => exact hQ _ _ hp
  | call o k ih => exact hp.imp fun c => ih _

/-- There is such a run. -/
theorem may_sound [Inhabited φ] {p : Prog I ε α} {Q : Except ε α → σ → Prop}
    (hp : p.may h Q s) : ∃ f, Q (p.run h f s).result (p.run h f s).state := by
  induction p generalizing s with
  | done a => exact ⟨fun _ => default, hp⟩
  | raise e => exact ⟨fun _ => default, hp⟩
  | call o k ih =>
    obtain ⟨c, hc⟩ := hp
    obtain ⟨f, hf⟩ := ih _ hc
    -- the decision for this call, and then those for the rest
    let g : ℕ → φ
      | 0 => c
      | n + 1 => f n
    exact ⟨g, hf⟩

/-- There is such a run under an assumption about the environment. -/
theorem may_under_sound [Inhabited φ] {A : φ → Prop} (hA : A default) {p : Prog I ε α}
    {Q : Except ε α → σ → Prop} (hp : p.may (under h A) Q s) :
    ∃ f : ℕ → φ, (∀ n, A (f n)) ∧ Q (p.run h f s).result (p.run h f s).state := by
  have : Inhabited {c // A c} := ⟨⟨default, hA⟩⟩
  obtain ⟨f, hf⟩ := may_sound hp
  have hrun := run_under h A p f s
  rw [hrun.1, hrun.2] at hf
  exact ⟨fun n => (f n).1, fun n => (f n).2, hf⟩

end May

end Prog

end JenKea
