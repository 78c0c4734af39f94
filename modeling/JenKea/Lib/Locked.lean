import JenKea.Lib.Prog
import Mathlib.Data.List.Induction

/-!
# A program under a lock

Many run one program on one state, each of them under a lock, and each can be killed at any call: the state is then cut
back to what a killed program leaves, and the lock is free. Between two runs the state may change in other ways. What
the rule for programs says of one run is said here of every interleaving.
-/

namespace JenKea.Locked

variable {I : Interface} {ε α φ ψ σ : Type}

/-- Where one who runs the program is. -/
inductive Phase (I : Interface) (ε α : Type) : Type
  | outside
  | inside (p : Prog I ε α)
  | ended (r : Except ε α)
  | killed

/-- The state, who has the lock, and where everybody is. -/
structure World (I : Interface) (ε α σ : Type) where
  shared : σ
  holder : Option ℕ
  procs : ℕ → Phase I ε α

/-- What can happen: one takes the lock, or is refused it; its program makes a call, which the environment decides; it
ends; it is killed; or, with nobody in the lock, the state changes in another way. -/
inductive Act (ε φ ψ : Type) : Type
  | enter (i : ℕ)
  | refuse (i : ℕ) (e : ε)
  | call (i : ℕ) (c : φ)
  | leave (i : ℕ)
  | kill (i : ℕ)
  | other (f : ψ)

/-- The program, what a killed one leaves, and the other changes. -/
structure System (I : Interface) (ε α φ ψ σ : Type) where
  handler : Handler I φ σ
  program : Prog I ε α
  cut : σ → σ
  other : ψ → σ → σ

namespace World

/-- One is elsewhere. -/
def go (w : World I ε α σ) (i : ℕ) (p : Phase I ε α) : World I ε α σ :=
  { w with procs := fun j => if j = i then p else w.procs j }

end World

/-- One step; one that cannot be taken changes nothing. -/
def step (sys : System I ε α φ ψ σ) (w : World I ε α σ) : Act ε φ ψ → World I ε α σ
  | .enter i =>
    match w.procs i, w.holder with
    | .outside, none => { w.go i (.inside sys.program) with holder := some i }
    | _, _ => w
  | .refuse i e =>
    match w.procs i with
    | .outside => w.go i (.ended (.error e))
    | _ => w
  | .call i c =>
    match w.procs i with
    | .inside (.call o k) =>
      { w.go i (.inside (k (sys.handler o c w.shared).1)) with shared := (sys.handler o c w.shared).2 }
    | _ => w
  | .leave i =>
    match w.procs i with
    | .inside (.done a) => { w.go i (.ended (.ok a)) with holder := none }
    | .inside (.raise e) => { w.go i (.ended (.error e)) with holder := none }
    | _ => w
  | .kill i =>
    match w.procs i with
    | .inside _ => { w.go i .killed with shared := sys.cut w.shared, holder := none }
    | .outside => w.go i .killed
    | _ => w
  | .other f =>
    match w.holder with
    | none => { w with shared := sys.other f w.shared }
    | some _ => w

/-- Steps, one after the other. -/
def run (sys : System I ε α φ ψ σ) (w : World I ε α σ) (acts : List (Act ε φ ψ)) : World I ε α σ :=
  acts.foldl (step sys) w

/-- Nobody has begun. -/
def start (s : σ) : World I ε α σ := ⟨s, none, fun _ => .outside⟩

/-- What is to be shown of one run: from a state between two runs it keeps `J` at each call, whatever the environment
decides, and ends between two runs again; a cut, and another change, lead there too; and what has come about once, and
with every run that returns, stays. -/
structure Rule (sys : System I ε α φ ψ σ) (between J done : σ → Prop) : Prop where
  program : ∀ s, between s →
    sys.program.wp sys.handler J (fun r t => between t ∧ ((∃ a, r = .ok a) → done t)) s
  inside : ∀ s, between s → J s
  cut : ∀ s, J s → between (sys.cut s)
  other : ∀ f s, between s → between (sys.other f s)
  call_done : ∀ o c s, done s → done (sys.handler o c s).2
  cut_done : ∀ s, done s → done (sys.cut s)
  other_done : ∀ f s, done s → done (sys.other f s)

/-- What holds after every step. -/
structure Inv (sys : System I ε α φ ψ σ) (between J done : σ → Prop) (w : World I ε α σ) : Prop where
  free : w.holder = none → between w.shared
  held : ∀ i p, w.procs i = .inside p → w.holder = some i ∧ J w.shared ∧
    p.wp sys.handler J (fun r t => between t ∧ ((∃ a, r = .ok a) → done t)) w.shared
  holds : ∀ i, w.holder = some i → ∃ p, w.procs i = .inside p
  ended : ∀ i a, w.procs i = .ended (.ok a) → done w.shared

section Spec

variable {sys : System I ε α φ ψ σ} {between J done : σ → Prop} {w : World I ε α σ} {i j : ℕ} {p : Phase I ε α}

@[simp] theorem procs_go_self : (w.go i p).procs i = p := if_pos rfl

theorem procs_go_of_ne (h : j ≠ i) : (w.go i p).procs j = w.procs j := if_neg h

theorem inv_start {s : σ} (h : between s) : Inv sys between J done (start s : World I ε α σ) where
  free _ := h
  held i p hp := by cases hp
  holds i hi := by cases hi
  ended i a ha := by cases ha

/-- One that is outside the lock stays there. -/
theorem Inv.aside (h : Inv sys between J done w) (hcall : w.procs i = .outside) (hinside : ∀ q, p ≠ .inside q)
    (hended : ∀ a, p ≠ .ended (.ok a)) : Inv sys between J done (w.go i p) where
  free := h.free
  held j q hq := by
    by_cases hj : j = i
    · subst hj
      rw [procs_go_self] at hq
      exact absurd hq (hinside q)
    · rw [procs_go_of_ne hj] at hq
      exact h.held j q hq
  holds j hj := by
    obtain ⟨q, hq⟩ := h.holds j hj
    have hne : j ≠ i := by
      rintro rfl
      rw [hcall] at hq
      cases hq
    exact ⟨q, (procs_go_of_ne hne).trans hq⟩
  ended j a ha := by
    by_cases hj : j = i
    · subst hj
      rw [procs_go_self] at ha
      exact absurd ha (hended a)
    · rw [procs_go_of_ne hj] at ha
      exact h.ended j a ha

/-- Nobody else is inside. -/
theorem Inv.alone (h : Inv sys between J done w) {q q' : Prog I ε α} (hi : w.procs i = .inside q)
    (hj : w.procs j = .inside q') : j = i :=
  Option.some.inj ((h.held j q' hj).1.symm.trans (h.held i q hi).1)

/-- The one inside goes out, and leaves the state as between two runs. -/
theorem Inv.goes (h : Inv sys between J done w) {q : Prog I ε α} {t : σ} (hcall : w.procs i = .inside q)
    (hp : ∀ q, p ≠ .inside q) (hbetween : between t) (hdone : done w.shared → done t)
    (hended : ∀ a, p = .ended (.ok a) → done t) :
    Inv sys between J done { w.go i p with shared := t, holder := none } where
  free _ := hbetween
  held j q' hq' := by
    by_cases hj : j = i
    · subst hj
      rw [procs_go_self] at hq'
      exact absurd hq' (hp q')
    · rw [procs_go_of_ne hj] at hq'
      exact absurd (h.alone hcall hq') hj
  holds j hj := by cases hj
  ended j a ha := by
    by_cases hj : j = i
    · subst hj
      rw [procs_go_self] at ha
      exact hended a ha
    · rw [procs_go_of_ne hj] at ha
      exact hdone (h.ended j a ha)

theorem Inv.call (rule : Rule sys between J done) (h : Inv sys between J done w) {o : I.Op} {k : I.Ans o → Prog I ε α}
    (c : φ) (hcall : w.procs i = .inside (.call o k)) : Inv sys between J done
      { w.go i (.inside (k (sys.handler o c w.shared).1)) with shared := (sys.handler o c w.shared).2 } := by
  obtain ⟨hholder, -, hwp⟩ := h.held i _ hcall
  obtain ⟨hJ, hwp⟩ := hwp c
  refine ⟨fun hfree => ?_, fun j q hq => ?_, fun j hj => ?_, fun j a ha => ?_⟩
  · have hnone : w.holder = none := hfree
    rw [hholder] at hnone
    cases hnone
  · by_cases hj : j = i
    · subst hj
      rw [procs_go_self] at hq
      obtain rfl := Phase.inside.inj hq
      exact ⟨hholder, hJ, hwp⟩
    · rw [procs_go_of_ne hj] at hq
      exact absurd (h.alone hcall hq) hj
  · obtain rfl : i = j := Option.some.inj (hholder.symm.trans hj)
    exact ⟨_, procs_go_self⟩
  · have hj : j ≠ i := by
      rintro rfl
      rw [procs_go_self] at ha
      cases ha
    rw [procs_go_of_ne hj] at ha
    exact rule.call_done o c _ (h.ended j a ha)

theorem Inv.enter (rule : Rule sys between J done) (h : Inv sys between J done w) (hcall : w.procs i = .outside)
    (hfree : w.holder = none) : Inv sys between J done { w.go i (.inside sys.program) with holder := some i } := by
  have hnobody : ∀ j q, w.procs j ≠ .inside q := by
    intro j q hq
    have hholder := (h.held j q hq).1
    rw [hfree] at hholder
    cases hholder
  refine ⟨fun hnone => (by cases hnone), fun j q hq => ?_, fun j hj => ?_, fun j a ha => ?_⟩
  · by_cases hj : j = i
    · subst hj
      rw [procs_go_self] at hq
      obtain rfl := Phase.inside.inj hq
      exact ⟨rfl, rule.inside _ (h.free hfree), rule.program _ (h.free hfree)⟩
    · rw [procs_go_of_ne hj] at hq
      exact absurd hq (hnobody j q)
  · obtain rfl : i = j := Option.some.inj hj
    exact ⟨_, procs_go_self⟩
  · have hj : j ≠ i := by
      rintro rfl
      rw [procs_go_self] at ha
      cases ha
    rw [procs_go_of_ne hj] at ha
    exact h.ended j a ha

/-- Every step keeps it. -/
theorem Inv.step (rule : Rule sys between J done) (h : Inv sys between J done w) (a : Act ε φ ψ) :
    Inv sys between J done (step sys w a) := by
  cases a with
  | enter i =>
    dsimp only [Locked.step]
    cases hcall : w.procs i with
    | outside =>
      cases hholder : w.holder with
      | none => exact h.enter rule hcall hholder
      | some _ => exact h
    | _ => exact h
  | refuse i e =>
    dsimp only [Locked.step]
    cases hcall : w.procs i with
    | outside => exact h.aside hcall (fun _ hq => (by cases hq)) fun _ ha => (by cases ha)
    | _ => exact h
  | call i c =>
    dsimp only [Locked.step]
    cases hcall : w.procs i with
    | inside p =>
      cases p with
      | call o k => exact h.call rule c hcall
      | _ => exact h
    | _ => exact h
  | leave i =>
    dsimp only [Locked.step]
    cases hcall : w.procs i with
    | inside p =>
      cases p with
      | done a =>
        obtain ⟨hbetween, hdone⟩ := (h.held i _ hcall).2.2
        exact h.goes hcall (fun _ hq => (by cases hq)) hbetween id fun _ _ => hdone ⟨a, rfl⟩
      | raise e =>
        obtain ⟨hbetween, -⟩ := (h.held i _ hcall).2.2
        exact h.goes hcall (fun _ hq => (by cases hq)) hbetween id fun _ ha => (by cases ha)
      | call o k => exact h
    | _ => exact h
  | kill i =>
    dsimp only [Locked.step]
    cases hcall : w.procs i with
    | inside p =>
      have hcut := rule.cut _ (h.held i p hcall).2.1
      exact h.goes hcall (fun _ hq => (by cases hq)) hcut (rule.cut_done _) fun _ ha => (by cases ha)
    | outside => exact h.aside hcall (fun _ hq => (by cases hq)) fun _ ha => (by cases ha)
    | _ => exact h
  | other f =>
    dsimp only [Locked.step]
    cases hholder : w.holder with
    | none =>
      refine ⟨fun _ => rule.other f _ (h.free hholder), fun i p hp => ?_, fun i hi => (by cases hi), fun i a ha => ?_⟩
      · have hheld := (h.held i p hp).1
        rw [hholder] at hheld
        cases hheld
      · exact rule.other_done f _ (h.ended i a ha)
    | some _ => exact h

/-- Every interleaving keeps it. -/
theorem inv_run (rule : Rule sys between J done) {s : σ} (hs : between s) {acts : List (Act ε φ ψ)} :
    Inv sys between J done (run sys (start s) acts) := by
  induction acts using List.reverseRecOn with
  | nil => exact inv_start hs
  | append_singleton acts a ih =>
    unfold run at ih ⊢
    rw [List.foldl_append]
    exact ih.step rule a

/-- Somebody is inside, and the state as within a run, or nobody is, and it is as between two. -/
theorem Inv.state (rule : Rule sys between J done) (h : Inv sys between J done w) : J w.shared := by
  cases hholder : w.holder with
  | none => exact rule.inside _ (h.free hholder)
  | some i =>
    obtain ⟨p, hp⟩ := h.holds i hholder
    exact (h.held i p hp).2.1

end Spec

end JenKea.Locked
