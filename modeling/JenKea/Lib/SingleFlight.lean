import JenKea.Lib.Map

/-!
# One read for many requests

Requests for what is slow to read, by calls that run at the same time. A call looks in a cache, under a lock; where an
answer that is kept there does not answer it, it reads itself, unless another call reads for the same flight: then it
waits for that one to end, and looks again. An answer is kept under the lock, unless the cache was cleared since the read
began. The steps of the calls, and of what is read, come in any order.
-/

namespace JenKea.SingleFlight

/-- What is asked, and which answer that is kept answers it. -/
structure Rule (κ γ α ρ : Type) where
  /-- requests of one flight wait for one another -/
  flight : α → κ
  /-- where the answer to a request is kept -/
  slot : α → γ
  /-- a kept answer of this age, to the first request, answers the second -/
  fresh : ℕ → α → ρ → α → Bool
  /-- what a kept answer answers -/
  cut : ρ → α → ρ
  /-- a cache with more answers is emptied before another is kept -/
  room : ℕ

/-- A read: for whom, under which generation of the cache it began, when, and what it gave. -/
structure Read (α ρ : Type) where
  call : ℕ
  ask : α
  generation : ℕ
  moment : ℕ
  result : ρ

/-- An answer in the cache, and when it was kept. -/
structure Kept (α ρ : Type) where
  time : ℕ
  read : Read α ρ

/-- An answer of a call: what was asked, under which generation, the read that it is of, and for an answer of the cache
when it was kept and when it was found. -/
structure Given (α ρ : Type) where
  ask : α
  since : ℕ
  value : ρ
  read : Read α ρ
  found : Option (ℕ × ℕ)

/-- Where a call is. -/
inductive Phase (α ρ : Type)
  | idle
  | looking (ask : α) (since : ℕ)
  | waiting (ask : α) (since leader : ℕ)
  | reading (ask : α) (since generation : ℕ)
  | readDone (since : ℕ) (read : Read α ρ)
  | leaving (ask : α) (answer : Option (Given α ρ))
  | left (answer : Option (Given α ρ))
  | ended (answer : Option (Given α ρ))

/-- The cache, the flights and the calls. -/
structure State (κ γ α ρ : Type) where
  clock : ℕ
  generation : ℕ
  reads : ℕ
  cache : Map γ (Kept α ρ)
  flying : Map κ ℕ
  done : ℕ → Bool
  calls : ℕ → Phase α ρ

/-- What can happen. -/
inductive Act (α : Type)
  | call (i : ℕ) (ask : α)
  | look (i : ℕ)
  | wake (i : ℕ)
  | answer (i : ℕ)
  | keep (i : ℕ)
  | leave (i : ℕ)
  | signal (i : ℕ)
  | clear
  | tick (n : ℕ)

section Model

variable {κ γ α ρ : Type} [DecidableEq κ] [DecidableEq γ]

/-- Nothing was asked. -/
def State.start : State κ γ α ρ := ⟨0, 0, 0, .empty, .empty, fun _ => false, fun _ => .idle⟩

/-- The call is elsewhere. -/
def State.go (s : State κ γ α ρ) (i : ℕ) (p : Phase α ρ) : State κ γ α ρ :=
  { s with calls := fun j => if j = i then p else s.calls j }

/-- The answer of the cache to a request. -/
def State.hit (rule : Rule κ γ α ρ) (s : State κ γ α ρ) (ask : α) : Option (Kept α ρ) :=
  (s.cache.get (rule.slot ask)).filter fun k => rule.fresh (s.clock - k.time) k.read.ask k.read.result ask

/-- A look in the cache, and at the flights. -/
def State.look (rule : Rule κ γ α ρ) (s : State κ γ α ρ) (i : ℕ) (ask : α) (since : ℕ) : State κ γ α ρ :=
  match s.hit rule ask with
  | some k => s.go i (.ended (some ⟨ask, since, rule.cut k.read.result ask, k.read, some (k.time, s.clock)⟩))
  | none =>
    match s.flying.get (rule.flight ask) with
    | some j => s.go i (.waiting ask since j)
    | none =>
      { s.go i (.reading ask since s.generation) with flying := s.flying.put (rule.flight ask) i }

/-- An answer is kept, if the cache was not cleared since its read began. -/
def State.keep (rule : Rule κ γ α ρ) (s : State κ γ α ρ) (r : Read α ρ) : Map γ (Kept α ρ) :=
  if r.generation = s.generation then
    (if rule.room < s.cache.entries.length then .empty else s.cache).put (rule.slot r.ask) ⟨s.clock, r⟩
  else s.cache

/-- One step; one that cannot be taken changes nothing. What a read gives, or that it raises, is `host`'s to say. -/
def step (rule : Rule κ γ α ρ) (host : ℕ → ℕ → α → Option ρ) (s : State κ γ α ρ) : Act α → State κ γ α ρ
  | .call i ask =>
    match s.calls i with
    | .idle => s.go i (.looking ask s.generation)
    | _ => s
  | .look i =>
    match s.calls i with
    | .looking ask since => s.look rule i ask since
    | _ => s
  | .wake i =>
    match s.calls i with
    | .waiting ask since j => if s.done j then s.go i (.looking ask since) else s
    | _ => s
  | .answer i =>
    match s.calls i with
    | .reading ask since generation =>
      match host s.clock i ask with
      | some result => s.go i (.readDone since ⟨i, ask, generation, s.clock, result⟩)
      | none => s.go i (.leaving ask none)
    | _ => s
  | .keep i =>
    match s.calls i with
    | .readDone since r =>
      { s.go i (.leaving r.ask (some ⟨r.ask, since, r.result, r, none⟩)) with
        reads := s.reads + 1
        cache := s.keep rule r }
    | _ => s
  | .leave i =>
    match s.calls i with
    | .leaving ask answer => { s.go i (.left answer) with flying := s.flying.erase (rule.flight ask) }
    | _ => s
  | .signal i =>
    match s.calls i with
    | .left answer => { s.go i (.ended answer) with done := fun j => if j = i then true else s.done j }
    | _ => s
  | .clear => { s with cache := .empty, generation := s.generation + 1 }
  | .tick n => { s with clock := s.clock + n }

/-- Steps, one after the other. -/
def run (rule : Rule κ γ α ρ) (host : ℕ → ℕ → α → Option ρ) (s : State κ γ α ρ) (acts : List (Act α)) :
    State κ γ α ρ :=
  acts.foldl (step rule host) s

end Model

/-! ## What holds after every run -/

section Spec

variable {κ γ α ρ : Type} [DecidableEq κ] [DecidableEq γ] {rule : Rule κ γ α ρ} {host : ℕ → ℕ → α → Option ρ}
  {s : State κ γ α ρ} {i j : ℕ} {p : Phase α ρ}

/-- The request that the call reads for: its flight is its own until it leaves. -/
def Phase.flies : Phase α ρ → Option α
  | .reading ask _ _ => some ask
  | .readDone _ r => some r.ask
  | .leaving ask _ => some ask
  | _ => none

/-- The call has left its flight, and not yet said so. -/
def Phase.isLeft : Phase α ρ → Bool
  | .left _ => true
  | _ => false

/-- The answer that a call has. -/
def Phase.answer : Phase α ρ → Option (Given α ρ)
  | .leaving _ a => a
  | .left a => a
  | .ended a => a
  | _ => none

/-- The read gave what was there to read, for a request, at a moment that has come. -/
structure Real (host : ℕ → ℕ → α → Option ρ) (r : Read α ρ) : Prop where
  result : host r.moment r.call r.ask = some r.result

/-- The answer is the call's own read's, or one that was kept and still answers it; its read began after the call, or
at least after every clearing of the cache before the call. -/
structure Sound (rule : Rule κ γ α ρ) (host : ℕ → ℕ → α → Option ρ) (g : Given α ρ) : Prop where
  real : Real host g.read
  since : g.since ≤ g.read.generation
  own : g.found = none → g.read.ask = g.ask ∧ g.value = g.read.result
  kept : ∀ x ∈ g.found, rule.slot g.read.ask = rule.slot g.ask ∧ g.value = rule.cut g.read.result g.ask ∧
    g.read.moment ≤ x.1 ∧ x.1 ≤ x.2 ∧ rule.fresh (x.2 - x.1) g.read.ask g.read.result g.ask = true

/-- What is true of one call, whatever the others do. -/
def Phase.Fine (rule : Rule κ γ α ρ) (host : ℕ → ℕ → α → Option ρ) (generation clock : ℕ) : Phase α ρ → Prop
  | .idle => True
  | .looking _ since => since ≤ generation
  | .waiting _ since _ => since ≤ generation
  | .reading _ since g => since ≤ g ∧ g ≤ generation
  | .readDone since r => since ≤ r.generation ∧ r.generation ≤ generation ∧ r.moment ≤ clock ∧ Real host r
  | .leaving _ a => ∀ g ∈ a, Sound rule host g
  | .left a => ∀ g ∈ a, Sound rule host g
  | .ended a => ∀ g ∈ a, Sound rule host g

/-- What is true after every run. -/
structure Inv (rule : Rule κ γ α ρ) (host : ℕ → ℕ → α → Option ρ) (s : State κ γ α ρ) : Prop where
  /-- the table of flights is the flights of the calls -/
  flying : ∀ k i, s.flying.get k = some i ↔ (s.calls i).flies.map rule.flight = some k
  /-- a call waits for one of its own flight, or for one that has left it -/
  waiting : ∀ i ask since j, s.calls i = .waiting ask since j →
    s.done j = true ∨ (s.calls j).isLeft = true ∨ (s.calls j).flies.map rule.flight = some (rule.flight ask)
  /-- the cache keeps what was read under its generation -/
  cache : ∀ c k, s.cache.get c = some k → k.read.generation = s.generation ∧ rule.slot k.read.ask = c ∧
    k.read.moment ≤ k.time ∧ k.time ≤ s.clock ∧ Real host k.read
  fine : ∀ i, (s.calls i).Fine rule host s.generation s.clock

/-! ### The steps keep it -/

omit [DecidableEq κ] [DecidableEq γ] in
@[simp] theorem calls_go_self : (s.go i p).calls i = p := if_pos rfl

omit [DecidableEq κ] [DecidableEq γ] in
theorem calls_go_of_ne (h : j ≠ i) : (s.go i p).calls j = s.calls j := if_neg h

omit [DecidableEq κ] [DecidableEq γ] in
/-- A call is fine under a later clock and generation. -/
theorem Phase.Fine.mono {generation generation' clock clock' : ℕ} (h : p.Fine rule host generation clock)
    (hgen : generation ≤ generation') (hclock : clock ≤ clock') : p.Fine rule host generation' clock' := by
  cases p with
  | idle => exact trivial
  | looking ask since => exact Nat.le_trans h hgen
  | waiting ask since j => exact Nat.le_trans h hgen
  | reading ask since g => exact ⟨h.1, Nat.le_trans h.2 hgen⟩
  | readDone since r => exact ⟨h.1, Nat.le_trans h.2.1 hgen, Nat.le_trans h.2.2.1 hclock, h.2.2.2⟩
  | leaving ask a => exact h
  | left a => exact h
  | ended a => exact h

theorem inv_start : Inv rule host (.start : State κ γ α ρ) where
  flying k i := ⟨fun h => (by cases h), fun h => (by cases h)⟩
  waiting i ask since j h := by cases h
  cache c k h := by cases h
  fine i := trivial

/-- One call moves, and stays in its flight if it is in one. -/
theorem Inv.go (h : Inv rule host s) (hflies : p.flies = (s.calls i).flies)
    (hleft : (s.calls i).isLeft = true → p.isLeft = true)
    (hwait : ∀ ask since j, p = .waiting ask since j →
      s.done j = true ∨ (s.calls j).isLeft = true ∨ (s.calls j).flies.map rule.flight = some (rule.flight ask))
    (hfine : p.Fine rule host s.generation s.clock) : Inv rule host (s.go i p) where
  flying k j := by
    have hold := h.flying k j
    by_cases hj : j = i
    · subst hj
      rw [calls_go_self, hflies]
      exact hold
    · rw [calls_go_of_ne hj]
      exact hold
  waiting j ask since l hl := by
    have hold : s.done l = true ∨ (s.calls l).isLeft = true ∨
        (s.calls l).flies.map rule.flight = some (rule.flight ask) := by
      by_cases hj : j = i
      · subst hj
        rw [calls_go_self] at hl
        exact hwait ask since l hl
      · rw [calls_go_of_ne hj] at hl
        exact h.waiting j ask since l hl
    by_cases hli : l = i
    · subst hli
      rw [calls_go_self, hflies]
      exact hold.imp_right (Or.imp_left hleft)
    · rw [calls_go_of_ne hli]
      exact hold
  cache := h.cache
  fine j := by
    by_cases hj : j = i
    · subst hj
      rw [calls_go_self]
      exact hfine
    · rw [calls_go_of_ne hj]
      exact h.fine j

/-- The flights are of one call each. -/
theorem Inv.flight_unique (h : Inv rule host s) {k : κ} (hi : (s.calls i).flies.map rule.flight = some k)
    (hj : (s.calls j).flies.map rule.flight = some k) : i = j :=
  Option.some.inj (((h.flying k i).mpr hi).symm.trans ((h.flying k j).mpr hj))

/-- A call takes a flight that no call has. -/
theorem Inv.lead (h : Inv rule host s) {ask : α} {since : ℕ} (hlook : s.calls i = .looking ask since)
    (hnone : s.flying.get (rule.flight ask) = none) :
    Inv rule host { s.go i (.reading ask since s.generation) with flying := s.flying.put (rule.flight ask) i } where
  flying k j := by
    dsimp only
    rw [Map.get_put]
    by_cases hj : j = i
    · subst hj
      rw [calls_go_self]
      by_cases hk : k = rule.flight ask
      · subst hk
        rw [if_pos rfl]
        exact ⟨fun _ => rfl, fun _ => rfl⟩
      · rw [if_neg hk, h.flying k j, hlook]
        exact ⟨fun hf => (by cases hf), fun hf => absurd (Option.some.inj hf).symm hk⟩
    · rw [calls_go_of_ne hj]
      by_cases hk : k = rule.flight ask
      · subst hk
        rw [if_pos rfl, ← h.flying, hnone]
        exact ⟨fun hf => absurd (Option.some.inj hf).symm hj, fun hf => (by cases hf)⟩
      · rw [if_neg hk]
        exact h.flying k j
  waiting j ask' since' l hl := by
    have hj : j ≠ i := by
      rintro rfl
      rw [calls_go_self] at hl
      cases hl
    rw [calls_go_of_ne hj] at hl
    by_cases hli : l = i
    · subst hli
      have hold := h.waiting j ask' since' l hl
      rw [hlook] at hold
      refine .inl (hold.resolve_right ?_)
      rintro (hleft | hflies)
      · cases hleft
      · cases hflies
    · rw [calls_go_of_ne hli]
      exact h.waiting j ask' since' l hl
  cache := h.cache
  fine j := by
    by_cases hj : j = i
    · subst hj
      rw [calls_go_self]
      have hfine := h.fine j
      rw [hlook] at hfine
      exact ⟨hfine, Nat.le_refl _⟩
    · rw [calls_go_of_ne hj]
      exact h.fine j

/-- A call leaves its flight. -/
theorem Inv.leave (h : Inv rule host s) {ask : α} {a : Option (Given α ρ)} (hcall : s.calls i = .leaving ask a) :
    Inv rule host { s.go i (.left a) with flying := s.flying.erase (rule.flight ask) } := by
  have hown : s.flying.get (rule.flight ask) = some i := by
    rw [h.flying, hcall]
    rfl
  refine ⟨fun k j => ?_, fun j ask' since' l hl => ?_, h.cache, fun j => ?_⟩
  · dsimp only
    rw [Map.get_erase]
    by_cases hk : k = rule.flight ask
    · subst hk
      rw [if_pos rfl]
      refine ⟨fun hf => (by cases hf), fun hf => ?_⟩
      by_cases hj : j = i
      · subst hj
        rw [calls_go_self] at hf
        cases hf
      · rw [calls_go_of_ne hj, ← h.flying, hown] at hf
        exact absurd (Option.some.inj hf).symm hj
    · rw [if_neg hk, h.flying]
      by_cases hj : j = i
      · subst hj
        rw [calls_go_self, hcall]
        exact ⟨fun hf => absurd (Option.some.inj hf).symm hk, fun hf => (by cases hf)⟩
      · rw [calls_go_of_ne hj]
  · have hj : j ≠ i := by
      rintro rfl
      rw [calls_go_self] at hl
      cases hl
    rw [calls_go_of_ne hj] at hl
    by_cases hli : l = i
    · subst hli
      rw [calls_go_self]
      exact .inr (.inl rfl)
    · rw [calls_go_of_ne hli]
      exact h.waiting j ask' since' l hl
  · by_cases hj : j = i
    · subst hj
      rw [calls_go_self]
      have hfine := h.fine j
      rwa [hcall] at hfine
    · rw [calls_go_of_ne hj]
      exact h.fine j

/-- A call that has left its flight says so. -/
theorem Inv.signal (h : Inv rule host s) {a : Option (Given α ρ)} (hcall : s.calls i = .left a) :
    Inv rule host { s.go i (.ended a) with done := fun j => if j = i then true else s.done j } where
  flying k j := by
    have hold := h.flying k j
    by_cases hj : j = i
    · subst hj
      rw [calls_go_self]
      rwa [hcall] at hold
    · rw [calls_go_of_ne hj]
      exact hold
  waiting j ask' since' l hl := by
    have hj : j ≠ i := by
      rintro rfl
      rw [calls_go_self] at hl
      cases hl
    rw [calls_go_of_ne hj] at hl
    by_cases hli : l = i
    · exact .inl (if_pos hli)
    · rw [calls_go_of_ne hli]
      dsimp only
      rw [if_neg hli]
      exact h.waiting j ask' since' l hl
  cache := h.cache
  fine j := by
    by_cases hj : j = i
    · subst hj
      rw [calls_go_self]
      have hfine := h.fine j
      rwa [hcall] at hfine
    · rw [calls_go_of_ne hj]
      exact h.fine j

/-- An answer is kept. -/
theorem Inv.withCache (h : Inv rule host s) {cache : Map γ (Kept α ρ)} {reads : ℕ}
    (hcache : ∀ c k, cache.get c = some k → k.read.generation = s.generation ∧ rule.slot k.read.ask = c ∧
      k.read.moment ≤ k.time ∧ k.time ≤ s.clock ∧ Real host k.read) :
    Inv rule host { s with reads := reads, cache := cache } :=
  ⟨h.flying, h.waiting, hcache, h.fine⟩

theorem Inv.cache_keep (h : Inv rule host s) {r : Read α ρ} (hmoment : r.moment ≤ s.clock) (hreal : Real host r) :
    ∀ c k, (s.keep rule r).get c = some k → k.read.generation = s.generation ∧ rule.slot k.read.ask = c ∧
      k.read.moment ≤ k.time ∧ k.time ≤ s.clock ∧ Real host k.read := by
  intro c k hk
  unfold State.keep at hk
  by_cases hgen : r.generation = s.generation
  · rw [if_pos hgen, Map.get_put] at hk
    by_cases hc : c = rule.slot r.ask
    · rw [if_pos hc] at hk
      obtain rfl := Option.some.inj hk
      exact ⟨hgen, hc.symm, hmoment, Nat.le_refl _, hreal⟩
    · rw [if_neg hc] at hk
      by_cases hroom : rule.room < s.cache.entries.length
      · rw [if_pos hroom] at hk
        cases hk
      · rw [if_neg hroom] at hk
        exact h.cache c k hk
  · rw [if_neg hgen] at hk
    exact h.cache c k hk

/-- What a call finds in the cache answers it. -/
theorem Inv.sound_hit (h : Inv rule host s) {ask : α} {since : ℕ} {k : Kept α ρ} (hsince : since ≤ s.generation)
    (hhit : s.hit rule ask = some k) :
    Sound rule host ⟨ask, since, rule.cut k.read.result ask, k.read, some (k.time, s.clock)⟩ := by
  obtain ⟨hget, hfresh⟩ := Option.filter_eq_some_iff.mp hhit
  obtain ⟨hgen, hslot, hmoment, htime, hreal⟩ := h.cache _ k hget
  refine ⟨hreal, ?_, fun hnone => (by cases hnone), fun x hx => ?_⟩
  · rw [hgen]
    exact hsince
  · obtain rfl := Option.some.inj hx
    exact ⟨hslot, rfl, hmoment, htime, hfresh⟩

theorem Inv.look (h : Inv rule host s) {ask : α} {since : ℕ} (hcall : s.calls i = .looking ask since) :
    Inv rule host (s.look rule i ask since) := by
  have hsince : since ≤ s.generation := by
    have hfine := h.fine i
    rwa [hcall] at hfine
  unfold State.look
  cases hhit : s.hit rule ask with
  | some k =>
    dsimp only
    refine h.go ?_ ?_ (fun _ _ _ hp => (by cases hp)) fun g hg => ?_
    · rw [hcall]
      rfl
    · rw [hcall]
      intro hleft
      cases hleft
    · obtain rfl := Option.some.inj hg
      exact h.sound_hit hsince hhit
  | none =>
    dsimp only
    cases hflying : s.flying.get (rule.flight ask) with
    | some j =>
      dsimp only
      refine h.go ?_ ?_ ?_ hsince
      · rw [hcall]
        rfl
      · rw [hcall]
        intro hleft
        cases hleft
      · rintro ask' since' j' ⟨⟩
        exact .inr (.inr ((h.flying _ _).mp hflying))
    | none => exact h.lead hcall hflying

/-- Every step keeps it. -/
theorem Inv.step (h : Inv rule host s) (a : Act α) : Inv rule host (step rule host s a) := by
  cases a with
  | call i ask =>
    dsimp only [SingleFlight.step]
    cases hcall : s.calls i with
    | idle =>
      dsimp only
      refine h.go ?_ ?_ (fun _ _ _ hp => (by cases hp)) (Nat.le_refl _)
      · rw [hcall]
        rfl
      · rw [hcall]
        intro hleft
        cases hleft
    | _ => exact h
  | look i =>
    dsimp only [SingleFlight.step]
    cases hcall : s.calls i with
    | looking ask since => exact h.look hcall
    | _ => exact h
  | wake i =>
    dsimp only [SingleFlight.step]
    cases hcall : s.calls i with
    | waiting ask since j =>
      dsimp only
      split_ifs
      · refine h.go ?_ ?_ (fun _ _ _ hp => (by cases hp)) ?_
        · rw [hcall]
          rfl
        · rw [hcall]
          intro hleft
          cases hleft
        · have hfine := h.fine i
          rwa [hcall] at hfine
      · exact h
    | _ => exact h
  | answer i =>
    dsimp only [SingleFlight.step]
    cases hcall : s.calls i with
    | reading ask since g =>
      dsimp only
      have hfine := h.fine i
      rw [hcall] at hfine
      have hleft : ∀ q : Phase α ρ, (s.calls i).isLeft = true → q.isLeft = true := by
        rw [hcall]
        intro _ hleft
        cases hleft
      cases hhost : host s.clock i ask with
      | some result =>
        refine h.go ?_ (hleft _) (fun _ _ _ hp => (by cases hp)) ⟨hfine.1, hfine.2, Nat.le_refl _, ⟨hhost⟩⟩
        rw [hcall]
        rfl
      | none =>
        refine h.go ?_ (hleft _) (fun _ _ _ hp => (by cases hp)) fun g hg => (by cases hg)
        rw [hcall]
        rfl
    | _ => exact h
  | keep i =>
    dsimp only [SingleFlight.step]
    cases hcall : s.calls i with
    | readDone since r =>
      dsimp only
      have hfine := h.fine i
      rw [hcall] at hfine
      obtain ⟨hsince, hgen, hmoment, hreal⟩ := hfine
      have hgo : Inv rule host (s.go i (.leaving r.ask (some ⟨r.ask, since, r.result, r, none⟩))) := by
        refine h.go ?_ ?_ (fun _ _ _ hp => (by cases hp)) fun g hg => ?_
        · rw [hcall]
          rfl
        · rw [hcall]
          intro hleft
          cases hleft
        · obtain rfl := Option.some.inj hg
          exact ⟨hreal, hsince, fun _ => ⟨rfl, rfl⟩, fun x hx => (by cases hx)⟩
      exact hgo.withCache (h.cache_keep hmoment hreal)
    | _ => exact h
  | leave i =>
    dsimp only [SingleFlight.step]
    cases hcall : s.calls i with
    | leaving ask a => exact h.leave hcall
    | _ => exact h
  | signal i =>
    dsimp only [SingleFlight.step]
    cases hcall : s.calls i with
    | left a => exact h.signal hcall
    | _ => exact h
  | clear =>
    exact ⟨h.flying, h.waiting, fun c k hk => (by cases hk), fun j => (h.fine j).mono (Nat.le_succ _) (Nat.le_refl _)⟩
  | tick n =>
    refine ⟨h.flying, h.waiting, fun c k hk => ?_, fun j => (h.fine j).mono (Nat.le_refl _) (Nat.le_add_right _ n)⟩
    obtain ⟨hgen, hslot, hmoment, htime, hreal⟩ := h.cache c k hk
    exact ⟨hgen, hslot, hmoment, Nat.le_trans htime (Nat.le_add_right _ n), hreal⟩

/-- Every run keeps it. -/
theorem inv_run {acts : List (Act α)} : Inv rule host (run rule host .start acts) := by
  have hrun : ∀ (acts : List (Act α)) (s : State κ γ α ρ), Inv rule host s → Inv rule host (run rule host s acts) := by
    intro acts
    induction acts with
    | nil =>
      intro s h
      exact h
    | cons a acts ih =>
      intro s h
      exact ih _ (h.step a)
  exact hrun acts _ inv_start

/-- What a call is answered. -/
theorem Inv.sound (h : Inv rule host s) {g : Given α ρ} (hg : (s.calls i).answer = some g) : Sound rule host g := by
  have hfine := h.fine i
  cases hcall : s.calls i with
  | leaving ask a =>
    rw [hcall] at hg hfine
    exact hfine g hg
  | left a =>
    rw [hcall] at hg hfine
    exact hfine g hg
  | ended a =>
    rw [hcall] at hg hfine
    exact hfine g hg
  | _ =>
    rw [hcall] at hg
    cases hg

/-! ### Every call can end -/

/-- A move of a call that has asked. -/
def Act.mover : Act α → Option ℕ
  | .look i => some i
  | .wake i => some i
  | .answer i => some i
  | .keep i => some i
  | .leave i => some i
  | .signal i => some i
  | _ => none

/-- Moves of the calls bring this one to its end. -/
def Ends (rule : Rule κ γ α ρ) (host : ℕ → ℕ → α → Option ρ) (s : State κ γ α ρ) (i : ℕ) : Prop :=
  ∃ moves, (∀ a ∈ moves, a.mover.isSome = true) ∧ ∃ answer, (run rule host s moves).calls i = .ended answer

theorem ends_of_ended {a : Option (Given α ρ)} (h : s.calls i = .ended a) : Ends rule host s i :=
  ⟨[], fun _ ha => (by cases ha), a, h⟩

theorem Ends.of_step {a : Act α} (ha : a.mover.isSome = true) (h : Ends rule host (step rule host s a) i) :
    Ends rule host s i := by
  obtain ⟨moves, hmoves, hend⟩ := h
  refine ⟨a :: moves, fun b hb => ?_, hend⟩
  rcases List.mem_cons.mp hb with rfl | hb
  · exact ha
  · exact hmoves b hb

/-- A move of one call leaves the others where they are. -/
theorem calls_step {a : Act α} (ha : a.mover = some j) (hij : i ≠ j) : (step rule host s a).calls i = s.calls i := by
  cases a with
  | call _ _ => cases ha
  | clear => cases ha
  | tick _ => cases ha
  | look l =>
    obtain rfl := Option.some.inj ha
    dsimp only [step]
    cases hcall : s.calls l with
    | looking ask since =>
      dsimp only
      unfold State.look
      cases s.hit rule ask with
      | some k => exact calls_go_of_ne hij
      | none =>
        cases s.flying.get (rule.flight ask) with
        | some _ => exact calls_go_of_ne hij
        | none => exact calls_go_of_ne hij
    | _ => rfl
  | wake l =>
    obtain rfl := Option.some.inj ha
    dsimp only [step]
    cases hcall : s.calls l with
    | waiting ask since k =>
      dsimp only
      split_ifs
      · exact calls_go_of_ne hij
      · rfl
    | _ => rfl
  | answer l =>
    obtain rfl := Option.some.inj ha
    dsimp only [step]
    cases hcall : s.calls l with
    | reading ask since g =>
      dsimp only
      cases host s.clock l ask with
      | some _ => exact calls_go_of_ne hij
      | none => exact calls_go_of_ne hij
    | _ => rfl
  | keep l =>
    obtain rfl := Option.some.inj ha
    dsimp only [step]
    cases hcall : s.calls l with
    | readDone since r => exact calls_go_of_ne hij
    | _ => rfl
  | leave l =>
    obtain rfl := Option.some.inj ha
    dsimp only [step]
    cases hcall : s.calls l with
    | leaving ask a => exact calls_go_of_ne hij
    | _ => rfl
  | signal l =>
    obtain rfl := Option.some.inj ha
    dsimp only [step]
    cases hcall : s.calls l with
    | left a => exact calls_go_of_ne hij
    | _ => rfl

/-- The call goes by its own moves to its end, and says so. -/
def Lands (rule : Rule κ γ α ρ) (host : ℕ → ℕ → α → Option ρ) (s : State κ γ α ρ) (j : ℕ) : Prop :=
  ∃ moves, (∀ a ∈ moves, a.mover = some j) ∧ (∃ answer, (run rule host s moves).calls j = .ended answer) ∧
    (run rule host s moves).done j = true

theorem Lands.of_step {a : Act α} (ha : a.mover = some j) (h : Lands rule host (step rule host s a) j) :
    Lands rule host s j := by
  obtain ⟨moves, hmoves, hend⟩ := h
  refine ⟨a :: moves, fun b hb => ?_, hend⟩
  rcases List.mem_cons.mp hb with rfl | hb
  · exact ha
  · exact hmoves b hb

theorem lands_left {a : Option (Given α ρ)} (h : s.calls j = .left a) : Lands rule host s j := by
  have hstep : step rule host s (.signal j) =
      { s.go j (.ended a) with done := fun l => if l = j then true else s.done l } := by
    dsimp only [step]
    rw [h]
  refine ⟨[.signal j], fun b hb => ?_, ⟨a, ?_⟩, ?_⟩
  · rw [List.mem_singleton.mp hb]
    rfl
  · show (step rule host s (.signal j)).calls j = _
    rw [hstep]
    exact calls_go_self
  · show (step rule host s (.signal j)).done j = true
    rw [hstep]
    exact if_pos rfl

theorem lands_leaving {ask : α} {a : Option (Given α ρ)} (h : s.calls j = .leaving ask a) : Lands rule host s j := by
  have hleft : (step rule host s (.leave j)).calls j = .left a := by
    dsimp only [step]
    rw [h]
    exact calls_go_self
  exact .of_step (a := .leave j) rfl (lands_left hleft)

theorem lands_readDone {since : ℕ} {r : Read α ρ} (h : s.calls j = .readDone since r) : Lands rule host s j := by
  have hleaving : (step rule host s (.keep j)).calls j =
      .leaving r.ask (some ⟨r.ask, since, r.result, r, none⟩) := by
    dsimp only [step]
    rw [h]
    exact calls_go_self
  exact .of_step (a := .keep j) rfl (lands_leaving hleaving)

theorem lands_reading {ask : α} {since g : ℕ} (h : s.calls j = .reading ask since g) : Lands rule host s j := by
  refine .of_step (a := .answer j) rfl ?_
  cases hhost : host s.clock j ask with
  | some result =>
    have hdone : (step rule host s (.answer j)).calls j = .readDone since ⟨j, ask, g, s.clock, result⟩ := by
      dsimp only [step]
      rw [h]
      dsimp only
      rw [hhost]
      exact calls_go_self
    exact lands_readDone hdone
  | none =>
    have hleaving : (step rule host s (.answer j)).calls j = .leaving ask none := by
      dsimp only [step]
      rw [h]
      dsimp only
      rw [hhost]
      exact calls_go_self
    exact lands_leaving hleaving

/-- A call that others wait for lands. -/
theorem lands_of_flies {ask : α} (h : (s.calls j).flies = some ask) : Lands rule host s j := by
  cases hcall : s.calls j with
  | reading => exact lands_reading hcall
  | readDone => exact lands_readDone hcall
  | leaving => exact lands_leaving hcall
  | _ =>
    rw [hcall] at h
    cases h

theorem Lands.ends (h : Lands rule host s i) : Ends rule host s i := by
  obtain ⟨moves, hmoves, hend, -⟩ := h
  refine ⟨moves, fun a ha => ?_, hend⟩
  rw [hmoves a ha]
  rfl

/-- After the call that another waits for has landed, the other waits still, and no call has its flight. -/
theorem Lands.after (hland : Lands rule host s j) (h : Inv rule host s) (hij : i ≠ j) : ∃ moves,
    (∀ a ∈ moves, a.mover.isSome = true) ∧ (run rule host s moves).done j = true ∧
    (run rule host s moves).calls i = s.calls i ∧ Inv rule host (run rule host s moves) ∧
    ∀ k, (s.calls j).flies.map rule.flight = some k → (run rule host s moves).flying.get k = none := by
  obtain ⟨moves, hmoves, ⟨answer, hend⟩, hdone⟩ := hland
  have hrun : ∀ (moves : List (Act α)) (s : State κ γ α ρ), (∀ a ∈ moves, a.mover = some j) → Inv rule host s →
      Inv rule host (run rule host s moves) ∧ ∀ l, l ≠ j → (run rule host s moves).calls l = s.calls l := by
    intro moves
    induction moves with
    | nil =>
      intro s _ hs
      exact ⟨hs, fun l _ => rfl⟩
    | cons a moves ih =>
      intro s hall hs
      obtain ⟨hinv, hothers⟩ := ih (step rule host s a) (fun b hb => hall b (List.mem_cons_of_mem a hb)) (hs.step a)
      exact ⟨hinv, fun l hl => (hothers l hl).trans (calls_step (hall a List.mem_cons_self) hl)⟩
  obtain ⟨hinv, hothers⟩ := hrun moves s hmoves h
  refine ⟨moves, fun a ha => by rw [hmoves a ha]; rfl, hdone, hothers i hij, hinv, fun k hk => ?_⟩
  cases hget : (run rule host s moves).flying.get k with
  | none => rfl
  | some l =>
    have hl := (hinv.flying k l).mp hget
    by_cases hlj : l = j
    · subst hlj
      rw [hend] at hl
      cases hl
    · rw [hothers l hlj] at hl
      exact absurd (h.flight_unique hl hk) hlj

/-- A call that looks, with no call in its flight, ends. -/
theorem ends_looking_free {ask : α} {since : ℕ} (hcall : s.calls i = .looking ask since)
    (hfree : s.flying.get (rule.flight ask) = none) : Ends rule host s i := by
  have hstep : step rule host s (.look i) = s.look rule i ask since := by
    dsimp only [step]
    rw [hcall]
  refine .of_step (a := .look i) rfl ?_
  rw [hstep]
  unfold State.look
  cases s.hit rule ask with
  | some k => exact ends_of_ended calls_go_self
  | none =>
    dsimp only
    rw [hfree]
    have hreading : ({ s.go i (.reading ask since s.generation) with
        flying := s.flying.put (rule.flight ask) i } : State κ γ α ρ).calls i = .reading ask since s.generation :=
      calls_go_self
    exact (lands_reading hreading).ends

/-- A call whose leader has landed, with no call in its flight, ends. -/
theorem ends_waiting_free {ask : α} {since : ℕ} (hcall : s.calls i = .waiting ask since j) (hdone : s.done j = true)
    (hfree : s.flying.get (rule.flight ask) = none) : Ends rule host s i := by
  have hstep : step rule host s (.wake i) = s.go i (.looking ask since) := by
    dsimp only [step]
    rw [hcall]
    exact if_pos hdone
  refine .of_step (a := .wake i) rfl ?_
  rw [hstep]
  exact ends_looking_free calls_go_self hfree

theorem Ends.of_run {moves : List (Act α)} (hmoves : ∀ a ∈ moves, a.mover.isSome = true)
    (h : Ends rule host (run rule host s moves) i) : Ends rule host s i := by
  obtain ⟨more, hmore, hend⟩ := h
  refine ⟨moves ++ more, fun a ha => ?_, ?_⟩
  · rcases List.mem_append.mp ha with ha | ha
    · exact hmoves a ha
    · exact hmore a ha
  · unfold run at hend ⊢
    rw [List.foldl_append]
    exact hend

/-- A call that looks ends. -/
theorem Inv.ends_looking (h : Inv rule host s) {ask : α} {since : ℕ} (hcall : s.calls i = .looking ask since) :
    Ends rule host s i := by
  have hstep : SingleFlight.step rule host s (.look i) = s.look rule i ask since := by
    dsimp only [SingleFlight.step]
    rw [hcall]
  cases hget : s.flying.get (rule.flight ask) with
  | none => exact ends_looking_free hcall hget
  | some j =>
    have hlook := h.look hcall
    refine .of_step (a := .look i) rfl ?_
    rw [hstep]
    cases hhit : s.hit rule ask with
    | some k =>
      unfold State.look
      rw [hhit]
      exact ends_of_ended calls_go_self
    | none =>
      have hwaits : s.look rule i ask since = s.go i (.waiting ask since j) := by
        unfold State.look
        rw [hhit, hget]
      rw [hwaits] at hlook ⊢
      have hflies := (h.flying _ _).mp hget
      have hij : i ≠ j := by
        rintro rfl
        rw [hcall] at hflies
        cases hflies
      have hflies' : ((s.go i (.waiting ask since j)).calls j).flies.map rule.flight = some (rule.flight ask) := by
        rw [calls_go_of_ne (Ne.symm hij)]
        exact hflies
      obtain ⟨ask', hask', -⟩ := Option.map_eq_some_iff.mp hflies'
      obtain ⟨moves, hmoves, hdone, hsame, -, hfree⟩ := (lands_of_flies hask').after hlook hij
      have hwaiting : (run rule host (s.go i (.waiting ask since j)) moves).calls i = .waiting ask since j :=
        hsame.trans calls_go_self
      exact .of_run hmoves (ends_waiting_free hwaiting hdone (hfree _ hflies'))

/-- A call that waits ends. -/
theorem Inv.ends_waiting (h : Inv rule host s) {ask : α} {since : ℕ} (hcall : s.calls i = .waiting ask since j) :
    Ends rule host s i := by
  have hwoken : ∀ {s : State κ γ α ρ}, Inv rule host s → s.calls i = .waiting ask since j → s.done j = true →
      Ends rule host s i := by
    intro s h hcall hdone
    have hstep : SingleFlight.step rule host s (.wake i) = s.go i (.looking ask since) := by
      dsimp only [SingleFlight.step]
      rw [hcall]
      exact if_pos hdone
    have hinv := h.step (.wake i)
    refine .of_step (a := .wake i) rfl ?_
    rw [hstep] at hinv ⊢
    exact hinv.ends_looking calls_go_self
  have hij : s.done j = false → i ≠ j := by
    rintro hdone rfl
    rcases h.waiting i ask since i hcall with hd | hd | hd
    · rw [hdone] at hd
      cases hd
    · rw [hcall] at hd
      cases hd
    · rw [hcall] at hd
      cases hd
  cases hdone : s.done j with
  | true => exact hwoken h hcall hdone
  | false =>
    have hland : Lands rule host s j := by
      rcases h.waiting i ask since j hcall with hd | hd | hd
      · rw [hdone] at hd
        cases hd
      · cases hj : s.calls j with
        | left a => exact lands_left hj
        | _ =>
          rw [hj] at hd
          cases hd
      · obtain ⟨ask', hask', -⟩ := Option.map_eq_some_iff.mp hd
        exact lands_of_flies hask'
    obtain ⟨moves, hmoves, hdone', hsame, hinv, -⟩ := hland.after h (hij hdone)
    exact .of_run hmoves (hwoken hinv (hsame.trans hcall) hdone')

/-- Every call that has asked can end, by moves of the calls alone. -/
theorem Inv.ends (h : Inv rule host s) (hcall : s.calls i ≠ .idle) : Ends rule host s i := by
  cases hphase : s.calls i with
  | idle => exact absurd hphase hcall
  | looking ask since => exact h.ends_looking hphase
  | waiting ask since j => exact h.ends_waiting hphase
  | reading ask since g => exact (lands_reading hphase).ends
  | readDone since r => exact (lands_readDone hphase).ends
  | leaving ask a => exact (lands_leaving hphase).ends
  | left a => exact (lands_left hphase).ends
  | ended a => exact ends_of_ended hphase

/-- The calls are in each other's way for one flight only, and never for good. -/
structure Orderly (rule : Rule κ γ α ρ) (host : ℕ → ℕ → α → Option ρ) (s : State κ γ α ρ) : Prop where
  /-- one call reads for a flight -/
  one : ∀ i j k, (s.calls i).flies.map rule.flight = some k → (s.calls j).flies.map rule.flight = some k → i = j
  /-- the table has a flight as long as a call reads for it -/
  table : ∀ k, (s.flying.get k).isSome = true ↔ ∃ i, (s.calls i).flies.map rule.flight = some k
  /-- a call waits for one that reads for its own flight, or has done so -/
  waits : ∀ i ask since j, s.calls i = .waiting ask since j →
    s.done j = true ∨ (s.calls j).isLeft = true ∨ (s.calls j).flies.map rule.flight = some (rule.flight ask)
  /-- a call that has asked can end -/
  ends : ∀ i, s.calls i ≠ .idle → Ends rule host s i

/-- The calls are orderly after every run. -/
theorem orderly_run {acts : List (Act α)} : Orderly rule host (run rule host .start acts) := by
  have h : Inv rule host (run rule host .start acts) := inv_run
  refine ⟨fun i j k hi hj => h.flight_unique hi hj, fun k => ?_, h.waiting, fun i hi => h.ends hi⟩
  constructor
  · intro hk
    obtain ⟨i, hi⟩ := Option.isSome_iff_exists.mp hk
    exact ⟨i, (h.flying k i).mp hi⟩
  · rintro ⟨i, hi⟩
    rw [(h.flying k i).mpr hi]
    rfl

end Spec

end JenKea.SingleFlight
