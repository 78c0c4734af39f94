import JenKea.Revisions

/-!
# Any history of the store

The statements of `config_revisions.py` in any order, for any servers and services. A server and a
service never have two rows in flight, and `prune` takes none of the rows that a reader of the record
asks for: those in flight, the newest rendering, the newest settled rows, and the settled rows with
the digest that a row in flight had before it.
-/

namespace JenKea.Store

variable {H : Type} [DecidableEq H]

/-- `by_digest`: the newest settled row of Kea's own digest, unless the digest is empty. -/
def byDigest (s : Store H) (serverId : ℤ) (service : Service) (sha256 : Option H) :
    Option (Row H) :=
  if sha256 = none then none
  else s.newest fun r => r.isOf serverId service && r.hashKind == .kea && r.sha256 == sha256 &&
    r.settled

/-- `record`: the insert, and the prune that follows it with the number of rows to keep. -/
def record (s : Store H) (e : Entry H) (keep : ℕ) : Store H :=
  match s.insert e with
  | none => s
  | some s' => s'.prune e.serverId e.service keep

/-- A statement of the module. `finish` turns a row into one of what the daemon runs, and its callers
give it no other source. -/
inductive Act (H : Type) where
  | record (e : Entry H) (keep : ℕ)
  | finish (id : ℕ) (source : {source : Source // source ≠ .pending}) (sha256 : Option H)
      (cfg : Option Json)
  | markDamaged (id : ℕ)
  | discard (id : ℕ)
  | discardPending (serverId : ℤ) (service : Service)
  | prune (serverId : ℤ) (service : Service) (keep : ℕ)

/-- What a statement does. -/
def act (s : Store H) : Act H → Store H
  | .record e keep => s.record e keep
  | .finish id source sha256 cfg => s.finish id source.1 sha256 cfg
  | .markDamaged id => s.markDamaged id
  | .discard id => s.discard id
  | .discardPending serverId service => s.discardPending serverId service
  | .prune serverId service keep => s.prune serverId service keep

/-! ## One row in flight -/

/-- No server and service have two pending rows. -/
def OnePending (s : Store H) : Prop :=
  ∀ r₁ ∈ s.rows, ∀ r₂ ∈ s.rows, r₁.source = .pending → r₂.source = .pending →
    r₁.serverId = r₂.serverId → r₁.service = r₂.service → r₁ = r₂

variable {s s' : Store H} {r : Row H} {serverId : ℤ} {service : Service} {keep : ℕ}

omit [DecidableEq H] in
/-- A statement that makes no row pending keeps it. -/
theorem OnePending.mono (h : s.OnePending)
    (hsub : ∀ r ∈ s'.rows, r.source = .pending → r ∈ s.rows) : s'.OnePending :=
  fun r₁ h₁ r₂ h₂ hp₁ hp₂ => h r₁ (hsub r₁ h₁ hp₁) r₂ (hsub r₂ h₂ hp₂) hp₁ hp₂

omit [DecidableEq H] in
theorem pending_eq_none (h : s.pending serverId service = none) (hr : r ∈ s.rows)
    (hp : r.source = .pending) : ¬ (r.serverId = serverId ∧ r.service = service) := by
  intro ⟨hserver, hservice⟩
  have hnot := List.find?_eq_none.mp h r hr
  simp [Entry.isOf, hserver, hservice, hp] at hnot

omit [DecidableEq H] in
/-- The insert refuses a second pending row. -/
theorem OnePending.insert (h : s.OnePending) {e : Entry H} (hs : s.insert e = some s') :
    s'.OnePending := by
  have hadd := insert_eq hs
  have hfree : e.source = .pending → s.pending e.serverId e.service = none := by
    intro he
    unfold Store.insert at hs
    split_ifs at hs with hcon
    rw [not_and] at hcon
    simpa using hcon he
  -- a row that is pending is an old one, or the new one
  have hcase : ∀ r ∈ s'.rows, r.source = .pending → r ∈ s.rows ∨
      r.toEntry.serverId = e.serverId ∧ r.toEntry.service = e.service ∧ e.source = .pending ∧
        r.id = s.nextId := by
    intro r hr hp
    rw [hadd] at hr
    rcases mem_add.mp hr with rfl | hr
    · exact .inr ⟨rfl, rfl, hp, rfl⟩
    · exact .inl hr
  intro r₁ h₁ r₂ h₂ hp₁ hp₂ hserver hservice
  rcases hcase r₁ h₁ hp₁ with hold₁ | ⟨hs₁, hv₁, he, hid₁⟩
  · rcases hcase r₂ h₂ hp₂ with hold₂ | ⟨hs₂, hv₂, he, -⟩
    · exact h r₁ hold₁ r₂ hold₂ hp₁ hp₂ hserver hservice
    · exact absurd ⟨hserver.trans hs₂, hservice.trans hv₂⟩ (pending_eq_none (hfree he) hold₁ hp₁)
  · rcases hcase r₂ h₂ hp₂ with hold₂ | ⟨-, -, -, hid₂⟩
    · exact absurd ⟨hserver.symm.trans hs₁, hservice.symm.trans hv₁⟩
        (pending_eq_none (hfree he) hold₂ hp₂)
    · exact eq_of_id h₁ h₂ (hid₁.trans hid₂.symm)

/-- Every statement keeps it. -/
theorem OnePending.act (h : s.OnePending) (a : Act H) : (s.act a).OnePending := by
  cases a with
  | record e keep =>
    simp only [Store.act, Store.record]
    split
    · exact h
    · next hs => exact (h.insert hs).mono fun r hr _ => prune_subset hr
  | finish id source sha256 cfg =>
    exact h.mono fun r hr hp => of_mem_update (fun e => by exact source.2) hr hp
  | markDamaged id =>
    exact h.mono fun r hr hp => of_mem_update (fun e => by exact Source.noConfusion) hr hp
  | discard id => exact h.mono fun r hr _ => (mem_keepIf.mp hr).1
  | discardPending serverId service => exact h.mono fun r hr _ => (mem_keepIf.mp hr).1
  | prune serverId service keep => exact h.mono fun r hr _ => prune_subset hr

/-! ## What a prune keeps -/

omit [DecidableEq H] in
/-- A reader that finds a row finds it in what is left, when the row is left. -/
theorem newest_keepIf {p q : Row H → Bool} (h : ∀ r, s.newest p = some r → q r) :
    (s.keepIf q).newest p = s.newest p := by
  unfold newest keepIf
  dsimp only
  cases hfind : s.rows.find? p with
  | none =>
    refine List.find?_eq_none.mpr fun r hr => ?_
    exact List.find?_eq_none.mp hfind r (List.mem_filter.mp hr).1
  | some r =>
    obtain ⟨hp, before, after, heq, hnot⟩ := List.find?_eq_some_iff_append.mp hfind
    have hq : q r := h r hfind
    rw [List.find?_eq_some_iff_append]
    refine ⟨hp, before.filter q, after.filter q, ?_, fun r' hr' => hnot r' (List.mem_filter.mp hr').1⟩
    rw [heq, List.filter_append, List.filter_cons_of_pos hq]

/-- The number of settled rows of a server and a service that are newer than a row. -/
def newerSettled (s : Store H) (serverId : ℤ) (service : Service) (r : Row H) : ℕ :=
  (s.rows.filter fun r' => r'.isOf serverId service && r'.settled && decide (r.id < r'.id)).length

/-- A row that no `prune` of a server and a service takes: a row of another, a row in flight, the
newest rendering, one of the newest `keep` settled rows, or one with the digest from before a row in
flight. -/
inductive Kept (s : Store H) (serverId : ℤ) (service : Service) (keep : ℕ) (r : Row H) : Prop
  | other (h : ¬ r.isOf serverId service)
  | inFlight (h : r.settled = false)
  | rendering (h : s.latestRendering serverId service = some r)
  | newest (h : s.newerSettled serverId service r < max 1 keep)
  | before (r' : Row H) (h : r' ∈ s.rows) (hof : r'.isOf serverId service)
      (hflight : r'.settled = false) (hsha : r.sha256 = r'.sha256)

omit [DecidableEq H] in
/-- The oldest row to keep has `n` newer settled rows. -/
theorem newerSettled_getElem {n : ℕ} {oldest : Row H}
    (h : ((s.rows.filter fun r => r.isOf serverId service).filter fun r => r.settled)[n]? =
      some oldest) : s.newerSettled serverId service oldest = n := by
  set settled := (s.rows.filter fun r => r.isOf serverId service).filter fun r => r.settled
    with hsettled
  have hsorted : settled.Pairwise fun a b => b.id < a.id := (s.sorted.filter _).filter _
  obtain ⟨hn, hget⟩ := List.getElem?_eq_some_iff.mp h
  have hcount : s.newerSettled serverId service oldest =
      (settled.filter fun r => decide (oldest.id < r.id)).length := by
    rw [newerSettled, hsettled, List.filter_filter, List.filter_filter]
    congr 1
    refine List.filter_congr fun r _ => ?_
    cases r.isOf serverId service <;> cases r.settled <;> simp
  -- the list descends, so the newer rows are those before it
  have htake : settled.filter (fun r => decide (oldest.id < r.id)) = settled.take n := by
    conv_lhs => rw [← List.take_append_drop n settled]
    rw [List.filter_append, List.filter_eq_self.mpr, List.filter_eq_nil_iff.mpr,
      List.append_nil]
    · intro r hr
      obtain ⟨i, hi, rfl⟩ := List.getElem_of_mem hr
      rw [List.length_drop] at hi
      have hlt : n + i < settled.length := by omega
      rw [List.getElem_drop]
      have hle : settled[n + i].id ≤ oldest.id := by
        rw [← hget]
        rcases Nat.eq_zero_or_pos i with rfl | hpos
        · exact le_rfl
        · exact (List.pairwise_iff_getElem.mp hsorted n (n + i) hn hlt (by omega)).le
      simpa using hle
    · intro r hr
      obtain ⟨i, hi, rfl⟩ := List.getElem_of_mem hr
      have hlt : i < n := by
        rw [List.length_take] at hi
        omega
      rw [List.getElem_take, ← hget]
      exact decide_eq_true (List.pairwise_iff_getElem.mp hsorted i n _ hn hlt)
  rw [hcount, htake, List.length_take]
  omega

omit [DecidableEq H] in
/-- A row below a settled one has that one above it, and all that this one has. -/
theorem newerSettled_lt {oldest : Row H} (hmem : oldest ∈ s.rows)
    (hof : oldest.isOf serverId service) (hsettled : oldest.settled) (h : r.id < oldest.id) :
    s.newerSettled serverId service oldest < s.newerSettled serverId service r := by
  unfold newerSettled
  have hsplit : (s.rows.filter fun r' => r'.isOf serverId service && r'.settled &&
      decide (oldest.id < r'.id)) =
      (s.rows.filter fun r' => r'.isOf serverId service && r'.settled &&
        decide (r.id < r'.id)).filter fun r' => decide (oldest.id < r'.id) := by
    rw [List.filter_filter]
    refine List.filter_congr fun r' _ => ?_
    by_cases hlt : oldest.id < r'.id
    · have : r.id < r'.id := h.trans hlt
      simp [hlt, this]
    · simp [hlt]
  rw [hsplit, List.length_filter_lt_length_iff_exists]
  refine ⟨oldest, List.mem_filter.mpr ⟨hmem, ?_⟩, by simp⟩
  simp [hof, hsettled, h]

/-- A prune takes no row that it is to keep. -/
theorem Kept.mem_prune (h : Kept s serverId service keep r) (hr : r ∈ s.rows) :
    r ∈ (s.prune serverId service keep).rows := by
  unfold prune
  dsimp only
  split
  · exact hr
  · next oldest hold =>
    refine mem_keepIf.mpr ⟨hr, ?_⟩
    cases h with
    | other h => simp [h]
    | inFlight h => simp [h]
    | rendering h => simp [h]
    | newest h =>
      have hmem := List.mem_of_getElem? hold
      simp only [List.mem_filter] at hmem
      have holdest := newerSettled_getElem hold
      have hnot : ¬ r.id < oldest.id := by
        intro hlt
        have := newerSettled_lt hmem.1.1 hmem.1.2 hmem.2 hlt
        omega
      simp [hnot]
    | before r' h' hof hflight hsha =>
      have hcontains : (((s.rows.filter fun r => r.isOf serverId service).filter
          fun r => !r.settled).map fun r => r.sha256).contains r.sha256 := by
        rw [List.contains_iff_mem, List.mem_map]
        refine ⟨r', List.mem_filter.mpr ⟨List.mem_filter.mpr ⟨h', hof⟩, ?_⟩, hsha.symm⟩
        simp [hflight]
      rw [hcontains]
      simp

/-! ## What the readers find after a prune -/

/-- A reader whose row a prune keeps finds the same row after it. -/
theorem newest_prune {p : Row H → Bool}
    (h : ∀ r, s.newest p = some r → Kept s serverId service keep r) :
    (s.prune serverId service keep).newest p = s.newest p := by
  have hmem : ∀ r, s.newest p = some r → r ∈ (s.prune serverId service keep).rows :=
    fun r hr => (h r hr).mem_prune (newest_mem hr).1
  revert hmem
  unfold prune
  dsimp only
  split
  · exact fun _ => rfl
  · exact fun hmem => newest_keepIf fun r hr => (mem_keepIf.mp (hmem r hr)).2

/-- `pending` finds the same row. -/
theorem pending_prune (serverId' : ℤ) (service' : Service) :
    (s.prune serverId service keep).pending serverId' service' = s.pending serverId' service' := by
  refine newest_prune fun r hr => .inFlight ?_
  have hp := (newest_mem hr).2
  simp only [Bool.and_eq_true, beq_iff_eq] at hp
  simp [Entry.settled, hp.2]

/-- `latest_rendering` finds the same row. -/
theorem latestRendering_prune (serverId' : ℤ) (service' : Service) :
    (s.prune serverId service keep).latestRendering serverId' service' =
      s.latestRendering serverId' service' := by
  refine newest_prune fun r hr => ?_
  by_cases hof : r.isOf serverId service
  · have hof' := (newest_mem hr).2
    simp only [Entry.isOf, Bool.and_eq_true, beq_iff_eq] at hof hof'
    obtain ⟨rfl, rfl⟩ := hof.1 ▸ hof.2 ▸ hof'.1
    exact .rendering hr
  · exact .other hof

/-- `by_digest` of the digest from before a row in flight finds the same row. -/
theorem byDigest_prune {r' : Row H} (hr' : r' ∈ s.rows) (hflight : r'.settled = false) :
    (s.prune serverId service keep).byDigest r'.serverId r'.service r'.sha256 =
      s.byDigest r'.serverId r'.service r'.sha256 := by
  unfold byDigest
  split_ifs
  · rfl
  · refine newest_prune fun r hr => ?_
    have hp := (newest_mem hr).2
    by_cases hof : r.isOf serverId service
    · simp only [Entry.isOf, Bool.and_eq_true, beq_iff_eq] at hof hp
      refine .before r' hr' ?_ hflight hp.1.2
      simp [Entry.isOf, ← hp.1.1.1.1, ← hp.1.1.1.2, hof]
    · exact .other hof

/-! ## Any history -/

/-- Any history has one row in flight for a server and a service. -/
theorem onePending_foldl (acts : List (Act H)) (h : s.OnePending) :
    (acts.foldl Store.act s).OnePending := by
  induction acts generalizing s with
  | nil => exact h
  | cons a acts ih => exact ih (h.act a)

/-- After any statements in any order a server and a service have one pending row at most, and a
prune of any server and service, the one of `record` or another, takes none of the rows that are to
stay from any store: the readers find after it what they found before. -/
theorem history_prune (acts : List (Act H)) :
    (acts.foldl Store.act (Store.empty : Store H)).OnePending ∧
      ∀ (s : Store H) (serverId : ℤ) (service : Service) (keep : ℕ),
        (∀ r ∈ s.rows, Kept s serverId service keep r →
          r ∈ (s.prune serverId service keep).rows) ∧
        (∀ serverId' service', (s.prune serverId service keep).pending serverId' service' =
          s.pending serverId' service') ∧
        (∀ serverId' service',
          (s.prune serverId service keep).latestRendering serverId' service' =
            s.latestRendering serverId' service') ∧
        ∀ r ∈ s.rows, r.settled = false →
          (s.prune serverId service keep).byDigest r.serverId r.service r.sha256 =
            s.byDigest r.serverId r.service r.sha256 := by
  have hempty : (Store.empty : Store H).OnePending := fun r hr => by simp [Store.empty] at hr
  refine ⟨onePending_foldl acts hempty, fun s serverId service keep => ⟨?_, ?_, ?_, ?_⟩⟩
  · exact fun r hr hkept => hkept.mem_prune hr
  · exact pending_prune
  · exact latestRendering_prune
  · exact fun r hr hflight => byDigest_prune hr hflight

end JenKea.Store
