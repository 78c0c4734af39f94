import JenKea.Lib.Trace
import JenKea.Problems.Marks
import Mathlib.Data.List.Dedup

/-!
# The timing of the alerts

Two deliveries are a day apart, two attempts half an hour, and what waits is tried again after half an hour.
All three rest on the marks of the rows that are not resolved, and hold of every sweep that finds them
(`Follows`). A sweep loses them when it resolves the last row that has them, and when an alert fails all of
whose rows carry an older delivery, for such rows are not asked when the alert was last attempted. A run
whose sweeps do neither keeps the timing (`timely_run`); each of the two breaks it (`not_timely`).
-/

namespace JenKea.Problems

/-! ## The rules -/

namespace Pass

variable (p : Pass) (key : Key)

/-- An alert was attempted. -/
def attempted : Bool := (scan p.state p.input).2.any fun d => d.key = key

/-- An alert was delivered. -/
def delivered : Bool := p.attempted key && p.input.sends key

/-- The rows as the sweep comes to resolve. -/
def scanned : Table := (scan p.state p.input).1.table

end Pass

/-- The log is readable and the database writes succeed. -/
structure Healthy (i : Input) : Prop where
  commits : i.commits = true
  records : ∀ key, i.records key = true
  resolves : i.resolves = true

/-- A row that has the marks waits for its alert. -/
def Marks.Waits (m : Marks) : Prop := m.alertedAt = none ∧ (m.attemptedAt ≠ none ∨ m.qualifiedAt ≠ none)

/-- A sweep after earlier ones keeps the timing rules. -/
structure Timely (h : List Pass) (p : Pass) : Prop where
  deliveries : ∀ q ∈ h, ∀ key, q.delivered key = true → p.delivered key = true → q.now + ALERT_EVERY ≤ p.now
  attempts : ∀ q ∈ h, ∀ key, q.attempted key = true → p.attempted key = true →
    q.now + ALERT_RETRY_EVERY ≤ p.now
  retry : ∀ key m q, Has p.state.table key m → m.qualifiedAt = some q → p.now - q < QUALIFICATION_KEEP →
    (∀ r ∈ h, r.attempted key = true → r.now + ALERT_RETRY_EVERY ≤ p.now) → p.attempted key = true

/-- A sweep keeps the marks that the timing rules rest on: an alert that fails has a row without an older
delivery, and what is resolved is not the last row with a delivery of the last day, with a failed attempt of
the last half hour, or that waits while another is qualified. -/
structure Keeps (p : Pass) : Prop where
  unsent : ∀ key, p.attempted key = true → p.input.sends key = false →
    ∃ m, Has p.scanned key m ∧ m.alertedAt = none
  delivery : ∀ key m, Has p.scanned key m → within p.now ALERT_EVERY m.alertedAt = true →
    ∃ m', Has (resolveRows p.now p.scanned) key m' ∧ m'.alertedAt = m.alertedAt
  attempt : ∀ key m, Has p.scanned key m → m.alertedAt = none →
    within p.now ALERT_RETRY_EVERY m.attemptedAt = true →
      ∃ m', Has (resolveRows p.now p.scanned) key m' ∧ m'.alertedAt = none ∧ m'.attemptedAt = m.attemptedAt
  waiting : ∀ key m, Has (resolveRows p.now p.scanned) key m → m.qualifiedAt ≠ none →
    ∃ m', Has (resolveRows p.now p.scanned) key m' ∧ m'.Waits

/-! ## One sweep -/

/-- The marks after the sends. -/
def Marks.after (now : ℤ) (due sent : Bool) (m : Marks) : Marks :=
  if due then if sent then (m.attempt now).deliver now else m.attempt now else m

variable {s : State} {i : Input} {key : Key} {m : Marks} {now : ℤ}

theorem within_iff {since : ℤ} {moment : Option ℤ} :
    within now since moment = true ↔ ∃ a, moment = some a ∧ now - a < since := by
  unfold within
  cases moment with
  | none => simp
  | some a => simp

/-- A decision leaves the deliveries and the attempts. -/
theorem Decided.same {H : Marks → Prop} {g : Marks → Marks} {due : Bool} (h : Decided now H g due) (m : Marks) :
    (g m).alertedAt = m.alertedAt ∧ (g m).attemptedAt = m.attemptedAt := by
  cases h <;> exact ⟨rfl, rfl⟩

/-- What is due is not blocked, and was not tried lately. -/
theorem Decided.of_due {H : Marks → Prop} {g : Marks → Marks} (h : Decided now H g true) :
    ¬ Blocked now H ∧ ¬ Tried now H := by
  cases h with
  | waiting hblocked _ hdue => exact ⟨hblocked, hdue.mp rfl⟩
  | qualified hblocked _ hdue => exact ⟨hblocked, hdue.mp rfl⟩

/-- The alerts that are sent and those that are due. -/
theorem any_sent {dues : List Due} {sends : Key → Bool} :
    (dues.any fun d => d.key = key ∧ sends d.key = true) =
      ((dues.any fun d => d.key = key) && sends key) := by
  induction dues with
  | nil => rfl
  | cons d dues ih =>
    rw [List.any_cons, List.any_cons, ih]
    by_cases hd : d.key = key
    · cases hsends : sends key <;> simp [hd, hsends]
    · simp [hd]

/-- The marks as the sweep comes to resolve. -/
theorem has_scanned (hi : Healthy i) (key : Key) (m : Marks) :
    Has (Pass.scanned ⟨s, i⟩) key m ↔ ∃ m', Has (decided s i).1 key m' ∧
      m = m'.after i.now ((decided s i).2.any fun d => d.key = key) (i.sends key) := by
  have hscanned : Pass.scanned ⟨s, i⟩ = send i (transact s i).table (decided s i).2 := by
    unfold Pass.scanned scan
    rw [if_pos hi.commits]
  have htable : (transact s i).table = markAttempted i.now (decided s i).1 (decided s i).2 := by rw [transact]
  rw [hscanned, has_send hi.records, any_sent, htable]
  simp only [has_markAttempted]
  generalize ((decided s i).2.any fun d => decide (d.key = key)) = due
  constructor
  · intro ⟨m', ⟨m₀, hm₀, hm'⟩, hm⟩
    refine ⟨m₀, hm₀, ?_⟩
    rw [hm, hm']
    unfold Marks.after
    cases due <;> cases i.sends key <;> rfl
  · intro ⟨m₀, hm₀, hm⟩
    refine ⟨_, ⟨m₀, hm₀, rfl⟩, ?_⟩
    rw [hm]
    unfold Marks.after
    cases due <;> cases i.sends key <;> rfl

/-- What a sweep does to the marks of one kind, client and subnet, up to the resolve. -/
theorem scan_spec (hi : Healthy i) (key : Key) : ∃ H g due,
    (∀ m, Has s.table key m → H m) ∧ (∀ m, H m → Has s.table key m ∨ m = {}) ∧
    (Pass.attempted ⟨s, i⟩ key = due) ∧
    (∀ m, Has (Pass.scanned ⟨s, i⟩) key m ↔ ∃ m', H m' ∧ m = (g m').after i.now due (i.sends key)) ∧
    (Decided i.now H g due ∨ g = id ∧ due = false ∧ ∀ m, H m → ¬ m.Waits) := by
  have hnodup : (consideredKeys (upserted s i) (recorded s i)).Nodup := List.nodup_dedup _
  obtain ⟨g, due, hhas, hdue, hcases⟩ := decideKeys_spec i.now s.watermark.isNone i.threshold
    (collectRecent i.subnetOf i.events i.now) (t := upserted s i) hnodup key
  rw [← decided] at hhas hdue
  have hattempted : Pass.attempted ⟨s, i⟩ key = due := by
    unfold Pass.attempted scan
    rw [if_pos hi.commits]
    dsimp only
    exact hdue
  refine ⟨Has (upserted s i) key, g, due, fun m => has_upserts, fun m => has_of_upserts, hattempted,
    fun m => ?_, ?_⟩
  · rw [has_scanned hi, hdue]
    constructor
    · intro ⟨m', hm', heq⟩
      obtain ⟨m₀, hm₀, rfl⟩ := (hhas m').mp hm'
      exact ⟨m₀, hm₀, heq⟩
    · intro ⟨m₀, hm₀, heq⟩
      exact ⟨g m₀, (hhas _).mpr ⟨m₀, hm₀, rfl⟩, heq⟩
  · rcases hcases with ⟨-, hdecided⟩ | ⟨hnot, hg, hfalse⟩
    · exact .inl hdecided
    · refine .inr ⟨hg, hfalse, fun m ⟨x, hx, hm⟩ hwaits => hnot ?_⟩
      obtain ⟨hmem, hopen⟩ := List.mem_filter.mp hx
      obtain ⟨hkey, hres⟩ := of_decide_eq_true hopen
      rw [← hm] at hwaits
      refine List.mem_dedup.mpr (List.mem_append_right _ (List.mem_map.mpr ⟨x, ?_, hkey⟩))
      exact List.mem_filter.mpr ⟨hmem, decide_eq_true ⟨hres, hwaits⟩⟩

/-! ## What every sweep finds -/

/-- The rows bear the marks of the sweeps before: of a delivery for a day, of a failed attempt for half an
hour, and what is qualified waits and was not delivered in the last day. -/
structure Follows (h : List Pass) (last : ℤ) (t : Table) : Prop where
  delivered : ∀ q ∈ h, ∀ key, q.delivered key = true → last - q.now < ALERT_EVERY →
    ∃ m, Has t key m ∧ m.alertedAt = some q.now
  attempted : ∀ q ∈ h, ∀ key, q.attempted key = true → q.delivered key = false →
    last - q.now < ALERT_RETRY_EVERY → ∃ m, Has t key m ∧ m.alertedAt = none ∧ m.attemptedAt = some q.now
  waits : ∀ key m, Has t key m → m.qualifiedAt ≠ none → ∃ m', Has t key m' ∧ m'.Waits
  quiet : ∀ key m m' a, Has t key m → m.qualifiedAt ≠ none → Has t key m' → m'.alertedAt = some a →
    a + ALERT_EVERY ≤ last
  marked : ∀ key m a, Has t key m → m.attemptedAt = some a → ∃ q ∈ h, q.attempted key = true ∧ q.now = a

variable {h : List Pass} {last : ℤ}

theorem Follows.mono {t : Table} (hf : Follows h last t) {later : ℤ} (hle : last ≤ later) :
    Follows h later t where
  delivered q hq key hdelivered hnear := hf.delivered q hq key hdelivered (by omega)
  attempted q hq key hattempted hnot hnear := hf.attempted q hq key hattempted hnot (by omega)
  waits := hf.waits
  quiet key m m' a hm hq hm' ha := (hf.quiet key m m' a hm hq hm' ha).trans hle
  marked := hf.marked

/-- A sweep that finds the marks keeps the timing. -/
theorem Follows.timely (hf : Follows h last s.table) (hi : Healthy i) (hle : last ≤ i.now) :
    Timely h ⟨s, i⟩ := by
  have hdeliveries : ∀ q ∈ h, ∀ key, q.delivered key = true → Pass.attempted ⟨s, i⟩ key = true →
      q.now + ALERT_EVERY ≤ i.now := by
    intro q hq key hdelivered hattempted
    obtain ⟨H, g, due, hkept, -, hdue, -, hcases⟩ := @scan_spec s i hi key
    obtain rfl : due = true := hdue.symm.trans hattempted
    rcases hcases with hdecided | ⟨-, hfalse, -⟩
    · by_contra hnear
      obtain ⟨m, hm, ha⟩ := hf.delivered q hq key hdelivered (by omega)
      have hnear' : within i.now ALERT_EVERY m.alertedAt = true := within_iff.mpr ⟨_, ha, by omega⟩
      exact hdecided.of_due.1 (.inr ⟨m, hkept m hm, hnear'⟩)
    · exact absurd hfalse (by decide)
  refine ⟨fun q hq key hdelivered hp => ?_, fun q hq key hattempted hp => ?_, fun key m q hm hq hfresh hlast => ?_⟩
  · exact hdeliveries q hq key hdelivered (Bool.and_eq_true_iff.mp hp).1
  · cases hq' : q.delivered key with
    | true =>
      have hday := hdeliveries q hq key hq' hp
      have hless : ALERT_RETRY_EVERY ≤ ALERT_EVERY := by decide
      show q.now + ALERT_RETRY_EVERY ≤ i.now
      omega
    | false =>
      obtain ⟨H, g, due, hkept, -, hdue, -, hcases⟩ := @scan_spec s i hi key
      obtain rfl : due = true := hdue.symm.trans hp
      rcases hcases with hdecided | ⟨-, hfalse, -⟩
      · by_contra hnear
        have hnear₀ : i.now - q.now < ALERT_RETRY_EVERY := by
          have hnot : ¬ q.now + ALERT_RETRY_EVERY ≤ i.now := hnear
          omega
        obtain ⟨m, hm, ha, hatt⟩ := hf.attempted q hq key hattempted hq' (by omega)
        have hnear' : within i.now ALERT_RETRY_EVERY m.attemptedAt = true := within_iff.mpr ⟨_, hatt, hnear₀⟩
        exact hdecided.of_due.2 ⟨m, hkept m hm, ha, hnear'⟩
      · exact absurd hfalse (by decide)
  · obtain ⟨H, g, due, hkept, hfrom, hdue, -, hcases⟩ := @scan_spec s i hi key
    have hqualified : m.qualifiedAt ≠ none := by
      rw [hq]
      exact Option.some_ne_none q
    -- A mark that is set was there before the sweep.
    have hold : ∀ m', H m' → ∀ a, m'.alertedAt = some a ∨ m'.attemptedAt = some a → Has s.table key m' := by
      intro m' hm' a ha
      rcases hfrom m' hm' with h | rfl
      · exact h
      · rcases ha with ha | ha <;> exact absurd ha nofun
    have hstale : ¬ Stale i.now H := fun hstale => by
      have hday := hstale m q (hkept m hm) hq
      have hfresh' : i.now - q < QUALIFICATION_KEEP := hfresh
      omega
    rw [hdue]
    rcases hcases with hdecided | ⟨-, -, hnone⟩
    · cases hdecided with
      | blocked hblocked =>
        rcases hblocked with hnone | ⟨m', hm', hnear⟩
        · exact absurd (hkept m hm) (hnone m)
        · obtain ⟨a, ha, hnear⟩ := within_iff.mp hnear
          have hday := hf.quiet key m m' a hm hqualified (hold m' hm' a (.inl ha)) ha
          omega
      | waiting _ _ hdue' =>
        refine hdue'.mpr fun ⟨m', hm', _, hnear⟩ => ?_
        obtain ⟨a, ha, hnear⟩ := within_iff.mp hnear
        obtain ⟨r, hr, hattempted, rfl⟩ := hf.marked key m' a (hold m' hm' a (.inr ha)) ha
        have hpast : r.now + ALERT_RETRY_EVERY ≤ i.now := hlast r hr hattempted
        omega
      | nothing _ hstale' => exact absurd hstale' hstale
      | qualified _ hstale' _ => exact absurd hstale' hstale
    · obtain ⟨m', hm', hwaits⟩ := hf.waits key m hm hqualified
      exact absurd hwaits (hnone m' (hkept m' hm'))

/-- A sweep that keeps the marks leaves them for the next. -/
theorem Follows.sweep (hf : Follows h last s.table) (hi : Healthy i) (hle : last ≤ i.now)
    (hkeeps : Keeps ⟨s, i⟩) : Follows (h ++ [⟨s, i⟩]) i.now (sweep s i).table := by
  have htable : (JenKea.Problems.sweep s i).table = resolveRows i.now (Pass.scanned ⟨s, i⟩) := by
    unfold JenKea.Problems.sweep
    dsimp only
    rw [if_pos hi.resolves]
    rfl
  rw [htable]
  refine ⟨fun q hq key hdelivered hnear => ?_, fun q hq key hattempted hnot hnear => ?_, hkeeps.waiting,
    fun key m m' a hm hq hm' ha => ?_, fun key m a hm ha => ?_⟩
  · -- A delivery, of an earlier sweep or of this one.
    obtain ⟨H, g, due, hkept, -, hdue, hscanned, hcases⟩ := @scan_spec s i hi key
    have hrow : ∃ m, Has (Pass.scanned ⟨s, i⟩) key m ∧ m.alertedAt = some q.now := by
      rcases List.mem_append.mp hq with hq | hq
      · obtain ⟨m, hm, ha⟩ := hf.delivered q hq key hdelivered (by omega)
        have hnear' : within i.now ALERT_EVERY m.alertedAt = true := within_iff.mpr ⟨_, ha, hnear⟩
        have hnotDue : due = false := by
          cases due with
          | false => rfl
          | true =>
            rcases hcases with hdecided | ⟨-, hfalse, -⟩
            · exact absurd (.inr ⟨m, hkept m hm, hnear'⟩) hdecided.of_due.1
            · exact hfalse
        have hg : (g m).alertedAt = m.alertedAt := by
          rcases hcases with hdecided | ⟨rfl, -, -⟩
          · exact (hdecided.same m).1
          · rfl
        refine ⟨_, (hscanned _).mpr ⟨m, hkept m hm, rfl⟩, ?_⟩
        rw [hnotDue]
        exact hg.trans ha
      · obtain rfl := List.mem_singleton.mp hq
        obtain ⟨hattempted, hsent⟩ := Bool.and_eq_true_iff.mp hdelivered
        obtain rfl : due = true := hdue.symm.trans hattempted
        rcases hcases with hdecided | ⟨-, hfalse, -⟩
        · have hsome : ∃ m, H m := by
            by_contra hnone
            exact hdecided.of_due.1 (.inl (not_exists.mp hnone))
          obtain ⟨m, hm⟩ := hsome
          refine ⟨_, (hscanned _).mpr ⟨m, hm, rfl⟩, ?_⟩
          rw [hsent]
          rfl
        · exact absurd hfalse (by decide)
    obtain ⟨m, hm, ha⟩ := hrow
    obtain ⟨m', hm', heq⟩ := hkeeps.delivery key m hm (within_iff.mpr ⟨_, ha, hnear⟩)
    exact ⟨m', hm', heq.trans ha⟩
  · -- A failed attempt, of an earlier sweep or of this one.
    obtain ⟨H, g, due, hkept, -, hdue, hscanned, hcases⟩ := @scan_spec s i hi key
    have hrow : ∃ m, Has (Pass.scanned ⟨s, i⟩) key m ∧ m.alertedAt = none ∧ m.attemptedAt = some q.now := by
      rcases List.mem_append.mp hq with hq | hq
      · obtain ⟨m, hm, ha, hatt⟩ := hf.attempted q hq key hattempted hnot (by omega)
        have hnear' : within i.now ALERT_RETRY_EVERY m.attemptedAt = true := within_iff.mpr ⟨_, hatt, hnear⟩
        have hnotDue : due = false := by
          cases due with
          | false => rfl
          | true =>
            rcases hcases with hdecided | ⟨-, hfalse, -⟩
            · exact absurd ⟨m, hkept m hm, ha, hnear'⟩ hdecided.of_due.2
            · exact hfalse
        have hg : (g m).alertedAt = m.alertedAt ∧ (g m).attemptedAt = m.attemptedAt := by
          rcases hcases with hdecided | ⟨rfl, -, -⟩
          · exact hdecided.same m
          · exact ⟨rfl, rfl⟩
        refine ⟨_, (hscanned _).mpr ⟨m, hkept m hm, rfl⟩, ?_⟩
        rw [hnotDue]
        exact ⟨hg.1.trans ha, hg.2.trans hatt⟩
      · obtain rfl := List.mem_singleton.mp hq
        have hunsent : i.sends key = false := by
          unfold Pass.delivered at hnot
          rw [hattempted, Bool.true_and] at hnot
          exact hnot
        obtain rfl : due = true := hdue.symm.trans hattempted
        obtain ⟨m, hm, ha⟩ := hkeeps.unsent key hattempted hunsent
        refine ⟨m, hm, ha, ?_⟩
        obtain ⟨m', -, rfl⟩ := (hscanned m).mp hm
        rw [hunsent]
        rfl
    obtain ⟨m, hm, ha, hatt⟩ := hrow
    obtain ⟨m', hm', ha', heq⟩ := hkeeps.attempt key m hm ha (within_iff.mpr ⟨_, hatt, hnear⟩)
    exact ⟨m', hm', ha', heq.trans hatt⟩
  · -- What is qualified was not delivered in the last day.
    obtain ⟨H, g, due, -, hfrom, -, hscanned, hcases⟩ := @scan_spec s i hi key
    obtain ⟨m₀, hm₀, rfl⟩ := (hscanned m).mp (has_of_resolveRows hm)
    obtain ⟨m₁, hm₁, rfl⟩ := (hscanned m').mp (has_of_resolveRows hm')
    have hnotSent : ¬ (due = true ∧ i.sends key = true) := by
      intro ⟨hdue, hsent⟩
      rw [hdue, hsent] at hq
      exact hq rfl
    have hafter : ∀ x : Marks, (x.after i.now due (i.sends key)).alertedAt = x.alertedAt ∧
        (x.after i.now due (i.sends key)).qualifiedAt = x.qualifiedAt := by
      intro x
      unfold Marks.after
      cases due with
      | false => exact ⟨rfl, rfl⟩
      | true =>
        cases hsends : i.sends key with
        | false => exact ⟨rfl, rfl⟩
        | true => exact absurd ⟨rfl, hsends⟩ hnotSent
    rw [(hafter _).1] at ha
    rw [(hafter _).2] at hq
    have hunchanged : g = id → a + ALERT_EVERY ≤ i.now := by
      rintro rfl
      have hsome₀ : Has s.table key m₀ := by
        rcases hfrom m₀ hm₀ with h | rfl
        · exact h
        · exact absurd rfl hq
      have hsome₁ : Has s.table key m₁ := by
        rcases hfrom m₁ hm₁ with h | rfl
        · exact h
        · exact absurd ha nofun
      exact (hf.quiet key m₀ m₁ a hsome₀ hq hsome₁ ha).trans hle
    have hunblocked : ¬ Blocked i.now H → m₁.alertedAt = some a → a + ALERT_EVERY ≤ i.now := by
      intro hnot ha'
      by_contra hnear
      exact hnot (.inr ⟨m₁, hm₁, within_iff.mpr ⟨a, ha', by omega⟩⟩)
    rcases hcases with hdecided | ⟨hid, -, -⟩
    · have hsame := (hdecided.same m₁).1
      cases hdecided with
      | blocked _ => exact hunchanged rfl
      | waiting hnot _ _ => exact hunblocked hnot (hsame.symm.trans ha)
      | nothing hnot _ => exact hunblocked hnot (hsame.symm.trans ha)
      | qualified hnot _ _ => exact hunblocked hnot (hsame.symm.trans ha)
    · exact hunchanged hid
  · -- An attempt that is marked was made.
    obtain ⟨H, g, due, -, hfrom, hdue, hscanned, hcases⟩ := @scan_spec s i hi key
    obtain ⟨m₀, hm₀, rfl⟩ := (hscanned m).mp (has_of_resolveRows hm)
    cases due with
    | true =>
      refine ⟨⟨s, i⟩, List.mem_append_right _ (List.mem_singleton.mpr rfl), hdue, ?_⟩
      have hnow : ((g m₀).after i.now true (i.sends key)).attemptedAt = some i.now := by
        unfold Marks.after
        cases i.sends key <;> rfl
      exact Option.some.inj (hnow.symm.trans ha)
    | false =>
      have hg : (g m₀).attemptedAt = m₀.attemptedAt := by
        rcases hcases with hdecided | ⟨rfl, -, -⟩
        · exact (hdecided.same m₀).2
        · rfl
      have ha₀ : m₀.attemptedAt = some a := hg.symm.trans ha
      have hsome : Has s.table key m₀ := by
        rcases hfrom m₀ hm₀ with h | rfl
        · exact h
        · exact absurd ha₀ nofun
      obtain ⟨q, hq, hattempted, hnow⟩ := hf.marked key m₀ a hsome ha₀
      exact ⟨q, List.mem_append_left _ hq, hattempted, hnow⟩

/-! ## Runs of sweeps -/

/-- A run whose sweeps keep the marks keeps the timing, and leaves the marks. -/
theorem follows_run {inputs : List Input} (hhealthy : ∀ i ∈ inputs, Healthy i)
    (htimes : inputs.Pairwise fun i j => i.now ≤ j.now) (hkeeps : ∀ p ∈ passes {} inputs, Keeps p) :
    Ordered Timely (passes {} inputs) ∧
      ∀ last, (∀ i ∈ inputs, i.now ≤ last) → Follows (passes {} inputs) last (run {} inputs).table := by
  induction inputs using List.reverseRecOn with
  | nil =>
    have hempty : ∀ key m, ¬ Has (run {} []).table key m := fun key m ⟨x, hx, _⟩ => by
      cases (List.mem_filter.mp hx).1
    exact ⟨ordered_nil _, fun last _ => ⟨nofun, nofun, fun key m hm => absurd hm (hempty key m),
      fun key m _ _ hm => absurd hm (hempty key m), fun key m _ hm => absurd hm (hempty key m)⟩⟩
  | append_singleton inputs i ih =>
    obtain ⟨hearlier, -, hlater⟩ := List.pairwise_append.mp htimes
    rw [passes_append] at hkeeps ⊢
    obtain ⟨hordered, hfollows⟩ := ih (fun j hj => hhealthy j (List.mem_append_left _ hj)) hearlier
      fun p hp => hkeeps p (List.mem_append_left _ hp)
    have hi : Healthy i := hhealthy i (List.mem_append_right _ (List.mem_singleton.mpr rfl))
    have hbefore : Follows (passes {} inputs) i.now (run {} inputs).table :=
      hfollows i.now fun j hj => hlater j hj i (List.mem_singleton.mpr rfl)
    have hkeep : Keeps ⟨run {} inputs, i⟩ :=
      hkeeps _ (List.mem_append_right _ (List.mem_singleton.mpr rfl))
    have hrun : run {} (inputs ++ [i]) = sweep (run {} inputs) i := by
      unfold run
      rw [List.foldl_append]
      rfl
    refine ⟨ordered_snoc.mpr ⟨hordered, hbefore.timely hi (le_refl _)⟩, fun last hlast => ?_⟩
    rw [hrun]
    exact (hbefore.sweep hi (le_refl _) hkeep).mono
      (hlast i (List.mem_append_right _ (List.mem_singleton.mpr rfl)))

/-- Over every run of sweeps at times that do not go back, whose sweeps keep the marks, two deliveries are a
day apart, two attempts half an hour, and an alert that is qualified and not delivered is attempted by the
first sweep half an hour after its last attempt. -/
theorem timely_run (inputs : List Input) (hhealthy : ∀ i ∈ inputs, Healthy i)
    (htimes : inputs.Pairwise fun i j => i.now ≤ j.now) (hkeeps : ∀ p ∈ passes {} inputs, Keeps p) :
    Ordered Timely (passes {} inputs) :=
  (follows_run hhealthy htimes hkeeps).1

/-! ## A run that keeps the timing, and one that does not -/

/-- A moment, in minutes. -/
abbrev minutes (n : ℤ) : ℤ := n * minute

/-- The line of a NAK that was sent to a client. -/
def nakSent (ts : ℤ) (tid : String) : Line :=
  { ts := some ts, id := "DHCP4_PACKET_SEND", label := some "aa:bb:cc:dd:ee:ff", tid := some tid, hasNak := true }

/-- A line that tells of no problem. -/
def releaseLine (ts : ℤ) : Line := { ts := some ts, id := "DHCP4_RELEASE" }

/-- A first sweep, three NAKs whose alert fails, and its delivery half an hour later. -/
def retriedSweeps : List Input :=
  [{ now := minutes 1000, tail := [(0, releaseLine (minutes 999))] },
    { now := minutes 1010
      tail := [(0, releaseLine (minutes 999)), (1, nakSent (minutes 1001) "0x1"),
        (2, nakSent (minutes 1002) "0x2"), (3, nakSent (minutes 1003) "0x3")]
      sends := fun _ => false },
    { now := minutes 1040, tail := [(3, nakSent (minutes 1003) "0x3")] }]

/-- NAKs all day: the alert of the first is delivered, and the one of the next day fails. -/
def alertedSweeps : List Input :=
  [{ now := minutes 1000, tail := [(0, releaseLine (minutes 999))] },
    { now := minutes 1010
      tail := [(0, releaseLine (minutes 999)), (1, nakSent (minutes 1001) "0x1"),
        (2, nakSent (minutes 1002) "0x2"), (3, nakSent (minutes 1003) "0x3")] },
    { now := minutes 2000, tail := [(4, nakSent (minutes 1999) "0x4")] },
    { now := minutes 2460
      tail := [(5, nakSent (minutes 2451) "0x5"), (6, nakSent (minutes 2452) "0x6"),
        (7, nakSent (minutes 2453) "0x7")]
      sends := fun _ => false },
    { now := minutes 2465
      tail := [(5, nakSent (minutes 2451) "0x5"), (6, nakSent (minutes 2452) "0x6"),
        (7, nakSent (minutes 2453) "0x7"), (8, nakSent (minutes 2461) "0x8")]
      sends := fun _ => false },
    { now := minutes 2500, tail := [(8, nakSent (minutes 2461) "0x8")] }]

/-- NAKs whose alert is delivered after a day of failures, just before the row is resolved; then more. -/
def resolvedSweeps : List Input :=
  [{ now := minutes 1000, tail := [(0, releaseLine (minutes 999))] },
    { now := minutes 1010
      tail := [(0, releaseLine (minutes 999)), (1, nakSent (minutes 1001) "0x1"),
        (2, nakSent (minutes 1002) "0x2"), (3, nakSent (minutes 1003) "0x3")]
      sends := fun _ => false },
    { now := minutes 2440, tail := [(3, nakSent (minutes 1003) "0x3")] },
    { now := minutes 2445, tail := [(3, nakSent (minutes 1003) "0x3")] },
    { now := minutes 2460
      tail := [(5, nakSent (minutes 2451) "0x5"), (6, nakSent (minutes 2452) "0x6"),
        (7, nakSent (minutes 2453) "0x7")] }]

/-- The client of the NAKs. -/
def nakKey : Key := ⟨.nak, "aa:bb:cc:dd:ee:ff", none⟩

/-- A sweep that resolves nothing, and finds no row that waits beside a delivery, keeps the marks. -/
theorem keeps_of_same {p : Pass} (hsame : resolveRows p.now p.scanned = p.scanned)
    (hwaits : ∀ x ∈ p.scanned.entries, x.2.qualifiedAt ≠ none → x.2.alertedAt = none)
    (hunsent : ∀ key, p.attempted key = true → p.input.sends key = false →
      ∃ m, Has p.scanned key m ∧ m.alertedAt = none) : Keeps p where
  unsent := hunsent
  delivery key m hm _ := ⟨m, by rwa [hsame], rfl⟩
  attempt key m hm ha _ := ⟨m, by rwa [hsame], ha, rfl⟩
  waiting key m hm hq := by
    refine ⟨m, hm, ?_, .inr hq⟩
    rw [hsame] at hm
    obtain ⟨x, hx, rfl⟩ := hm
    exact hwaits x (List.mem_filter.mp hx).1 hq

/-- The alert that fails is tried again after half an hour, and no rule is broken. -/
theorem timely_retried : Ordered Timely (passes {} retriedSweeps) := by
  refine timely_run retriedSweeps ?_ (by decide) ?_
  · refine List.forall_mem_cons.mpr ⟨⟨rfl, fun _ => rfl, rfl⟩, List.forall_mem_cons.mpr
      ⟨⟨rfl, fun _ => rfl, rfl⟩, List.forall_mem_singleton.mpr ⟨rfl, fun _ => rfl, rfl⟩⟩⟩
  · refine List.forall_mem_cons.mpr ⟨?_, List.forall_mem_cons.mpr ⟨?_, List.forall_mem_singleton.mpr ?_⟩⟩
    · exact keeps_of_same (by decide) (by decide) fun key _ hsent => absurd hsent nofun
    · refine keeps_of_same (by decide) (by decide) fun key hattempted _ => ?_
      obtain ⟨d, hd, hkey⟩ := List.any_eq_true.mp hattempted
      have hall : ∀ d ∈ (scan (run {} (retriedSweeps.take 1)) (retriedSweeps.getD 1 { now := 0, tail := [] })).2,
          d.key = nakKey := by decide
      obtain rfl : key = nakKey := (of_decide_eq_true hkey).symm.trans (hall d hd)
      exact ⟨⟨none, some (minutes 1010), some (minutes 1010)⟩, by decide, rfl⟩
    · exact keeps_of_same (by decide) (by decide) fun key _ hsent => absurd hsent nofun

/-- A delivery is forgotten with the row that is resolved, and the next follows in twenty minutes; an alert
that fails beside an older delivery is attempted again five minutes later, and once nothing is new no more. -/
theorem not_timely :
    ((∀ i ∈ resolvedSweeps, Healthy i) ∧ (resolvedSweeps.Pairwise fun i j => i.now ≤ j.now) ∧
      ∃ before p after, passes {} resolvedSweeps = before ++ p :: after ∧
        ∃ q ∈ before, q.delivered nakKey = true ∧ p.delivered nakKey = true ∧ p.now < q.now + ALERT_EVERY) ∧
    ((∀ i ∈ alertedSweeps, Healthy i) ∧ (alertedSweeps.Pairwise fun i j => i.now ≤ j.now) ∧
      (∃ before p after, passes {} alertedSweeps = before ++ p :: after ∧
        ∃ q ∈ before, q.attempted nakKey = true ∧ p.attempted nakKey = true ∧
          p.now < q.now + ALERT_RETRY_EVERY) ∧
      ∃ before p after, passes {} alertedSweeps = before ++ p :: after ∧
        ∃ m q, Has p.state.table nakKey m ∧ m.qualifiedAt = some q ∧ p.now - q < QUALIFICATION_KEEP ∧
          (∀ r ∈ before, r.attempted nakKey = true → r.now + ALERT_RETRY_EVERY ≤ p.now) ∧
            p.attempted nakKey = false) := by
  refine ⟨⟨?_, by decide, (passes {} resolvedSweeps).take 4, _, [], rfl, ?_⟩, ?_, by decide,
    ⟨(passes {} alertedSweeps).take 4, _, (passes {} alertedSweeps).drop 5, rfl, ?_⟩,
    ⟨(passes {} alertedSweeps).take 5, _, [], rfl, ?_⟩⟩
  · intro i hi
    simp only [resolvedSweeps, List.mem_cons, List.not_mem_nil, or_false] at hi
    rcases hi with rfl | rfl | rfl | rfl | rfl <;> exact ⟨rfl, fun _ => rfl, rfl⟩
  · exact ⟨_, List.mem_cons_of_mem _ (List.mem_cons_of_mem _ List.mem_cons_self), by decide,
      by decide, by decide⟩
  · intro i hi
    simp only [alertedSweeps, List.mem_cons, List.not_mem_nil, or_false] at hi
    rcases hi with rfl | rfl | rfl | rfl | rfl | rfl <;> exact ⟨rfl, fun _ => rfl, rfl⟩
  · exact ⟨_, List.mem_cons_of_mem _ (List.mem_cons_of_mem _ (List.mem_cons_of_mem _ List.mem_cons_self)),
      by decide, by decide, by decide⟩
  · exact ⟨⟨some (minutes 1010), some (minutes 2465), some (minutes 2460)⟩, minutes 2460, by decide, rfl,
      by decide, by decide, by decide⟩

end JenKea.Problems
