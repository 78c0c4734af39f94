import Mathlib.Data.List.Nodup
import JenKea.ChangeSet.Trace

/-!
# The order of a change set

What may follow what in a run: nothing is written before everything was read, mutated, and tested;
the file targets are written before the API targets; a daemon is restarted once everything is
written, or when its server was just put back; and `finalize` is called once, after the restarts.
`MarkOrder` says it of one mark and the marks before it, and `runChange_ordered` says it of every
prefix of every trace, whatever is answered.
-/

namespace JenKea.ChangeSet

variable {γ : Type}

/-- Every planned server was read, every read ended ok or skip, and every candidate was tested, with
the answer ok. -/
structure Tested (c : Change γ) (before : List (Mark γ)) : Prop where
  reads : ∀ p ∈ c.planned, ∃ cfg, .read p.1 p.2 cfg ∈ before
  judged : ∀ s kind cfg, .read s kind cfg ∈ before → ∃ after code,
    c.mutate s cfg = .ok (after, code) ∧
      (code = "ok" ∧ .test s kind after true ∈ before ∨ code ≠ "ok" ∧ code ∈ c.skipCodes)
  tests : ∀ s kind cfg ok, .test s kind cfg ok ∈ before → ok = true

/-- Every candidate was written, and every write answered ok. -/
structure Written (c : Change γ) (before : List (Mark γ)) : Prop where
  all : ∀ s kind cfg after, .read s kind cfg ∈ before → c.mutate s cfg = .ok (after, "ok") →
    .write s kind after true ∈ before
  writes : ∀ s kind cfg ok, .write s kind cfg ok ∈ before → ok = true

/-- The restart of every file target's daemon answered. -/
def Restarted (c : Change γ) (before : List (Mark γ)) : Prop :=
  ∀ s cfg after, .read s .file cfg ∈ before → c.mutate s cfg = .ok (after, "ok") →
    ∃ ok, .restart s ok ∈ before

/-- Nothing was put back, and Jen has not recorded the change on its own side. -/
structure Forward (before : List (Mark γ)) : Prop where
  reverts : ∀ s kind cfg ok, .revert s kind cfg ok ∉ before
  finalizes : ∀ ok, .finalize ok ∉ before

/-- What a mark needs of the marks before it. -/
def MarkOrder (c : Change γ) (before : List (Mark γ)) : Mark γ → Prop
  | .write _ kind _ _ =>
    Tested c before ∧ (kind = .file → ∀ s cfg ok, .write s .api cfg ok ∉ before)
  | .revert .. => Tested c before
  | .restart s _ => (Written c before ∧ Forward before) ∨
    ∃ cfg, before.getLast? = some (.revert s .file cfg true)
  | .finalize _ => Written c before ∧ (c.restart → Restarted c before) ∧ Forward before
  | _ => True

/-- The order without the exceptions of a rollback: a daemon is restarted only once everything is
written, and never after Jen recorded the change on its own side. -/
def StrictOrder (c : Change γ) (before : List (Mark γ)) : Mark γ → Prop
  | .restart _ _ => Written c before ∧ ∀ ok, .finalize ok ∉ before
  | e => MarkOrder c before e

/-! ## The phases before the first write -/

/-- The marks of the phases before the first write. -/
def Mark.isEarly : Mark γ → Prop
  | .read .. | .test .. | .other => True
  | _ => False

/-- The marks of the phases from the first write on. -/
def Mark.isLate : Mark γ → Prop
  | .read .. | .test .. => False
  | _ => True

theorem Mark.isPlan.early {e : Mark γ} (h : e.isPlan) : e.isEarly := by
  cases e <;> trivial

section Phases

variable {c : Change γ} {targets : List (Target γ)} {log log₀ : List (Mark γ)}

theorem ordered_of_early (h : ∀ e ∈ log, e.isEarly) : Ordered (MarkOrder c) log := by
  have hall : ∀ e ∈ log, ∀ before, MarkOrder c before e := fun e he before => by
    have := h e he
    cases e <;> trivial
  simpa using (ordered_nil (MarkOrder c)).append hall

/-- The mark of a test that answered ok. -/
def Target.tested (t : Target γ) : Mark γ := .test t.server t.transport t.afterCfg true

/-- The mark of a write that answered ok. -/
def Target.written (t : Target γ) : Mark γ := .write t.server t.transport t.afterCfg true

theorem TargetOf.transport_ne {t : Target γ} (h : TargetOf c c.planned log t) :
    t.transport ≠ .off := by
  simpa using (List.mem_filter.mp h.planned).2

/-- The preflight tests every target, and passes only when every test answered ok. -/
theorem preflight_trace {lines : List Line} (ht : ∀ t ∈ targets, t.transport ≠ .off)
    (hlog : ∀ e ∈ log, e.isEarly) : Traces (Prog.fold (preflight c) targets (false, lines))
      (fun r log' => (∀ e ∈ log', e.isEarly) ∧ ∃ acc, r = .ok acc ∧
        (acc.1 = false → log' = log ++ targets.map Target.tested)) log := by
  refine Prog.wp_fold (fun rest acc log' => (∀ e ∈ log', e.isEarly) ∧
    ∃ done, done ++ rest = targets ∧
      (acc.1 = false → log' = log ++ done.map Target.tested)) ?_ ?_ ?_
  · rintro t rest acc log' ⟨hearly, done, hdone, hpass⟩
    have htr : t.transport ≠ .off := ht t (by simp [← hdone])
    refine (Prog.wp_bind _ _ _).mpr (testTarget_trace htr fun res => ?_)
    have hearly' : ∀ e ∈ log' ++ [.test t.server t.transport t.afterCfg res.ok], e.isEarly := by
      intro e he
      rcases List.mem_append.mp he with he | he
      · exact hearly e he
      · rw [List.mem_singleton.mp he]; trivial
    cases hok : res.ok with
    | true =>
      simp only [hok, if_true] at hearly' ⊢
      refine ⟨hearly', done ++ [t], by simp [hdone], fun h => ?_⟩
      simp [hpass h, Target.tested]
    | false =>
      simp only [hok, Bool.false_eq_true, if_false] at hearly' ⊢
      exact ⟨hearly', done ++ [t], by simp [hdone], fun h => by simp at h⟩
  · rintro acc log' ⟨hearly, done, hdone, hpass⟩
    rw [List.append_nil] at hdone
    exact ⟨hearly, acc, rfl, hdone ▸ hpass⟩
  · exact ⟨hlog, [], rfl, by simp⟩

theorem PlanTrace.tested (h : PlanTrace c c.planned targets log) :
    Tested c (log ++ targets.map Target.tested) := by
  have hread : ∀ s kind cfg, Mark.read s kind cfg ∈ log ++ targets.map Target.tested →
      .read s kind cfg ∈ log := by
    intro s kind cfg he
    rcases List.mem_append.mp he with he | he
    · exact he
    · obtain ⟨t, -, ht⟩ := List.mem_map.mp he
      simp [Target.tested] at ht
  refine ⟨fun p hp => ?_, fun s kind cfg he => ?_, fun s kind cfg ok he => ?_⟩
  · obtain ⟨cfg, hcfg⟩ := h.reads p hp
    exact ⟨cfg, List.mem_append_left _ hcfg⟩
  · obtain ⟨after, code, hm, ⟨hok, t, ht, rfl, rfl, rfl⟩ | hskip⟩ := h.judged s kind cfg (hread _ _ _ he)
    · exact ⟨_, code, hm, .inl ⟨hok, List.mem_append_right _ (List.mem_map.mpr ⟨t, ht, rfl⟩)⟩⟩
    · exact ⟨after, code, hm, .inr hskip⟩
  · rcases List.mem_append.mp he with he | he
    · exact absurd (h.quiet _ he) (by simp [Mark.isPlan])
    · obtain ⟨t, -, ht⟩ := List.mem_map.mp he
      simp only [Target.tested, Mark.test.injEq] at ht
      exact ht.2.2.2.symm

theorem Tested.append (h : Tested c log) {more : List (Mark γ)} (hmore : ∀ e ∈ more, e.isLate) :
    Tested c (log ++ more) := by
  have hold : ∀ e : Mark γ, ¬ e.isLate → e ∈ log ++ more → e ∈ log := by
    intro e he hmem
    rcases List.mem_append.mp hmem with hmem | hmem
    · exact hmem
    · exact absurd (hmore e hmem) he
  refine ⟨fun p hp => ?_, fun s kind cfg he => ?_, fun s kind cfg ok he => ?_⟩
  · obtain ⟨cfg, hcfg⟩ := h.reads p hp
    exact ⟨cfg, List.mem_append_left _ hcfg⟩
  · obtain ⟨after, code, hm, ⟨hok, ht⟩ | hskip⟩ := h.judged s kind cfg (hold _ id he)
    · exact ⟨after, code, hm, .inl ⟨hok, List.mem_append_left _ ht⟩⟩
    · exact ⟨after, code, hm, .inr hskip⟩
  · exact h.tests s kind cfg ok (hold _ id he)

/-! ## Rollbacks -/

/-- What every step of a rollback keeps. -/
structure Rollback (c : Change γ) (log : List (Mark γ)) : Prop where
  tested : Tested c log
  ordered : Ordered (MarkOrder c) log

theorem Rollback.revert (h : Rollback c log) (t : Target γ) (ok : Bool) :
    Rollback c (log ++ [.revert t.server t.transport t.beforeCfg ok]) :=
  ⟨h.tested.append (by simp [Mark.isLate]), ordered_snoc.mpr ⟨h.ordered, h.tested⟩⟩

/-- A restart in a rollback follows the revert of the same server. -/
theorem Rollback.restart {s : Server} {cfg : Option γ}
    (h : Rollback c (log ++ [.revert s .file cfg true])) (ok : Bool) :
    Rollback c (log ++ [.revert s .file cfg true] ++ [.restart s ok]) :=
  ⟨h.tested.append (by simp [Mark.isLate]), ordered_snoc.mpr ⟨h.ordered, .inr ⟨cfg, by simp⟩⟩⟩

theorem undoCommitted_trace {t : Target γ} (ht : t.transport ≠ .off) (h : Rollback c log)
    (acc : Undone γ) : Traces (undoCommitted c t acc)
      (fun r log' => Rollback c log' ∧ ∃ acc', r = .ok acc') log := by
  refine (Prog.wp_bind _ _ _).mpr (restoreTarget_trace ht fun res => ?_)
  have hrev := h.revert t res.ok
  cases hok : res.ok with
  | false =>
    simp only [hok, Bool.false_eq_true, not_false_iff, if_true] at hrev ⊢
    exact ⟨hrev, _, rfl⟩
  | true =>
    simp only [hok, not_true_eq_false, if_false] at hrev ⊢
    split_ifs with hr
    · rw [hr.2] at hrev ⊢
      refine (Prog.wp_bind _ _ _).mpr (restartTarget_trace fun again => ?_)
      have hres := hrev.restart again.ok
      dsimp only
      split_ifs
      · exact ⟨hres, _, rfl⟩
      · exact ⟨hres, _, rfl⟩
    · exact ⟨hrev, _, rfl⟩

theorem putBack_trace {t : Target γ} (ht : t.transport ≠ .off) (h : Rollback c log)
    (restart : Bool) (acc : PutBack γ) : Traces (putBack c restart t acc)
      (fun r log' => Rollback c log' ∧ ∃ acc', r = .ok acc') log := by
  refine (Prog.wp_bind _ _ _).mpr (restoreTarget_trace ht fun res => ?_)
  have hrev := h.revert t res.ok
  cases hok : res.ok with
  | false =>
    simp only [hok, Bool.false_eq_true, not_false_iff, if_true] at hrev ⊢
    exact ⟨hrev, _, rfl⟩
  | true =>
    simp only [hok, not_true_eq_false, if_false] at hrev ⊢
    split_ifs with hr
    · exact ⟨hrev, _, rfl⟩
    · rw [not_or, not_not, not_not] at hr
      rw [hr.2] at hrev ⊢
      refine (Prog.wp_bind _ _ _).mpr (restartTarget_trace fun again => ?_)
      have hres := hrev.restart again.ok
      dsimp only
      split_ifs
      · exact ⟨hres, _, rfl⟩
      · exact ⟨hres, _, rfl⟩

theorem putEverythingBack_trace {lines : List Line} {restart : Bool}
    (ht : ∀ t ∈ targets, t.transport ≠ .off) (h : Rollback c log) :
    Traces (putEverythingBack c targets lines restart)
      (fun r log' => Rollback c log' ∧ ∃ back, r = .ok back) log := by
  refine Prog.wp_fold (fun rest _ log' => rest ⊆ targets ∧ Rollback c log') ?_ ?_ ?_
  · rintro t rest acc log' ⟨hsub, hlog'⟩
    have ⟨hmem, hrest⟩ := List.cons_subset.mp hsub
    refine Prog.wp_mono ?_ (putBack_trace (ht t hmem) hlog' restart acc)
    rintro r log'' ⟨hlog'', acc', rfl⟩
    exact ⟨hrest, hlog''⟩
  · rintro acc log' ⟨-, hlog'⟩
    exact ⟨hlog', acc, rfl⟩
  · exact ⟨fun t ht => List.mem_reverse.mp ht, h⟩

theorem commitFailed_trace {lines : List Line} {t : Target γ} {res : HostResult}
    (ht : ∀ u ∈ targets, u.transport ≠ .off) (h : Rollback c log) :
    Traces (commitFailed c lines targets t res) (fun _ log' => Ordered (MarkOrder c) log') log := by
  unfold commitFailed
  refine (Prog.wp_bind _ _ _).mpr (Prog.wp_fold
    (fun rest _ log' => rest ⊆ targets ∧ Rollback c log') ?_ ?_ ?_)
  · rintro u rest acc log' ⟨hsub, hlog'⟩
    have ⟨hmem, hrest⟩ := List.cons_subset.mp hsub
    refine Prog.wp_mono ?_ (undoCommitted_trace (ht u hmem) hlog' acc)
    rintro r log'' ⟨hlog'', acc', rfl⟩
    exact ⟨hrest, hlog''⟩
  · rintro acc log' ⟨-, hlog'⟩
    exact hlog'.ordered
  · exact ⟨fun u hu => List.mem_reverse.mp hu, h⟩

/-! ## The commit -/

/-- One target, but for the digest that its write returned. -/
def SameBut (u t : Target γ) : Prop := ∃ sha, u = { t with appliedSha := sha }

/-- `committed` records what was done of the targets `done`, and of no others. -/
structure Commits (committed done : List (Target γ)) : Prop where
  origin : ∀ u ∈ committed, ∃ t ∈ done, SameBut u t
  all : ∀ t ∈ done, ∃ u ∈ committed, SameBut u t

theorem Commits.snoc {committed done : List (Target γ)} (h : Commits committed done)
    (t : Target γ) (sha : Option String) :
    Commits (committed ++ [{ t with appliedSha := sha }]) (done ++ [t]) := by
  refine ⟨fun u hu => ?_, fun u hu => ?_⟩
  · rcases List.mem_append.mp hu with hu | hu
    · obtain ⟨d, hd, hs⟩ := h.origin u hu
      exact ⟨d, List.mem_append_left _ hd, hs⟩
    · exact ⟨t, by simp, sha, List.mem_singleton.mp hu⟩
  · rcases List.mem_append.mp hu with hu | hu
    · obtain ⟨d, hd, hs⟩ := h.all u hu
      exact ⟨d, List.mem_append_left _ hd, hs⟩
    · rw [List.mem_singleton.mp hu]
      exact ⟨_, List.mem_append_right _ (List.mem_singleton_self _), sha, rfl⟩

/-- In the order of the commit no API target comes before a file target. -/
theorem commitOrder_files_first {done rest : List (Target γ)} {t : Target γ}
    (h : done ++ t :: rest = commitOrder targets) (ht : t.transport = .file) :
    ∀ u ∈ done, u.transport ≠ .api := by
  have hsplit : ∀ a b : List (Target γ), (∀ u ∈ b, u.transport = .api) →
      (∀ u ∈ a, u.transport ≠ .api) → done ++ t :: rest = a ++ b →
      ∀ u ∈ done, u.transport ≠ .api := by
    intro a b hb ha hab u hu
    rcases List.append_eq_append_iff.mp hab with ⟨m, rfl, hm⟩ | ⟨m, rfl, hm⟩
    · exact ha u (List.mem_append_left _ hu)
    · have htb : t ∈ b := by rw [hm]; simp
      exact absurd (hb t htb) (by simp [ht])
  refine hsplit _ _ ?_ ?_ h
  · simp
  · simp

/-- What the commit has written, when `done` is committed. -/
structure Committing (c : Change γ) (targets done : List (Target γ)) (log₀ log : List (Mark γ)) :
    Prop where
  log_eq : log = log₀ ++ done.map Target.written
  ordered : Ordered (MarkOrder c) log

/-- The commit writes the targets in its order. It ends with every target committed, or with the
first write that is not ok. -/
theorem commit_trace (ht : ∀ t ∈ commitOrder targets, t.transport ≠ .off)
    (hlog₀ : ∀ e ∈ log₀, e.isEarly) (htested : Tested c log₀) :
    Traces (Prog.loop (commit c) (commitOrder targets) []) (fun r log => match r with
      | .ok (.inl committed) => Committing c targets (commitOrder targets) log₀ log ∧
          Commits committed (commitOrder targets)
      | .ok (.inr (committed, _, _)) => Rollback c log ∧ ∀ u ∈ committed, u.transport ≠ .off
      | .error _ => False) log₀ := by
  refine Prog.wp_loop (fun rest committed log => ∃ done, done ++ rest = commitOrder targets ∧
    Committing c targets done log₀ log ∧ Commits committed done) ?_ ?_ ?_
  · rintro t rest committed log ⟨done, hdone, hinv, hsame⟩
    have htr : t.transport ≠ .off := ht t (by simp [← hdone])
    refine (Prog.wp_bind _ _ _).mpr (writeTarget_trace htr fun res => ?_)
    have htest : Tested c log := hinv.log_eq ▸ htested.append (by simp [Mark.isLate, Target.written])
    have hfirst : t.transport = .file → ∀ s cfg ok, Mark.write s .api cfg ok ∉ log := by
      intro hfile s cfg ok hmem
      rw [hinv.log_eq] at hmem
      rcases List.mem_append.mp hmem with hmem | hmem
      · exact hlog₀ _ hmem
      · obtain ⟨u, hu, heq⟩ := List.mem_map.mp hmem
        simp only [Target.written, Mark.write.injEq] at heq
        exact commitOrder_files_first hdone hfile u hu heq.2.1
    have hmark : MarkOrder c log (.write t.server t.transport t.afterCfg res.ok) := ⟨htest, hfirst⟩
    have hord := ordered_snoc.mpr ⟨hinv.ordered, hmark⟩
    cases hok : res.ok with
    | true =>
      simp only [hok, if_true] at hord ⊢
      refine ⟨done ++ [t], by simp [hdone], ⟨?_, hord⟩, hsame.snoc t _⟩
      simp [hinv.log_eq, Target.written]
    | false =>
      simp only [hok, Bool.false_eq_true, if_false] at hord ⊢
      refine ⟨⟨htest.append (by simp [Mark.isLate]), hord⟩, fun u hu => ?_⟩
      obtain ⟨d, hd, sha, rfl⟩ := hsame.origin u hu
      exact ht d (by simp [← hdone, hd])
  · rintro committed log ⟨done, hdone, hinv, hsame⟩
    rw [List.append_nil] at hdone
    exact hdone ▸ ⟨hinv, hsame⟩
  · exact ⟨[], rfl, ⟨by simp, ordered_of_early hlog₀⟩, by simp, by simp⟩

theorem Commits.withApplied {committed : List (Target γ)} (hpos : (targets.map (·.pos)).Nodup)
    (h : ∀ u ∈ committed, ∃ t ∈ targets, SameBut u t) :
    Commits (withApplied targets committed) targets := by
  have hsame : ∀ t ∈ targets, SameBut ((committed.find? (·.pos = t.pos)).getD t) t := by
    intro t ht
    cases hf : committed.find? (·.pos = t.pos) with
    | none => exact ⟨t.appliedSha, rfl⟩
    | some d =>
      obtain ⟨t', ht', sha, rfl⟩ := h d (List.mem_of_find?_eq_some hf)
      have hp : t'.pos = t.pos := by simpa using List.find?_some hf
      exact ⟨sha, by rw [← List.inj_on_of_nodup_map hpos ht' ht hp]; rfl⟩
  refine ⟨fun u hu => ?_, fun t ht => ⟨_, List.mem_map_of_mem ht, hsame t ht⟩⟩
  obtain ⟨t, ht, rfl⟩ := List.mem_map.mp hu
  exact ⟨t, ht, hsame t ht⟩

theorem mem_commitOrder {t : Target γ} : t ∈ commitOrder targets ↔ t ∈ targets := by
  by_cases h : t.transport = .api <;> simp [commitOrder, h]

/-! ## Restart, finalize -/

/-- Where a run stands when every write answered ok and nothing was put back. -/
structure Committed (c : Change γ) (log : List (Mark γ)) : Prop where
  tested : Tested c log
  written : Written c log
  forward : Forward log
  ordered : Ordered (MarkOrder c) log

theorem Committed.rollback (h : Committed c log) : Rollback c log := ⟨h.tested, h.ordered⟩

/-- A mark that is no read, no write, no revert, and no `finalize`. -/
def Mark.isNeutral : Mark γ → Prop
  | .restart .. | .other => True
  | _ => False

theorem Committed.snoc (h : Committed c log) {e : Mark γ} (he : e.isNeutral)
    (hord : MarkOrder c log e) : Committed c (log ++ [e]) := by
  have hold : ∀ x : Mark γ, ¬ x.isNeutral → x ∈ log ++ [e] → x ∈ log := by
    intro x hx hmem
    rcases List.mem_append.mp hmem with hmem | hmem
    · exact hmem
    · exact absurd (List.mem_singleton.mp hmem ▸ he) hx
  refine ⟨h.tested.append ?_, ⟨fun s k b a hr hm => ?_, fun s k b ok hw => ?_⟩,
    ⟨fun s k b ok hr => ?_, fun ok hf => ?_⟩, ordered_snoc.mpr ⟨h.ordered, hord⟩⟩
  · intro x hx
    rw [List.mem_singleton.mp hx]
    cases e <;> trivial
  · exact List.mem_append_left _ (h.written.all s k b a (hold _ id hr) hm)
  · exact h.written.writes s k b ok (hold _ id hw)
  · exact h.forward.reverts s k b ok (hold _ id hr)
  · exact h.forward.finalizes ok (hold _ id hf)

/-- What the restarts after a commit leave: an answer for each target, recorded under its key. -/
structure RestartsOf (restartable : List (Target γ)) (restarts : List (Key × HostResult))
    (log₀ log : List (Mark γ)) : Prop where
  reads : ∀ s kind cfg, .read s kind cfg ∈ log → .read s kind cfg ∈ log₀
  answered : ∀ t ∈ restartable, ∃ ok, .restart t.server ok ∈ log
  entries : ∀ e ∈ restarts, ∃ t ∈ restartable, t.key = e.1 ∧ .restart t.server e.2.ok ∈ log

theorem restarts_trace {restartable : List (Target γ)} (h : Committed c log) :
    Traces (Prog.fold (restartOne c) restartable []) (fun r log' => Committed c log' ∧
      ∃ restarts, r = .ok restarts ∧ RestartsOf restartable restarts log log') log := by
  refine Prog.wp_fold (fun rest restarts log' => Committed c log' ∧
    ∃ done, done ++ rest = restartable ∧ RestartsOf done restarts log log') ?_ ?_ ?_
  · rintro t rest restarts log' ⟨hlog', done, hdone, hof⟩
    refine (Prog.wp_bind _ _ _).mpr (restartTarget_trace fun res => ?_)
    refine ⟨hlog'.snoc trivial (.inl ⟨hlog'.written, hlog'.forward⟩), done ++ [t], by simp [hdone],
      fun s kind cfg hr => hof.reads s kind cfg (by simpa using hr), fun u hu => ?_,
      fun e he => ?_⟩
    · rcases List.mem_append.mp hu with hu | hu
      · obtain ⟨ok, hok⟩ := hof.answered u hu
        exact ⟨ok, List.mem_append_left _ hok⟩
      · rw [List.mem_singleton.mp hu]
        exact ⟨res.ok, by simp⟩
    · rcases List.mem_append.mp he with he | he
      · obtain ⟨u, hu, hk, hm⟩ := hof.entries e he
        exact ⟨u, List.mem_append_left _ hu, hk, List.mem_append_left _ hm⟩
      · rw [List.mem_singleton.mp he]
        exact ⟨t, by simp, rfl, by simp⟩
  · rintro restarts log' ⟨hlog', done, hdone, hof⟩
    rw [List.append_nil] at hdone
    exact ⟨hlog', restarts, rfl, hdone ▸ hof⟩
  · exact ⟨h, [], rfl, fun _ _ _ hr => hr, by simp, by simp⟩

/-- A target whose recorded restart is ok was restarted with the answer ok, under its key. -/
theorem RestartsOf.ok {restartable : List (Target γ)} {restarts : List (Key × HostResult)}
    (h : RestartsOf restartable restarts log₀ log) {k : Key} (hok : (restartOf restarts k).ok = true) :
    ∃ t ∈ restartable, t.key = k ∧ .restart t.server true ∈ log := by
  unfold restartOf at hok
  cases hf : restarts.reverse.find? (·.1 = k) with
  | none => simp [hf] at hok
  | some e =>
    simp only [hf, Option.map_some, Option.getD_some] at hok
    obtain ⟨t, ht, hk, hm⟩ := h.entries e (List.mem_reverse.mp (List.mem_of_find?_eq_some hf))
    have hek : e.1 = k := by simpa using List.find?_some hf
    exact ⟨t, ht, hk.trans hek, hok ▸ hm⟩

/-- The restart phase: every file target is restarted, or everything is put back. -/
theorem restartPhase_trace {lines : List Line} (ht : ∀ t ∈ targets, t.transport ≠ .off)
    (h : Committed c log) : Traces (restartPhase c targets lines) (fun r log' => match r with
      | .ok none => Committed c log' ∧
          (∀ s kind cfg, .read s kind cfg ∈ log' → .read s kind cfg ∈ log) ∧
          (c.restart → ∀ t ∈ targets, t.transport = .file → (∃ ok, .restart t.server ok ∈ log') ∧
            ∃ u ∈ targets, u.key = t.key ∧ .restart u.server true ∈ log')
      | .ok (some _) => Ordered (MarkOrder c) log'
      | .error _ => False) log := by
  unfold restartPhase
  dsimp only
  split_ifs with hr
  · refine (Prog.wp_bind _ _ _).mpr (Prog.wp_mono ?_ (restarts_trace h))
    rintro r log' ⟨hlog', restarts, rfl, hof⟩
    dsimp only
    split_ifs with hf
    · refine ⟨hlog', hof.reads, fun _ t htt hfile => ?_⟩
      have hmem : t ∈ targets.filter (·.transport = .file) := by simp [htt, hfile]
      refine ⟨hof.answered t hmem, ?_⟩
      have hok : (restartOf restarts t.key).ok = true := by
        have := List.isEmpty_iff.mp hf
        simpa using List.filter_eq_nil_iff.mp this t hmem
      obtain ⟨u, hu, hk, hm⟩ := hof.ok hok
      exact ⟨u, List.mem_of_mem_filter hu, hk, hm⟩
    · refine (Prog.wp_bind _ _ _).mpr (Prog.wp_mono ?_ (putEverythingBack_trace ht hlog'.rollback))
      rintro r log'' ⟨hlog'', back, rfl⟩
      exact hlog''.ordered
  · refine ⟨h, fun _ _ _ hmem => hmem, fun hrestart t htt hfile => absurd ⟨hrestart, ?_⟩ hr⟩
    exact List.ne_nil_of_mem (List.mem_filter.mpr ⟨htt, by simpa using hfile⟩)

theorem finalizePhase_trace {lines : List Line} (ht : ∀ t ∈ targets, t.transport ≠ .off)
    (h : Committed c log) (hrestarted : c.restart → Restarted c log) :
    Traces (finalizePhase c targets lines) (fun _ log' => Ordered (MarkOrder c) log') log := by
  unfold finalizePhase
  split_ifs
  · have hord : ∀ ok, Ordered (MarkOrder c) (log ++ [.finalize ok]) := fun ok =>
      ordered_snoc.mpr ⟨h.ordered, h.written, hrestarted, h.forward⟩
    refine (Prog.wp_handle _ _ _).mpr ((Prog.wp_bind _ _ _).mpr
      ((traces_ask _ _ _).mpr ⟨fun _ => hord true, fun e => ?_⟩))
    have hback : Rollback c (log ++ [.finalize false]) :=
      ⟨h.tested.append (by simp [Mark.isLate]), hord false⟩
    refine (Prog.wp_bind _ _ _).mpr (Prog.wp_mono ?_ (putEverythingBack_trace ht hback))
    rintro r log' ⟨hlog', back, rfl⟩
    exact hlog'.ordered
  · exact h.ordered

theorem asks_announce (t : Target γ) (lines : List Line) : Asks (announce c t lines) := by
  unfold announce
  refine asks_bind (asks_ask (by rintro (_ | _) <;> rfl)) fun _ => ?_
  by_cases ha : t.transport = .api
  · rw [if_pos ha]
    exact asks_pure _
  rw [if_neg ha]
  rcases Classical.em (declaredTransport t.server = .api ∧ c.restart) with hd | hd
  · rw [if_pos hd]
    refine asks_bind (fun log => ?_) fun _ => asks_pure _
    exact traces_safe fun _ => (Asked.refl log).snoc
  · rw [if_neg hd]
    exact asks_pure _

theorem Asked.ordered (h : Asked log₀ log) (h₀ : Ordered (MarkOrder c) log₀) :
    Ordered (MarkOrder c) log := by
  obtain ⟨more, rfl, hmore⟩ := h
  exact h₀.append fun e he before => by rw [hmore e he]; trivial

theorem asks_fold {α β : Type} {body : β → α → ChangeM γ α} (hbody : ∀ x a, Asks (body x a))
    (xs : List β) (a : α) : Asks (Prog.fold body xs a) := by
  induction xs generalizing a with
  | nil => exact asks_pure a
  | cons x xs ih => exact asks_bind (hbody x a) ih

/-! ## The whole run -/

theorem afterCommit_trace {lines : List Line} (ht : ∀ t ∈ targets, t.transport ≠ .off)
    (h : Committed c log)
    (hread : ∀ s cfg after, Mark.read s .file cfg ∈ log → c.mutate s cfg = .ok (after, "ok") →
      ∃ t ∈ targets, t.server = s ∧ t.transport = .file) :
    Traces (afterCommit c targets lines) (fun _ log' => Ordered (MarkOrder c) log') log := by
  refine (Prog.wp_bind _ _ _).mpr (Prog.wp_mono ?_ (restartPhase_trace ht h))
  rintro (e | _ | r) log' h'
  · exact h'.elim
  · obtain ⟨hlog', hsame, hall⟩ := h'
    have hrestarted : c.restart → Restarted c log' := by
      intro hr s cfg after hmem hm
      obtain ⟨t, htt, rfl, hfile⟩ := hread s cfg after (hsame s .file cfg hmem) hm
      exact (hall hr t htt hfile).1
    refine (Prog.wp_bind _ _ _).mpr (Prog.wp_mono ?_ (finalizePhase_trace ht hlog' hrestarted))
    rintro (e | _ | r) log'' hlog''
    · exact hlog''
    · refine (Prog.wp_bind _ _ _).mpr (Prog.wp_mono ?_ (asks_fold asks_announce targets lines _))
      rintro (e | lines') log₃ hlog₃ <;> exact hlog₃.ordered hlog''
    · exact hlog''
  · exact h'

theorem Committing.mem {done : List (Target γ)} {e : Mark γ}
    (hc : Committing c targets done (log ++ targets.map Target.tested) log₀) (he : e ∈ log₀) :
    e ∈ log ∨ (∃ t ∈ targets, t.tested = e) ∨ ∃ t ∈ done, t.written = e := by
  rw [hc.log_eq, List.mem_append, List.mem_append, List.mem_map, List.mem_map] at he
  rwa [or_assoc] at he

/-- A read whose mutation ended ok belongs to a target. -/
theorem PlanTrace.read_target (h : PlanTrace c c.planned targets log) {s : Server}
    {kind : Transport} {cfg : Option γ} {after : γ} (hr : .read s kind cfg ∈ log)
    (hm : c.mutate s cfg = .ok (after, "ok")) :
    ∃ t ∈ targets, t.server = s ∧ t.transport = kind ∧ t.afterCfg = after := by
  obtain ⟨after', code, hm', ⟨-, t, ht, rfl, rfl, rfl⟩ | ⟨hne, -⟩⟩ := h.judged s kind cfg hr
  · obtain ⟨rfl, -⟩ := Prod.mk.inj (Except.ok.inj (hm.symm.trans hm'))
    exact ⟨t, ht, rfl, rfl, rfl⟩
  · exact absurd (Prod.mk.inj (Except.ok.inj (hm.symm.trans hm'))).2.symm hne

theorem Committing.read_mem {done : List (Target γ)} {s : Server} {kind : Transport}
    {cfg : Option γ} (hc : Committing c targets done (log ++ targets.map Target.tested) log₀)
    (he : .read s kind cfg ∈ log₀) : .read s kind cfg ∈ log := by
  rcases hc.mem he with he | ⟨t, -, ht⟩ | ⟨t, -, ht⟩
  · exact he
  · cases ht
  · cases ht

/-- Where the run stands once every write answered ok. -/
theorem PlanTrace.committed (h : PlanTrace c c.planned targets log)
    (hc : Committing c targets (commitOrder targets) (log ++ targets.map Target.tested) log₀) :
    Committed c log₀ := by
  have hlate : ∀ e ∈ (commitOrder targets).map Target.written, e.isLate := by
    simp [Target.written, Mark.isLate]
  refine ⟨hc.log_eq ▸ h.tested.append hlate, ⟨fun s kind cfg after hr hm => ?_,
    fun s kind cfg ok hw => ?_⟩, ⟨fun s kind cfg ok hr => ?_, fun ok hf => ?_⟩, hc.ordered⟩
  · obtain ⟨t, ht, rfl, rfl, rfl⟩ := h.read_target (hc.read_mem hr) hm
    rw [hc.log_eq]
    exact List.mem_append_right _ (List.mem_map_of_mem (mem_commitOrder.mpr ht))
  · rcases hc.mem hw with he | ⟨t, -, ht⟩ | ⟨t, -, ht⟩
    · exact (h.quiet _ he).elim
    · cases ht
    · exact (Mark.write.inj ht).2.2.2.symm
  · rcases hc.mem hr with he | ⟨t, -, ht⟩ | ⟨t, -, ht⟩
    · exact (h.quiet _ he).elim
    · cases ht
    · cases ht
  · rcases hc.mem hf with he | ⟨t, -, ht⟩ | ⟨t, -, ht⟩
    · exact (h.quiet _ he).elim
    · cases ht
    · cases ht

theorem afterPlan_trace {plan : Planned γ} (h : PlanTrace c c.planned plan.targets log) :
    Traces (afterPlan c plan) (fun _ log' => Ordered (MarkOrder c) log') log := by
  have htr : ∀ t ∈ plan.targets, t.transport ≠ .off := fun t ht => (h.origin t ht).transport_ne
  have hearly : ∀ e ∈ log, e.isEarly := fun e he => (h.quiet e he).early
  refine (Prog.wp_bind _ _ _).mpr (Prog.wp_mono ?_ (preflight_trace htr hearly))
  rintro r log₁ ⟨hlog₁, ⟨failed, lines⟩, rfl, hpass⟩
  dsimp only
  split_ifs with hfailed
  · exact ordered_of_early hlog₁
  obtain rfl := hpass (by simpa using hfailed)
  refine (Prog.wp_bind _ _ _).mpr (Prog.wp_mono ?_ (commit_trace
    (fun t ht => htr t (mem_commitOrder.mp ht)) hlog₁ h.tested))
  rintro (e | committed | ⟨committed, t, res⟩) log₂ hlog₂
  · exact hlog₂.elim
  · obtain ⟨hcommitting, hcommits⟩ := hlog₂
    have hpos : (plan.targets.map (·.pos)).Nodup := h.pos ▸ List.nodup_range
    have hc := Commits.withApplied hpos fun u hu => by
      obtain ⟨t, ht, hs⟩ := hcommits.origin u hu
      exact ⟨t, mem_commitOrder.mp ht, hs⟩
    have hcommitted := h.committed hcommitting
    refine afterCommit_trace (fun u hu => ?_) hcommitted fun s cfg after hr hm => ?_
    · obtain ⟨t, ht, sha, rfl⟩ := hc.origin u hu
      exact htr t ht
    · obtain ⟨t, ht, hs, hk, -⟩ := h.read_target (hcommitting.read_mem hr) hm
      obtain ⟨u, hu, sha, rfl⟩ := hc.all t ht
      exact ⟨_, hu, hs, hk⟩
  · exact commitFailed_trace hlog₂.2 hlog₂.1

/-- Every trace of a change set is ordered, however it ends. -/
theorem runChange_traces (c : Change γ) :
    Traces (runChangeUnlocked c) (fun _ log => Ordered (MarkOrder c) log) [] := by
  unfold runChangeUnlocked
  dsimp only
  split_ifs with hnone
  · exact ordered_nil _
  refine (Prog.wp_bind _ _ _).mpr (Prog.wp_mono ?_ plan_trace)
  rintro (e | plan | r) log h
  · exact ordered_of_early fun e he => (h e he).early
  · dsimp only at h ⊢
    split_ifs
    · exact ordered_of_early fun e he => (h.quiet e he).early
    · exact afterPlan_trace h
  · exact ordered_of_early fun e he => (h.2 e he).early

end Phases

/-- In every run, over any servers and whatever is answered, nothing is written or put back before
every server was read and mutated to ok or skip and every candidate was tested ok; file targets are
written before API targets; a daemon is restarted once every write answered ok, or right after its
server was put back; and `finalize` is called at most once, after every restart answered. -/
theorem runChange_ordered (c : Change γ) (answers : ℕ → (o : ChangeOp γ) → Except Exc o.Result) :
    Ordered (MarkOrder c) ((runChangeUnlocked c).run tracing answers []).state :=
  (Prog.wp_sound (runChange_traces c) answers).1

/-- Two file servers, and a change of both. -/
def twoFiles : Change ℕ :=
  { service := .dhcp4, mutateFn := fun _ => .ok (1, "ok"), summary := "",
    servers := [{ id := some 1, sshHost := "a" }, { id := some 2, sshHost := "b" }] }

/-- Every operation answers ok, but for the write of the second server. -/
def secondWriteFails : (o : ChangeOp ℕ) → Except Exc o.Result
  | .readConfigVersioned .. => .ok { cfg := some 0 }
  | .onHost (.applyConfig w) => .ok { ok := decide (w.server.id = some 1) }
  | .onHost _ => .ok { ok := true }
  | _ => .error ⟨"", ""⟩

/-- A daemon is restarted in a run whose writes did not all answer ok: its server was just put
back, since the write of another server failed. -/
theorem runChange_not_strict :
    ¬ ∀ answers, Ordered (StrictOrder twoFiles)
      ((runChangeUnlocked twoFiles).run tracing answers []).state := by
  intro h
  have hrun : ((runChangeUnlocked twoFiles).run tracing (fun _ => secondWriteFails) []).state =
      [.read { id := some 1, sshHost := "a" } .file (some 0),
       .read { id := some 2, sshHost := "b" } .file (some 0),
       .test { id := some 1, sshHost := "a" } .file 1 true,
       .test { id := some 2, sshHost := "b" } .file 1 true,
       .write { id := some 1, sshHost := "a" } .file 1 true,
       .write { id := some 2, sshHost := "b" } .file 1 false,
       .revert { id := some 1, sshHost := "a" } .file (some 0) true] ++
      [.restart { id := some 1, sshHost := "a" } true] := by decide
  have hord := h fun _ => secondWriteFails
  rw [hrun] at hord
  obtain ⟨hwritten, -⟩ := (ordered_snoc.mp hord).2
  exact absurd (hwritten.writes { id := some 2, sshHost := "b" } .file 1 false (by simp)) (by simp)

end JenKea.ChangeSet
