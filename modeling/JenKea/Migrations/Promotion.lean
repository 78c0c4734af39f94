import JenKea.Migrations.Runner
import Mathlib.Data.List.Nodup
import Mathlib.Tactic.SplitIfs

/-!
# The admins of an old install are promoted once

Whatever Jens start, fail, are killed and serve, and however their statements fall: the migrations are recorded in their
order, the admins of an install from before migration 6 are promoted once, and nobody is promoted after it is recorded.
A Jen whose start is through finds every migration recorded.

What is committed and what is not yet are both, at every statement, a stage from which the next Jen goes on.
-/

namespace JenKea.Migrations

/-- The migrations that a database has not. -/
def missing (first : Schema) : List ℕ := MIGRATIONS.filter fun v => v ∉ first.versions

/-- The users of a database, once migration 6 is through. -/
def target (first : Schema) : Users := if first.superadmin then first.users else promote first.users

/-- How far migration 6 is. -/
structure Stage (first s : Schema) : Prop where
  old : s.superadmin = false → first.superadmin = false ∧ s.users = first.users
  marked : s.superadmin = true → s.pending = true →
    first.superadmin = false ∧ (s.users = first.users ∨ s.users = promote first.users)
  settled : s.superadmin = true → s.pending = false → s.users = target first

/-- A state from which the next Jen goes on. -/
structure Good (first s : Schema) (expected : Users) : Prop where
  versions : ∃ done rest, missing first = done ++ rest ∧ s.versions = first.versions ++ done
  recorded : 6 ∈ s.versions → s.users = expected
  before : 6 ∉ s.versions → expected = target first ∧ Stage first s

/-- What is committed is such a state, and what is not yet is another. -/
structure Safe (first : Schema) (db : Db) : Prop where
  shared : Good first db.shared db.expected
  own : Good first db.own db.expected
  ahead : ∀ v ∈ db.shared.versions, v ∈ db.own.versions

/-- The migration is the next one. -/
def Next (first s : Schema) (version : ℕ) : Prop :=
  ∃ done rest, missing first = done ++ version :: rest ∧ s.versions = first.versions ++ done

/-- Nothing is uncommitted. -/
def Between (first : Schema) (db : Db) : Prop := Safe first db ∧ db.own = db.shared

/-- Every migration is recorded. -/
def Through (db : Db) : Prop := ∀ v ∈ MIGRATIONS, v ∈ db.shared.versions ∧ v ∈ db.own.versions

section Lemmas

variable {first s : Schema} {db t : Db} {write : Users → Users} {version : ℕ} {expected : Users}

theorem promote_promote {users : Users} : promote (promote users) = promote users := by
  unfold promote
  rw [List.map_map]
  refine List.map_congr_left fun u _ => ?_
  obtain ⟨name, role⟩ := u
  cases role with
  | superadmin => rfl
  | admin => rfl
  | viewer => rfl

theorem nodup_missing : (missing first).Nodup := List.Nodup.filter _ (List.nodup_range' 1 (by decide))

theorem Next.notMem (h : Next first s version) : version ∉ s.versions := by
  obtain ⟨done, rest, hmissing, hversions⟩ := h
  have hmem : version ∈ missing first := by
    rw [hmissing]
    exact List.mem_append_right _ List.mem_cons_self
  have hnodup := @nodup_missing first
  rw [hmissing] at hnodup
  have hdone : version ∉ done := fun hin => (List.nodup_append.mp hnodup).2.2 _ hin _ List.mem_cons_self rfl
  have hfirst : version ∉ first.versions := of_decide_eq_true (List.mem_filter.mp hmem).2
  rw [hversions]
  exact fun hin => (List.mem_append.mp hin).elim hfirst hdone

/-! ### What the other Jens do -/

@[simp] theorem versions_own_serve : (db.serve write).own.versions = db.own.versions := by
  unfold Db.serve
  split_ifs <;> rfl

@[simp] theorem versions_shared_serve : (db.serve write).shared.versions = db.shared.versions := by
  unfold Db.serve
  split_ifs <;> rfl

/-- Where migration 6 is not recorded, nobody serves. -/
theorem Safe.serve_eq (h : Safe first db) (h6 : 6 ∉ db.own.versions) : db.serve write = db :=
  if_neg fun hin => h6 (h.ahead 6 hin)

theorem Good.serve (h : Good first s expected) (h6 : 6 ∈ s.versions) :
    Good first { s with users := write s.users } (write expected) :=
  ⟨h.versions, fun _ => congrArg write (h.recorded h6), fun hnot => absurd h6 hnot⟩

theorem Safe.serve (h : Safe first db) : Safe first (db.serve write) := by
  unfold Db.serve
  split_ifs with h6
  · exact ⟨h.shared.serve h6, h.own.serve (h.ahead 6 h6), h.ahead⟩
  · exact h

theorem Safe.commit (h : Safe first db) : Safe first db.commit := ⟨h.own, h.own, fun _ hv => hv⟩

theorem Safe.rollback (h : Safe first db) : Safe first db.rollback := ⟨h.shared, h.shared, fun _ hv => hv⟩

theorem Safe.perhaps {commits : Bool} (h : Safe first db) : Safe first (db.perhaps commits) := by
  unfold Db.perhaps
  split_ifs
  · exact h.commit
  · exact h

@[simp] theorem own_perhaps {commits : Bool} : (db.perhaps commits).own = db.own := by
  unfold Db.perhaps
  split_ifs <;> rfl

end Lemmas

/-! ## The statements -/

/-- The state is safe at the end, and what the program returns is as said. -/
def Outcome {α : Type} (first : Schema) (P : α → Db → Prop) (r : Except Unit α) (t : Db) : Prop :=
  Safe first t ∧ ∀ a, r = .ok a → P a t

section Statements

variable {first : Schema} {db : Db} {version : ℕ} {α β : Type}

theorem wp_andThen {p : M α} {f : α → M β} {P : α → Db → Prop} {Q : β → Db → Prop}
    (hp : p.wp handler (Safe first) (Outcome first P) db)
    (hf : ∀ a t, Safe first t → P a t → (f a).wp handler (Safe first) (Outcome first Q) t) :
    (p.bind f).wp handler (Safe first) (Outcome first Q) db := by
  refine (Prog.wp_bind p f _).mpr (Prog.wp_mono (fun r t ht => ?_) hp)
  cases r with
  | ok a => exact hf a t ht.1 (ht.2 a rfl)
  | error e => exact ⟨ht.1, fun a ha => (by cases ha)⟩

theorem wp_return {a : α} {P : α → Db → Prop} (h : Safe first db) (ha : P a db) :
    (Prog.done a : M α).wp handler (Safe first) (Outcome first P) db :=
  ⟨h, fun b hb => by
    rw [← Except.ok.inj hb]
    exact ha⟩

/-- A statement, by what it answers and does. -/
theorem wp_ask {o : Op} {P : o.Result → Db → Prop} (hsafe : ∀ c, Safe first (handler o c db).2)
    (hP : ∀ c a, (handler o c db).1 = some a → P a (handler o c db).2) :
    (ask o).wp handler (Safe first) (Outcome first P) db := by
  intro c
  refine ⟨hsafe c, ?_⟩
  cases ha : (handler o c db).1 with
  | none => exact ⟨hsafe c, fun a hok => (by cases hok)⟩
  | some a => exact wp_return (hsafe c) (hP c a ha)

/-- A change of migration 6, in the transaction. -/
theorem wp_execute {change : Change} {P : Unit → Db → Prop} (h : Safe first db) (h6 : 6 ∉ db.own.versions)
    (hnext : Safe first { db with own := change.apply db.own })
    (hP : P () { db with own := change.apply db.own }) :
    (ask (.execute change)).wp handler (Safe first) (Outcome first P) db := by
  refine wp_ask (fun c => ?_) fun c a ha => ?_
  · unfold handler
    rw [h.serve_eq h6]
    unfold reply
    dsimp only
    split_ifs
    · exact h
    · exact hnext
  · unfold handler at ha ⊢
    rw [h.serve_eq h6] at ha ⊢
    unfold reply at ha ⊢
    dsimp only at ha ⊢
    split_ifs at ha ⊢
    exact hP

/-- A change of migration 6 to the schema, which commits. -/
theorem wp_alter {change : Change} {P : Unit → Db → Prop} (h : Safe first db) (h6 : 6 ∉ db.own.versions)
    (hnext : Safe first { db with shared := change.apply db.own, own := change.apply db.own })
    (hP : P () { db with shared := change.apply db.own, own := change.apply db.own }) :
    (ask (.alter change)).wp handler (Safe first) (Outcome first P) db := by
  refine wp_ask (fun c => ?_) fun c a ha => ?_
  · unfold handler
    rw [h.serve_eq h6]
    unfold reply
    dsimp only
    split_ifs
    · exact h.perhaps
    · exact hnext
  · unfold handler at ha ⊢
    rw [h.serve_eq h6] at ha ⊢
    unfold reply at ha ⊢
    dsimp only at ha ⊢
    split_ifs at ha ⊢
    exact hP

/-- What migration 6 reads. -/
theorem wp_read {o : Op} {P : o.Result → Db → Prop} (h : Safe first db) (h6 : 6 ∉ db.own.versions) {value : o.Result}
    (hreply : ∀ c, reply o c db = (if c.fails then none else some value, db)) (hP : P value db) :
    (ask o).wp handler (Safe first) (Outcome first P) db := by
  refine wp_ask (fun c => ?_) fun c a ha => ?_
  · unfold handler
    rw [h.serve_eq h6, hreply]
    exact h
  · unfold handler at ha ⊢
    rw [h.serve_eq h6, hreply] at ha ⊢
    dsimp only at ha ⊢
    split_ifs at ha
    rw [← Option.some.inj ha]
    exact hP

/-- A state of migration 6 that is good: the versions are as they were. -/
theorem Good.stage {s s' : Schema} {expected : Users} (h : Good first s expected) (h6 : 6 ∉ s.versions)
    (hversions : s'.versions = s.versions) (hstage : Stage first s') : Good first s' expected := by
  refine ⟨?_, fun hin => ?_, fun _ => ⟨(h.before h6).1, hstage⟩⟩
  · rw [hversions]
    exact h.versions
  · rw [hversions] at hin
    exact absurd hin h6

theorem Safe.execute {change : Change} (h : Safe first db) (h6 : 6 ∉ db.own.versions)
    (hversions : (change.apply db.own).versions = db.own.versions) (hstage : Stage first (change.apply db.own)) :
    Safe first { db with own := change.apply db.own } :=
  ⟨h.shared, h.own.stage h6 hversions hstage, fun v hv => by
    dsimp only
    rw [hversions]
    exact h.ahead v hv⟩

theorem Safe.alter {change : Change} (h : Safe first db) (h6 : 6 ∉ db.own.versions)
    (hversions : (change.apply db.own).versions = db.own.versions) (hstage : Stage first (change.apply db.own)) :
    Safe first { db with shared := change.apply db.own, own := change.apply db.own } :=
  ⟨h.own.stage h6 hversions hstage, h.own.stage h6 hversions hstage, fun _ hv => hv⟩

end Statements

/-! ## Migration 6 -/

section Six

variable {first : Schema} {db : Db}

theorem wp_expandRole (h : Safe first db) (h6 : 6 ∉ db.own.versions) :
    expandRole.wp handler (Safe first) (Outcome first fun _ t =>
      t.own.versions = db.own.versions ∧ t.own.superadmin = true) db := by
  refine wp_andThen (wp_read h h6 (P := fun a t => a = db.own.superadmin ∧ t = db) (fun _ => rfl) ⟨rfl, rfl⟩) ?_
  rintro modern t - ⟨rfl, rfl⟩
  cases hrole : t.own.superadmin with
  | true => exact wp_return h ⟨rfl, hrole⟩
  | false =>
    obtain ⟨hfirst, husers⟩ := (h.own.before h6).2.old hrole
    have hmarked : Stage first (Change.markPending.apply t.own) := by
      refine ⟨fun _ => ⟨hfirst, husers⟩, fun hsuper => ?_, fun hsuper => ?_⟩
      · exact absurd (hrole.symm.trans hsuper) Bool.false_ne_true
      · exact absurd (hrole.symm.trans hsuper) Bool.false_ne_true
    have hnext := h.execute h6 rfl hmarked
    refine wp_andThen (wp_execute h h6 hnext (P := fun _ u => u = { t with own := Change.markPending.apply t.own }) rfl) ?_
    rintro _ u - rfl
    have hexpanded : Stage first (Change.expandRole.apply (Change.markPending.apply t.own)) :=
      ⟨fun hold => (by cases hold), fun _ _ => ⟨hfirst, .inl husers⟩, fun _ hpending => (by cases hpending)⟩
    exact wp_alter hnext h6 (hnext.alter h6 rfl hexpanded) ⟨rfl, rfl⟩

theorem wp_promotePending (h : Safe first db) (h6 : 6 ∉ db.own.versions) (hrole : db.own.superadmin = true) :
    promotePending.wp handler (Safe first) (Outcome first fun _ t =>
      t.own.versions = db.own.versions ∧ t.own.superadmin = true ∧ t.own.pending = false) db := by
  refine wp_andThen (wp_read h h6 (P := fun a t => a = db.own.pending ∧ t = db) (fun _ => rfl) ⟨rfl, rfl⟩) ?_
  rintro pending t - ⟨rfl, rfl⟩
  cases hpending : t.own.pending with
  | false => exact wp_return h ⟨rfl, hrole, hpending⟩
  | true =>
    obtain ⟨hfirst, husers⟩ := (h.own.before h6).2.marked hrole hpending
    have hpromoted : promote t.own.users = promote first.users := by
      rcases husers with husers | husers
      · rw [husers]
      · rw [husers, promote_promote]
    have hstage : Stage first (Change.promote.apply t.own) := by
      refine ⟨fun hold => ?_, fun _ _ => ⟨hfirst, .inr hpromoted⟩, fun _ hnot => ?_⟩
      · exact absurd (hrole.symm.trans hold) (by decide)
      · exact absurd (hpending.symm.trans hnot) (by decide)
    have hnext := h.execute h6 rfl hstage
    refine wp_andThen (wp_execute h h6 hnext (P := fun _ u => u = { t with own := Change.promote.apply t.own }) rfl) ?_
    rintro _ u - rfl
    have hcleared : Stage first (Change.clearPending.apply (Change.promote.apply t.own)) := by
      refine ⟨fun hold => ?_, fun _ hmarked => (by cases hmarked), fun _ _ => ?_⟩
      · exact absurd (hrole.symm.trans hold) (by decide)
      · unfold target
        rw [hfirst]
        exact hpromoted
    exact wp_execute hnext h6 (hnext.execute h6 rfl hcleared) ⟨rfl, hrole, rfl⟩

theorem wp_addAccess (h : Safe first db) (h6 : 6 ∉ db.own.versions) (hrole : db.own.superadmin = true)
    (hpending : db.own.pending = false) : addAccess.wp handler (Safe first) (Outcome first fun _ t =>
      t.own.versions = db.own.versions ∧ t.own.superadmin = true ∧ t.own.pending = false) db := by
  refine wp_andThen (wp_read h h6 (P := fun _ t => t = db) (fun _ => rfl) rfl) ?_
  rintro missing t - rfl
  cases missing with
  | false => exact wp_return h ⟨rfl, hrole, hpending⟩
  | true =>
    have hold := (h.own.before h6).2
    have hstage : Stage first (Change.addAccess.apply t.own) := ⟨hold.old, hold.marked, hold.settled⟩
    exact wp_alter h h6 (h.alter h6 rfl hstage) ⟨rfl, hrole, hpending⟩

theorem wp_m006 (h : Safe first db) (h6 : 6 ∉ db.own.versions) : m006.wp handler (Safe first)
    (Outcome first fun _ t => t.own.versions = db.own.versions ∧ t.own.superadmin = true ∧ t.own.pending = false) db := by
  refine wp_andThen (wp_expandRole h h6) ?_
  rintro _ t ht ⟨hversions, hrole⟩
  rw [← hversions] at h6 ⊢
  refine wp_andThen (wp_promotePending ht h6 hrole) ?_
  rintro _ u hu ⟨hversions', hrole', hpending⟩
  rw [← hversions'] at h6 ⊢
  exact wp_addAccess hu h6 hrole' hpending

end Six

/-! ## The loop -/

section Loop

variable {first : Schema} {db : Db} {version : ℕ} {α : Type}

theorem wp_migrate (h : Safe first db) : (ask .migrate).wp handler (Safe first)
    (Outcome first fun _ t => t.own.versions = db.own.versions) db := by
  refine wp_ask (fun c => ?_) fun c a _ => ?_
  · exact h.serve.perhaps
  · show ((db.serve c.write).perhaps c.commits).own.versions = db.own.versions
    rw [own_perhaps, versions_own_serve]

theorem wp_fn (h : Safe first db) (hversion : version ∉ db.own.versions) : (fn version).wp handler (Safe first)
    (Outcome first fun _ t => t.own.versions = db.own.versions ∧
      (version = 6 → t.own.superadmin = true ∧ t.own.pending = false)) db := by
  unfold fn
  split_ifs with h6
  · rw [h6] at hversion
    refine Prog.wp_mono (fun r t ht => ⟨ht.1, fun a ha => ?_⟩) (wp_m006 h hversion)
    exact ⟨(ht.2 a ha).1, fun _ => (ht.2 a ha).2⟩
  · exact Prog.wp_mono (fun r t ht => ⟨ht.1, fun a ha => ⟨ht.2 a ha, fun hv => absurd hv h6⟩⟩) (wp_migrate h)

/-- The record of a migration that is through. -/
theorem Good.record {s : Schema} {expected : Users} (h : Good first s expected) (hnext : Next first s version)
    (h6 : version = 6 → s.superadmin = true ∧ s.pending = false) :
    Good first ((Change.record version).apply s) expected := by
  have happly : (Change.record version).apply s = { s with versions := s.versions ++ [version] } := rfl
  rw [happly]
  refine ⟨?_, fun hin => ?_, fun hnot => ?_⟩
  · obtain ⟨done, rest, hmissing, hversions⟩ := hnext
    refine ⟨done ++ [version], rest, ?_, ?_⟩
    · rw [hmissing, List.append_assoc, List.singleton_append]
    · dsimp only
      rw [hversions, List.append_assoc]
  · by_cases hold : 6 ∈ s.versions
    · exact h.recorded hold
    · have hlast : version = 6 := by
        rcases List.mem_append.mp hin with hin | hin
        · exact absurd hin hold
        · exact (List.mem_singleton.mp hin).symm
      obtain ⟨hrole, hpending⟩ := h6 hlast
      rw [(h.before hold).1]
      exact (h.before hold).2.settled hrole hpending
  · have hold : 6 ∉ s.versions := fun hin => hnot (List.mem_append_left _ hin)
    have hstage := (h.before hold).2
    exact ⟨(h.before hold).1, hstage.old, hstage.marked, hstage.settled⟩

theorem Safe.record (h : Safe first db) (hnext : Next first db.own version)
    (h6 : version = 6 → db.own.superadmin = true ∧ db.own.pending = false) :
    Safe first { db with own := (Change.record version).apply db.own } :=
  ⟨h.shared, h.own.record hnext h6, fun v hv => List.mem_append_left _ (h.ahead v hv)⟩

theorem wp_record (h : Safe first db) (hnext : Next first db.own version)
    (h6 : version = 6 → db.own.superadmin = true ∧ db.own.pending = false) :
    (ask (.execute (.record version))).wp handler (Safe first)
      (Outcome first fun _ t => t.own.versions = db.own.versions ++ [version]) db := by
  have hserve : ∀ write, Safe first { db.serve write with
      own := (Change.record version).apply (db.serve write).own } := by
    intro write
    refine h.serve.record ?_ fun hv => ?_
    · unfold Next
      rw [versions_own_serve]
      exact hnext
    · have hnot : 6 ∉ db.own.versions := hv ▸ hnext.notMem
      rw [h.serve_eq hnot]
      exact h6 hv
  have hversions : ∀ write, ((Change.record version).apply (db.serve write).own).versions =
      db.own.versions ++ [version] := by
    intro write
    show (db.serve write).own.versions ++ [version] = _
    rw [versions_own_serve]
  refine wp_ask (fun c => ?_) fun c a ha => ?_
  · unfold handler reply
    dsimp only
    split_ifs
    · exact h.serve
    · exact hserve c.write
  · unfold handler reply at ha ⊢
    dsimp only at ha ⊢
    split_ifs at ha ⊢
    exact hversions c.write

/-- A transaction: nothing is uncommitted after it, and what holds of the versions at its end holds of those that are
committed. -/
theorem wp_jenDb {p : M α} {R : α → List ℕ → Prop}
    (hp : p.wp handler (Safe first) (Outcome first fun a t => R a t.own.versions) db) :
    (jenDb p).wp handler (Safe first) (fun r t => Between first t ∧ ∀ a, r = .ok a → R a t.shared.versions) db := by
  have hrollback : ∀ t, Safe first t → ∀ e : Unit, (Prog.call .rollback fun _ => .raise e : M α).wp handler (Safe first)
      (fun r t => Between first t ∧ ∀ a, r = .ok a → R a t.shared.versions) t := by
    intro t ht e c
    exact ⟨ht.serve.rollback, ⟨ht.serve.rollback, rfl⟩, fun a ha => (by cases ha)⟩
  refine (Prog.wp_handle _ _ _).mpr ((Prog.wp_bind _ _ _).mpr (Prog.wp_mono (fun r t ht => ?_) hp))
  obtain ⟨hsafe, hR⟩ := ht
  cases r with
  | error e => exact hrollback t hsafe e
  | ok a =>
    refine (Prog.wp_bind _ _ _).mpr fun c => ?_
    cases hfails : c.fails with
    | false =>
      have hcommit : handler .commit c t = (some (), (t.serve c.write).commit) := by
        unfold handler reply
        rw [hfails]
        rfl
      rw [hcommit]
      refine ⟨hsafe.serve.commit, ⟨hsafe.serve.commit, rfl⟩, fun b hb => ?_⟩
      show R b (t.serve c.write).own.versions
      rw [versions_own_serve, ← Except.ok.inj hb]
      exact hR a rfl
    | true =>
      have hcommit : handler .commit c t = (none, (t.serve c.write).perhaps c.commits) := by
        unfold handler reply
        rw [hfails]
        rfl
      rw [hcommit]
      exact ⟨hsafe.serve.perhaps, hrollback _ hsafe.serve.perhaps ()⟩

/-- What is left to record, at the start of a run. -/
theorem left_of_between (h : Between first db) :
    db.shared.versions ++ MIGRATIONS.filter (fun v => v ∉ db.shared.versions) = first.versions ++ missing first := by
  obtain ⟨done, rest, hmissing, hversions⟩ := h.1.shared.versions
  have hnodup := @nodup_missing first
  have hsplit : MIGRATIONS.filter (fun v => v ∉ db.shared.versions) = (missing first).filter fun v => v ∉ done := by
    unfold missing
    rw [List.filter_filter]
    refine List.filter_congr fun v _ => ?_
    rw [hversions]
    simp only [List.mem_append, not_or, Bool.decide_and]
    exact Bool.and_comm _ _
  rw [hmissing] at hnodup
  have hrest : (done ++ rest).filter (fun v => v ∉ done) = rest := by
    have hnone : done.filter (fun v => v ∉ done) = [] := by
      refine List.filter_eq_nil_iff.mpr fun v hv => ?_
      simpa using hv
    rw [List.filter_append, hnone, List.nil_append]
    refine List.filter_eq_self.mpr fun v hv => decide_eq_true fun hin => ?_
    exact (List.nodup_append.mp hnodup).2.2 v hin v hv rfl
  rw [hsplit, hmissing, hrest, hversions, List.append_assoc]

/-- The migrations that are recorded, and those of the rest of the loop that are to be, in the order of the list. -/
structure Going (first : Schema) (applied rest : List ℕ) (db : Db) : Prop where
  between : Between first db
  left : db.shared.versions ++ rest.filter (fun v => v ∉ applied) = first.versions ++ missing first

theorem filter_cons_left {applied rest : List ℕ} (hnot : version ∉ applied) :
    (version :: rest).filter (fun v => v ∉ applied) = version :: rest.filter fun v => v ∉ applied := by
  rw [List.filter_cons, if_pos (decide_eq_true hnot)]

theorem Going.next {applied rest : List ℕ} (h : Going first applied (version :: rest) db) (hnot : version ∉ applied) :
    Next first db.own version := by
  obtain ⟨done, rest', hmissing, hversions⟩ := h.between.1.shared.versions
  have hleft := h.left
  rw [filter_cons_left hnot, hversions, List.append_assoc, List.append_cancel_left_eq] at hleft
  refine ⟨done, rest.filter fun v => v ∉ applied, hleft.symm, ?_⟩
  rw [h.between.2]
  exact hversions

theorem wp_apply {applied rest : List ℕ} {count : ℕ} (h : Going first applied (version :: rest) db) :
    (apply applied version count).wp handler (Safe first)
      (fun r t => Between first t ∧ ∀ n, r = .ok n → Going first applied rest t) db := by
  unfold apply
  split_ifs with happlied
  · refine ⟨h.between, fun n _ => ⟨h.between, ?_⟩⟩
    have hleft := h.left
    rwa [List.filter_cons_of_neg (by simpa using happlied)] at hleft
  · have hnext := h.next happlied
    have hbody : ((fn version).bind fun _ => ask (.execute (.record version))).wp handler (Safe first)
        (Outcome first fun _ t => t.own.versions = db.own.versions ++ [version]) db := by
      refine wp_andThen (wp_fn h.between.1 hnext.notMem) ?_
      rintro _ t ht ⟨hversions, h6⟩
      rw [← hversions]
      refine wp_record ht ?_ h6
      unfold Next
      rw [hversions]
      exact hnext
    refine (Prog.wp_bind _ _ _).mpr (Prog.wp_mono (fun r t ht => ?_)
      (@wp_jenDb _ _ _ _ (fun _ versions => versions = db.own.versions ++ [version]) hbody))
    cases r with
    | error e => exact ⟨ht.1, fun n hn => (by cases hn)⟩
    | ok a =>
      refine ⟨ht.1, fun n _ => ⟨ht.1, ?_⟩⟩
      have hleft := h.left
      rw [filter_cons_left happlied] at hleft
      rw [ht.2 a rfl, h.between.2, List.append_assoc, List.singleton_append]
      exact hleft

/-- At the end of the list every migration is recorded. -/
theorem Going.through {applied : List ℕ} (h : Going first applied [] db) : Through db := by
  have hleft := h.left
  rw [List.filter_nil, List.append_nil] at hleft
  have hshared : ∀ v ∈ MIGRATIONS, v ∈ db.shared.versions := by
    intro v hv
    rw [hleft]
    by_cases hfirst : v ∈ first.versions
    · exact List.mem_append_left _ hfirst
    · exact List.mem_append_right _ (List.mem_filter.mpr ⟨hv, decide_eq_true hfirst⟩)
  intro v hv
  rw [h.between.2]
  exact ⟨hshared v hv, hshared v hv⟩

/-- A run of the migrations. -/
theorem wp_runMigrationsLocked (h : Between first db) : runMigrationsLocked.wp handler (Safe first)
    (fun r t => Between first t ∧ ((∃ n, r = .ok n) → Through t)) db := by
  have hcreate := @wp_jenDb _ _ _ _ (fun _ versions => versions = db.own.versions) (wp_migrate h.1)
  refine (Prog.wp_bind _ _ _).mpr (Prog.wp_mono (fun r t ht => ?_) hcreate)
  cases r with
  | error e => exact ⟨ht.1, fun hok => (by obtain ⟨n, hn⟩ := hok; cases hn)⟩
  | ok a =>
    have happlied : (ask .applied).wp handler (Safe first) (Outcome first fun a t => a = t.own.versions) t := by
      refine wp_ask (fun c => ht.1.1.serve) fun c a ha => ?_
      unfold handler reply at ha ⊢
      dsimp only at ha ⊢
      split_ifs at ha
      exact (Option.some.inj ha).symm
    refine (Prog.wp_bind _ _ _).mpr (Prog.wp_mono (fun r u hu => ?_)
      (@wp_jenDb _ _ _ _ (fun a versions => a = versions) happlied))
    cases r with
    | error e => exact ⟨hu.1, fun hok => (by obtain ⟨n, hn⟩ := hok; cases hn)⟩
    | ok applied =>
      obtain rfl : applied = u.shared.versions := hu.2 applied rfl
      refine Prog.wp_fold (fun rest _ v => Going first u.shared.versions rest v) (fun v rest count w hw => ?_)
        (fun count w hw => ⟨hw.between, fun _ => hw.through⟩) ⟨hu.1, left_of_between hu.1⟩
      refine Prog.wp_mono (fun r x hx => ?_) (wp_apply hw)
      cases r with
      | error e => exact ⟨hx.1, fun hok => (by obtain ⟨n, hn⟩ := hok; cases hn)⟩
      | ok n => exact hx.2 n rfl

end Loop

/-! ## Every interleaving -/

section Runs

variable {first : Schema} {db : Db}

theorem through_reply {o : Op} {c : Decision} (h : Through db) : Through (reply o c db).2 := by
  have hcommit : Through db.commit := fun v hv => ⟨(h v hv).2, (h v hv).2⟩
  have hperhaps : Through (db.perhaps c.commits) := by
    unfold Db.perhaps
    split_ifs
    · exact hcommit
    · exact h
  have happly : ∀ change : Change, ∀ v ∈ MIGRATIONS, v ∈ (change.apply db.own).versions := by
    intro change v hv
    cases change with
    | record version => exact List.mem_append_left _ (h v hv).2
    | _ => exact (h v hv).2
  cases o with
  | execute change =>
    dsimp only [reply]
    split_ifs
    · exact h
    · exact fun v hv => ⟨(h v hv).1, happly change v hv⟩
  | alter change =>
    dsimp only [reply]
    split_ifs
    · exact hperhaps
    · exact fun v hv => ⟨happly change v hv, happly change v hv⟩
  | migrate => exact hperhaps
  | commit =>
    dsimp only [reply]
    split_ifs
    · exact hperhaps
    · exact hcommit
  | rollback => exact fun v hv => ⟨(h v hv).1, (h v hv).1⟩
  | _ => exact h

theorem through_serve {write : Users → Users} (h : Through db) : Through (db.serve write) := fun v hv => by
  rw [versions_shared_serve, versions_own_serve]
  exact h v hv

theorem between_serve {write : Users → Users} (h : Between first db) : Between first (db.serve write) := by
  refine ⟨h.1.serve, ?_⟩
  unfold Db.serve
  split_ifs
  · dsimp only
    rw [h.2]
  · exact h.2

/-- What one run of the migrations is. -/
theorem rule : Locked.Rule system (Between first) (Safe first) Through where
  program _ h := wp_runMigrationsLocked h
  inside _ h := h.1
  cut _ h := ⟨h.rollback, rfl⟩
  other _ _ h := between_serve h
  call_done _ _ _ h := through_reply (through_serve h)
  cut_done _ h v hv := ⟨(h v hv).1, (h v hv).1⟩
  other_done _ _ h := through_serve h

/-- A database that no Jen with migration 6 has begun with. -/
def Db.start (first : Schema) : Db := ⟨first, first, if 6 ∈ first.versions then first.users else target first⟩

theorem between_start (h : first.pending = false) : Between first (.start first) := by
  have hgood : Good first first (if 6 ∈ first.versions then first.users else target first) := by
    refine ⟨⟨[], missing first, rfl, (List.append_nil _).symm⟩, fun h6 => (if_pos h6).symm, fun h6 => ⟨if_neg h6, ?_⟩⟩
    refine ⟨fun hold => ⟨hold, rfl⟩, fun _ hmarked => ?_, fun hrole _ => ?_⟩
    · rw [h] at hmarked
      cases hmarked
    · unfold target
      rw [hrole]
      rfl
  exact ⟨⟨hgood, hgood, fun _ hv => hv⟩, rfl⟩

end Runs

/-- What Jens make of a database. -/
structure Migrated (first : Schema) (w : Locked.World DbI Unit ℕ Db) : Prop where
  /-- one Jen migrates at a time -/
  one : ∀ i j p q, w.procs i = .inside p → w.procs j = .inside q → i = j
  /-- the migrations are recorded in their order, and none is left out -/
  inOrder : ∃ done rest, missing first = done ++ rest ∧ w.shared.shared.versions = first.versions ++ done
  /-- before migration 6 is recorded the users are as they were, or promoted once -/
  before : 6 ∉ w.shared.shared.versions → w.shared.shared.users = first.users ∨
    first.superadmin = false ∧ w.shared.shared.users = promote first.users
  /-- once it is, they are promoted where they were to be, and else as the Jens that serve have made them -/
  after : 6 ∈ w.shared.shared.versions → w.shared.shared.users = w.shared.expected
  /-- a Jen that starts finds every migration recorded -/
  started : ∀ i n, w.procs i = .ended (.ok n) → ∀ v ∈ MIGRATIONS, v ∈ w.shared.shared.versions

/-- Whatever Jens start, wait, fail, are killed at any statement and serve, in whatever order. -/
theorem migrated (first : Schema) (h : first.pending = false) (acts : List (Locked.Act Unit Decision (Users → Users))) :
    Migrated first (Locked.run system (Locked.start (.start first)) acts) := by
  have hinv : Locked.Inv system (Between first) (Safe first) Through
      (Locked.run system (Locked.start (.start first)) acts) := Locked.inv_run rule (between_start h)
  have hsafe : Safe first (Locked.run system (Locked.start (.start first)) acts).shared := hinv.state rule
  generalize Locked.run system (Locked.start (.start first)) acts = w at hinv hsafe ⊢
  refine ⟨fun i j p q hp hq => hinv.alone hq hp, hsafe.shared.versions, fun h6 => ?_, hsafe.shared.recorded,
    fun i n hn v hv => (hinv.ended i n hn v hv).1⟩
  have hstage := (hsafe.shared.before h6).2
  cases hrole : w.shared.shared.superadmin with
  | false => exact .inl (hstage.old hrole).2
  | true =>
    cases hpending : w.shared.shared.pending with
    | true =>
      obtain ⟨hfirst, husers⟩ := hstage.marked hrole hpending
      exact husers.imp_right fun hpromoted => ⟨hfirst, hpromoted⟩
    | false =>
      have husers := hstage.settled hrole hpending
      unfold target at husers
      split_ifs at husers with hfirst
      · exact .inl husers
      · exact .inr ⟨Bool.eq_false_iff.mpr hfirst, husers⟩

/-- An install from before migration 6. -/
def oldInstall : Schema :=
  ⟨false, false, [("root", .admin), ("guest", .viewer)], false, [1, 2, 3, 4, 5]⟩

/-- A statement that goes through. -/
def through : Decision := ⟨false, false, id⟩

/-- A Jen that is killed once the ENUM is expanded, and another that starts. -/
theorem migrated_killed : Migrated oldInstall (Locked.run system (Locked.start (.start oldInstall))
    ([.enter 0] ++ List.replicate 7 (.call 0 through) ++ [.kill 0, .enter 1, .call 1 through])) :=
  migrated oldInstall rfl _

end JenKea.Migrations
