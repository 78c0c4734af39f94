import JenKea.Lib.Trace
import JenKea.ChangeSet.Model

/-!
# The trace of a change set

A run of a change set, seen as the list of its calls. `Mark` keeps of each call what the order of a
run is about: what was read, tested, written, put back, restarted, and finalized, and with what
answer. `tracing` runs a change set under arbitrary answers and records the marks, so what is proved
of it holds whatever the hosts and the daemons answer.
-/

namespace JenKea.ChangeSet

variable {γ : Type}

/-- What one call is to the order of a run. -/
inductive Mark (γ : Type) where
  /-- The Plan read a server. -/
  | read (server : Server) (kind : Transport) (cfg : Option γ)
  /-- A candidate was tested on a server. -/
  | test (server : Server) (kind : Transport) (cfg : γ) (ok : Bool)
  /-- A candidate was written to a server. -/
  | write (server : Server) (kind : Transport) (cfg : γ) (ok : Bool)
  /-- A server was put back on a configuration, or on none. -/
  | revert (server : Server) (kind : Transport) (cfg : Option γ) (ok : Bool)
  /-- A daemon was restarted. -/
  | restart (server : Server) (ok : Bool)
  /-- Jen recorded the change on its own side. -/
  | finalize (ok : Bool)
  /-- Any other call. -/
  | other
  deriving DecidableEq

/-- The mark of an operation on a host, which answered ok or not. -/
def hostMark : HostOp γ → Bool → Mark γ
  | .apiTest s _ cfg, ok => .test s .api cfg ok
  | .testConfig s _ cfg _ _, ok => .test s .file cfg ok
  | .apiApply s _ cfg _ _ _ _, ok => .write s .api cfg ok
  | .applyConfig w, ok =>
    if w.source = "rollback" then .revert w.server .file (some w.cfg) ok
    else .write w.server .file w.cfg ok
  | .apiRevert s _ cfg _ _ _, ok => .revert s .api cfg ok
  | .removeConfig s _ _, ok => .revert s .file none ok
  | .serviceAction s _ _, ok => .restart s ok
  | .recordDaemonAfterFileChange .., _ => .other

/-- The mark of a call and its answer. -/
def markOf : (o : ChangeOp γ) → Except Exc o.Result → Mark γ
  | .apiRead s _, .ok r => if r.cfg.isSome then .read s .api r.cfg else .other
  | .readConfigVersioned s _ wantErrors, .ok r =>
    -- Without a configuration, only "no reason why" is a read: of a host that has no file.
    if r.cfg.isSome ∨ (wantErrors ∧ r.errors = []) then .read s .file r.cfg else .other
  | .onHost o, .ok res => hostMark o res.ok
  | .onHost o, .error _ => hostMark o false
  | .finalize _, .ok _ => .finalize true
  | .finalize _, .error _ => .finalize false
  | _, _ => .other

/-- A run under arbitrary answers, which records its marks. -/
def tracing : Handler (ChangeI γ) ((o : ChangeOp γ) → Except Exc o.Result) (List (Mark γ)) :=
  fun o answer log => (answer o, log ++ [markOf o (answer o)])

/-- What holds at the end of every trace of a program that starts from `log`. -/
abbrev Traces {α : Type} (p : ChangeM γ α) (Q : Except Exc α → List (Mark γ) → Prop)
    (log : List (Mark γ)) : Prop :=
  p.wp tracing (fun _ => True) Q log

/-- A call is answered, or raises. -/
@[simp] theorem traces_ask (o : ChangeOp γ) (Q : Except Exc o.Result → List (Mark γ) → Prop)
    (log : List (Mark γ)) :
    Traces (ask o) Q log ↔ (∀ a, Q (.ok a) (log ++ [markOf o (.ok a)])) ∧
      ∀ e, Q (.error e) (log ++ [markOf o (.error e)]) := by
  classical
  constructor
  · intro h
    have key : ∀ a, Q a (log ++ [markOf o a]) := by
      intro a
      have ha := (h fun o' => if ho : o' = o then ho ▸ a else .error ⟨"", ""⟩).2
      simpa [tracing] using ha
    exact ⟨fun a => key (.ok a), fun e => key (.error e)⟩
  · rintro ⟨hok, herr⟩ answer
    refine ⟨trivial, ?_⟩
    simp only [tracing, Prog.wp_ofExcept]
    cases answer o with
    | ok a => exact hok a
    | error e => exact herr e

/-! ## One call on a target -/

/-- An operation on a host answers, or raises a result that is not ok. -/
theorem traces_safe {o : HostOp γ} {Q : Except Exc HostResult → List (Mark γ) → Prop}
    {log : List (Mark γ)} (hQ : ∀ res, Q (.ok res) (log ++ [hostMark o res.ok])) :
    Traces (safe o) Q log :=
  (Prog.wp_handle _ _ _).mpr ((traces_ask _ _ _).mpr ⟨hQ, fun e => hQ e.result⟩)

section Calls

variable {c : Change γ} {t : Target γ} {log : List (Mark γ)}
  {Q : Except Exc HostResult → List (Mark γ) → Prop}

theorem Target.file_of_ne {t : Target γ} (ht : t.transport ≠ .off) (ha : t.transport ≠ .api) :
    t.transport = .file := by
  cases h : t.transport <;> simp_all

theorem testTarget_trace (ht : t.transport ≠ .off)
    (hQ : ∀ res, Q (.ok res) (log ++ [.test t.server t.transport t.afterCfg res.ok])) :
    Traces (testTarget c t) Q log := by
  unfold testTarget
  split_ifs with hk
  · rw [hk] at hQ
    exact traces_safe hQ
  · rw [Target.file_of_ne ht hk] at hQ
    exact traces_safe hQ

theorem writeTarget_trace (ht : t.transport ≠ .off)
    (hQ : ∀ res, Q (.ok res) (log ++ [.write t.server t.transport t.afterCfg res.ok])) :
    Traces (writeTarget c t) Q log := by
  unfold writeTarget
  split_ifs with hk
  · rw [hk] at hQ
    exact traces_safe hQ
  · rw [Target.file_of_ne ht hk] at hQ
    exact traces_safe hQ

theorem restoreTarget_trace (ht : t.transport ≠ .off)
    (hQ : ∀ res, Q (.ok res) (log ++ [.revert t.server t.transport t.beforeCfg res.ok])) :
    Traces (restoreTarget c t) Q log := by
  unfold restoreTarget
  split_ifs with hk
  · rw [hk] at hQ
    exact traces_safe hQ
  · rw [Target.file_of_ne ht hk] at hQ
    cases hb : t.beforeCfg with
    | none =>
      rw [hb] at hQ
      exact traces_safe hQ
    | some cfg =>
      rw [hb] at hQ
      exact traces_safe hQ

theorem restartTarget_trace (hQ : ∀ res, Q (.ok res) (log ++ [.restart t.server res.ok])) :
    Traces (restartTarget c t) Q log :=
  traces_safe hQ

end Calls

/-! ## The Plan -/

/-- The marks of the Plan: reads, and questions that change nothing. -/
def Mark.isPlan : Mark γ → Prop
  | .read .. | .other => True
  | _ => False

/-- The calls since `log₀` were questions that neither read a server nor change one. -/
def Asked (log₀ log : List (Mark γ)) : Prop := ∃ more, log = log₀ ++ more ∧ ∀ e ∈ more, e = .other

/-- The calls since `log₀` were the Plan's. -/
def OnlyPlanned (log₀ log : List (Mark γ)) : Prop :=
  ∃ more, log = log₀ ++ more ∧ ∀ e ∈ more, e.isPlan

theorem Asked.refl (log : List (Mark γ)) : Asked log log := ⟨[], by simp, by simp⟩

theorem Asked.snoc {log₀ log : List (Mark γ)} (h : Asked log₀ log) :
    Asked log₀ (log ++ [.other]) := by
  obtain ⟨more, rfl, hmore⟩ := h
  refine ⟨more ++ [.other], by simp, fun e he => ?_⟩
  rcases List.mem_append.mp he with he | he
  · exact hmore e he
  · exact List.mem_singleton.mp he

theorem Asked.trans {a b d : List (Mark γ)} (h : Asked a b) (h' : Asked b d) : Asked a d := by
  obtain ⟨more, rfl, hmore⟩ := h
  obtain ⟨more', rfl, hmore'⟩ := h'
  refine ⟨more ++ more', by simp, fun e he => ?_⟩
  rcases List.mem_append.mp he with he | he
  · exact hmore e he
  · exact hmore' e he

theorem Asked.onlyPlanned {log₀ log : List (Mark γ)} (h : Asked log₀ log) :
    OnlyPlanned log₀ log := by
  obtain ⟨more, rfl, hmore⟩ := h
  exact ⟨more, rfl, fun e he => hmore e he ▸ trivial⟩

theorem OnlyPlanned.trans {a b d : List (Mark γ)} (h : OnlyPlanned a b) (h' : OnlyPlanned b d) :
    OnlyPlanned a d := by
  obtain ⟨more, rfl, hmore⟩ := h
  obtain ⟨more', rfl, hmore'⟩ := h'
  refine ⟨more ++ more', by simp, fun e he => ?_⟩
  rcases List.mem_append.mp he with he | he
  · exact hmore e he
  · exact hmore' e he

/-- What a part of the Plan returns: it goes on, or it ends the run, aborted, after the Plan's own
calls only. -/
def GoesOn {α : Type} (log₀ : List (Mark γ)) (Q : α → List (Mark γ) → Prop) :
    Except Exc (α ⊕ ChangeSetResult) → List (Mark γ) → Prop
  | .ok (.inl a), log => Q a log
  | .ok (.inr r), log => r.status = .aborted ∧ OnlyPlanned log₀ log
  | .error _, log => OnlyPlanned log₀ log

section Rules

variable {α β : Type} {log₀ log : List (Mark γ)} {Q : α → List (Mark γ) → Prop}

/-- The program only asks questions that neither read a server nor change one. -/
def Asks (p : ChangeM γ α) : Prop := ∀ log, Traces p (fun _ log' => Asked log log') log

theorem asks_ask {o : ChangeOp γ} (ho : ∀ a, markOf o a = .other) : Asks (ask o) := fun log =>
  (traces_ask o _ log).mpr ⟨fun a => ho (.ok a) ▸ (Asked.refl log).snoc,
    fun e => ho (.error e) ▸ (Asked.refl log).snoc⟩

theorem asks_pure (a : α) : Asks (pure a : ChangeM γ α) := fun log => .refl log

theorem asks_bind {p : ChangeM γ β} {f : β → ChangeM γ α} (hp : Asks p) (hf : ∀ b, Asks (f b)) :
    Asks (p >>= f) := by
  refine fun log => (Prog.wp_bind p f _).mpr (Prog.wp_mono ?_ (hp log))
  rintro (e | b) log' h
  · exact h
  · exact Prog.wp_mono (fun _ _ h' => h.trans h') (hf b log')

/-- The Plan asks, and goes on; what the questions raise is within the Plan. -/
theorem goesOn_bind {p : ChangeM γ β} {f : β → ChangeM γ (α ⊕ ChangeSetResult)} (hp : Asks p)
    (h : Asked log₀ log)
    (hf : ∀ b log', Asked log₀ log' → Traces (f b) (GoesOn log₀ Q) log') :
    Traces (p >>= f) (GoesOn log₀ Q) log := by
  refine (Prog.wp_bind p f _).mpr (Prog.wp_mono ?_ (hp log))
  rintro (e | b) log' h'
  · exact (h.trans h').onlyPlanned
  · exact hf b log' (h.trans h')

theorem goesOn_abort {r : ChangeSetResult} (hr : r.status = .aborted) (h : OnlyPlanned log₀ log) :
    Traces (pure (.inr r) : ChangeM γ (α ⊕ ChangeSetResult)) (GoesOn log₀ Q) log := ⟨hr, h⟩

/-- `except Exception` turns what a part of the Plan raises into an abort. -/
theorem goesOn_excepted {p : ChangeM γ (α ⊕ ChangeSetResult)} {name : String} {lines : List Line}
    (hp : Traces p (GoesOn log₀ Q) log) : Traces (p.handle (excepted name lines))
      (fun r log' => GoesOn log₀ Q r log' ∧ ∃ x, r = .ok x) log := by
  refine (Prog.wp_handle p _ _).mpr (Prog.wp_mono ?_ hp)
  rintro (e | x) log' h
  · exact ⟨⟨rfl, h⟩, _, rfl⟩
  · exact ⟨h, _, rfl⟩

end Rules

/-- What is known of a target from the trace: the Plan read its server, and the candidate is what
the mutation made of what it read. -/
structure TargetOf (c : Change γ) (done : List (Server × Transport)) (log : List (Mark γ))
    (t : Target γ) : Prop where
  name : t.name = t.server.label
  planned : (t.server, t.transport) ∈ done
  read : .read t.server t.transport t.beforeCfg ∈ log
  mutated : c.mutate t.server t.beforeCfg = .ok (t.afterCfg, "ok")
  fresh : t.revertFailed = false

/-- A read ended ok or skip: its mutation made a target, or said to skip the server. -/
def Judged (c : Change γ) (targets : List (Target γ)) (s : Server) (kind : Transport)
    (cfg : Option γ) : Prop :=
  ∃ after code, c.mutate s cfg = .ok (after, code) ∧
    (code = "ok" ∧ (∃ t ∈ targets, t.server = s ∧ t.transport = kind ∧ t.afterCfg = after) ∨
      code ≠ "ok" ∧ code ∈ c.skipCodes)

/-- The invariant of the Plan, once the servers `done` were planned. -/
structure PlanTrace (c : Change γ) (done : List (Server × Transport)) (targets : List (Target γ))
    (log : List (Mark γ)) : Prop where
  quiet : ∀ e ∈ log, e.isPlan
  reads : ∀ p ∈ done, ∃ cfg, .read p.1 p.2 cfg ∈ log
  judged : ∀ s kind cfg, .read s kind cfg ∈ log → Judged c targets s kind cfg
  origin : ∀ t ∈ targets, TargetOf c done log t
  order : (targets.map fun t => (t.server, t.transport)).Sublist done
  pos : targets.map (·.pos) = List.range targets.length

section Plan

variable {c : Change γ} {server : Server} {kind : Transport} {name : String} {lines : List Line}
  {log₀ log : List (Mark γ)}

/-- Since `log₀` the Plan read `server` once, and saw `cfg`. -/
def ReadOnce (server : Server) (kind : Transport) (cfg : Option γ) (log₀ log : List (Mark γ)) :
    Prop :=
  ∃ before, Asked log₀ before ∧ Asked (before ++ [.read server kind cfg]) log

theorem ReadOnce.onlyPlanned {cfg : Option γ} (h : ReadOnce server kind cfg log₀ log) :
    OnlyPlanned log₀ log := by
  obtain ⟨before, hb, ha⟩ := h
  exact hb.onlyPlanned.trans (.trans ⟨[_], rfl, by simp [Mark.isPlan]⟩ ha.onlyPlanned)

theorem asks_windowOf : Asks (windowOf c server) := by
  unfold windowOf
  split_ifs
  · exact asks_ask (by rintro (_ | _) <;> rfl)
  · exact asks_pure ""

theorem asks_unloadedEdit : Asks (unloadedEdit c server) := by
  unfold unloadedEdit
  split_ifs
  · exact asks_pure _
  · refine asks_bind (asks_ask (by rintro (_ | _) <;> rfl)) fun proof => ?_
    split_ifs <;> exact asks_pure _

/-- An API read is a read when a configuration came back. -/
def ReadApi (server : Server) (cfg : Option γ) (log₀ log : List (Mark γ)) : Prop :=
  (cfg.isSome → ReadOnce server .api cfg log₀ log) ∧ OnlyPlanned log₀ log

theorem readApi_trace : Traces (readApi c server name lines)
    (GoesOn log fun r log' => ReadApi server r.cfg log log') log := by
  unfold readApi
  refine goesOn_bind (asks_ask (by rintro (_ | _) <;> rfl)) (.refl log) fun _ log₁ h₁ => ?_
  refine goesOn_bind (asks_ask (by rintro (_ | _) <;> rfl)) h₁ fun gated log₂ h₂ => ?_
  split_ifs with hg
  · refine goesOn_bind (asks_ask (by rintro (_ | _) <;> rfl)) h₂ fun refused log₃ h₃ => ?_
    refine goesOn_abort ?_ h₃.onlyPlanned
    split_ifs <;> rfl
  · refine goesOn_bind asks_windowOf h₂ fun window log₃ h₃ => ?_
    split_ifs with hw
    · exact goesOn_abort rfl h₃.onlyPlanned
    · refine (Prog.wp_bind _ _ _).mpr ((traces_ask _ _ _).mpr ⟨fun r => ?_, fun e => ?_⟩)
      · cases hr : r.cfg with
        | none =>
          simp only [markOf, hr, Option.isSome_none, Bool.false_eq_true, if_false]
          exact ⟨fun h => absurd h (by simp [hr]), h₃.snoc.onlyPlanned⟩
        | some cfg =>
          simp only [markOf, hr, Option.isSome_some, if_true]
          have hread : ReadOnce server .api r.cfg log (log₃ ++ [.read server .api (some cfg)]) :=
            hr ▸ ⟨log₃, h₃, .refl _⟩
          exact ⟨fun _ => hread, hread.onlyPlanned⟩
      · exact h₃.snoc.onlyPlanned

theorem proveApi_trace (r : ReadAnswer γ) : Traces (proveApi c server name r lines)
    (GoesOn log fun seen log' => seen.cfg = r.cfg ∧ r.cfg.isSome ∧ Asked log log') log := by
  unfold proveApi
  cases hr : r.cfg with
  | none => exact goesOn_abort rfl (Asked.refl log).onlyPlanned
  | some cfg =>
    refine goesOn_bind (asks_ask (by rintro (_ | _) <;> rfl)) (.refl log) fun unreadable log₁ h₁ => ?_
    split_ifs with hu
    · exact goesOn_abort rfl h₁.onlyPlanned
    refine goesOn_bind (asks_ask (by rintro (_ | _) <;> rfl)) h₁ fun unresolved log₂ h₂ => ?_
    split_ifs with hp
    · exact goesOn_abort rfl h₂.onlyPlanned
    refine goesOn_bind asks_unloadedEdit h₂ fun ⟨unloaded, plannedSha⟩ log₃ h₃ => ?_
    dsimp only
    split_ifs with hw
    · exact goesOn_abort rfl h₃.onlyPlanned
    · exact ⟨rfl, rfl, h₃⟩

theorem readFile_trace : Traces (readFile c server name lines)
    (GoesOn log fun seen log' => ReadOnce server .file seen.cfg log log') log := by
  unfold readFile
  refine (Prog.wp_bind _ _ _).mpr ((traces_ask _ _ _).mpr ⟨fun r => ?_, fun e => ?_⟩)
  · obtain ⟨cfg, sha, errors, notes⟩ := r
    cases cfg with
    | some cfg =>
      simp only [markOf, Option.isSome_some, true_or, if_true]
      exact ⟨log, .refl log, .refl _⟩
    | none =>
      simp only [markOf, Option.isSome_none, Bool.false_eq_true, false_or]
      rcases c.absentIsExpected with _ | _
      · exact goesOn_abort rfl (Asked.refl log).snoc.onlyPlanned
      · cases errors with
        | nil => exact ⟨log, .refl log, .refl _⟩
        | cons why rest => exact goesOn_abort rfl (Asked.refl log).snoc.onlyPlanned
  · exact (Asked.refl log).snoc.onlyPlanned

theorem readServer_trace (hk : kind ≠ .off) : Traces (readServer c server kind name lines)
    (fun r log' => GoesOn log (fun seen log' => ReadOnce server kind seen.cfg log log') r log' ∧
      ∃ x, r = .ok x) log := by
  unfold readServer
  split_ifs with ha
  · subst ha
    refine (Prog.wp_bind _ _ _).mpr (Prog.wp_mono ?_ (goesOn_excepted readApi_trace))
    rintro (e | r | r) log₁ ⟨h, hx⟩
    · simp at hx
    · refine Prog.wp_mono ?_ (goesOn_excepted (proveApi_trace r))
      rintro (e | seen | res) log₂ ⟨h', hx'⟩
      · simp at hx'
      · obtain ⟨hcfg, hsome, hasked⟩ := h'
        obtain ⟨before, hb, ha⟩ := h.1 hsome
        exact ⟨⟨before, hb, hcfg ▸ ha.trans hasked⟩, _, rfl⟩
      · exact ⟨⟨h'.1, h.2.trans h'.2⟩, _, rfl⟩
    · exact ⟨h, _, rfl⟩
  · obtain rfl : kind = .file := by cases kind <;> simp_all
    exact goesOn_excepted readFile_trace

/-- What a new target takes from the Plan. -/
structure NewTarget (t : Target γ) (server : Server) (kind : Transport) (cfg : Option γ)
    (afterCfg : γ) (pos : ℕ) : Prop where
  name : t.name = server.label
  server : t.server = server
  transport : t.transport = kind
  beforeCfg : t.beforeCfg = cfg
  afterCfg : t.afterCfg = afterCfg
  fresh : t.revertFailed = false
  pos : t.pos = pos

theorem newTarget_ok {seen : Seen γ} {afterCfg : γ} {pos : ℕ} {t : Target γ}
    (h : newTarget c server kind server.label seen afterCfg pos = .ok t) :
    NewTarget t server kind seen.cfg afterCfg pos := by
  simp only [newTarget, bind, Except.bind] at h
  cases he : c.expectedSha server kind seen <;> simp only [he, reduceCtorEq] at h
  cases hp : c.tlsPathsOf server kind <;> simp only [hp, reduceCtorEq] at h
  obtain rfl := Except.ok.inj h
  exact ⟨rfl, rfl, rfl, rfl, rfl, rfl, rfl⟩

/-- What the verdict on one server adds to the Plan. -/
def Verdict (c : Change γ) (server : Server) (kind : Transport) (cfg : Option γ)
    (before after : List (Target γ)) : Prop :=
  ∃ afterCfg code, c.mutate server cfg = .ok (afterCfg, code) ∧
    (code = "ok" ∧ (∃ t, after = before ++ [t] ∧
        NewTarget t server kind cfg afterCfg before.length) ∨
      code ≠ "ok" ∧ code ∈ c.skipCodes ∧ after = before)

theorem judge_verdict {seen : Seen γ} {acc acc' : Planned γ}
    (h : judge c server kind server.label seen acc = .ok (.inl acc')) :
    Verdict c server kind seen.cfg acc.targets acc'.targets := by
  simp only [judge, bind, Except.bind] at h
  cases hm : c.mutate server seen.cfg with
  | error e => simp [hm] at h
  | ok out =>
    obtain ⟨afterCfg, code⟩ := out
    refine ⟨afterCfg, code, hm, ?_⟩
    simp only [hm] at h
    split_ifs at h with hok hskip
    · cases ht : newTarget c server kind server.label seen afterCfg acc.targets.length with
      | error e => simp [ht] at h
      | ok t =>
        simp only [ht] at h
        obtain rfl := Sum.inl.inj (Except.ok.inj h)
        exact .inl ⟨hok, t, rfl, newTarget_ok ht⟩
    · obtain rfl := Sum.inl.inj (Except.ok.inj h)
      exact .inr ⟨hok, hskip, rfl⟩
    · cases Except.ok.inj h

theorem judge_abort {seen : Seen γ} {acc : Planned γ} {r : ChangeSetResult}
    (h : judge c server kind name seen acc = .ok (.inr r)) : r.status = .aborted := by
  simp only [judge, bind, Except.bind] at h
  cases hm : c.mutate server seen.cfg with
  | error e => simp [hm] at h
  | ok out =>
    simp only [hm] at h
    split_ifs at h with hok hskip
    · cases ht : newTarget c server kind name seen out.1 acc.targets.length with
      | error e => simp [ht] at h
      | ok t => simp only [ht] at h; cases Except.ok.inj h
    · cases Except.ok.inj h
    · obtain rfl := Sum.inr.inj (Except.ok.inj h)
      rfl

/-- The Plan of one server reads it once, and its verdict goes by what it read. -/
theorem planServer_trace {p : Server × Transport} (hp : p.2 ≠ .off) (acc : Planned γ) :
    Traces (planServer c p acc) (GoesOn log fun acc' log' => ∃ cfg,
      ReadOnce p.1 p.2 cfg log log' ∧ Verdict c p.1 p.2 cfg acc.targets acc'.targets) log := by
  obtain ⟨server, kind⟩ := p
  unfold planServer
  refine (Prog.wp_bind _ _ _).mpr (Prog.wp_mono ?_ (readServer_trace hp))
  rintro (e | seen | r) log' ⟨h, hx⟩
  · simp at hx
  · refine (Prog.wp_handle _ _ _).mpr ((Prog.wp_ofExcept _ _).mpr ?_)
    cases hj : judge c server kind server.label seen acc with
    | error e => exact ⟨rfl, h.onlyPlanned⟩
    | ok out =>
      cases out with
      | inl acc' => exact ⟨seen.cfg, h, judge_verdict hj⟩
      | inr r => exact ⟨judge_abort hj, h.onlyPlanned⟩
  · exact h

theorem Asked.mem_iff {e : Mark γ} (h : Asked log₀ log) (he : e ≠ .other) :
    e ∈ log ↔ e ∈ log₀ := by
  obtain ⟨more, rfl, hmore⟩ := h
  rw [List.mem_append, or_iff_left]
  exact fun hm => he (hmore e hm)

theorem ReadOnce.mem_iff {cfg : Option γ} {e : Mark γ} (h : ReadOnce server kind cfg log₀ log)
    (he : e ≠ .other) : e ∈ log ↔ e ∈ log₀ ∨ e = .read server kind cfg := by
  obtain ⟨before, hb, ha⟩ := h
  rw [ha.mem_iff he, List.mem_append, hb.mem_iff he, List.mem_singleton]

theorem OnlyPlanned.quiet (h : OnlyPlanned log₀ log) (h₀ : ∀ e ∈ log₀, e.isPlan) :
    ∀ e ∈ log, e.isPlan := by
  obtain ⟨more, rfl, hmore⟩ := h
  intro e he
  rcases List.mem_append.mp he with he | he
  · exact h₀ e he
  · exact hmore e he

theorem TargetOf.mono {done done' : List (Server × Transport)} {log log' : List (Mark γ)}
    {t : Target γ} (h : TargetOf c done log t) (hd : done ⊆ done')
    (hl : ∀ s k b, Mark.read s k b ∈ log → .read s k b ∈ log') : TargetOf c done' log' t :=
  ⟨h.name, hd h.planned, hl _ _ _ h.read, h.mutated, h.fresh⟩

theorem Judged.mono {targets targets' : List (Target γ)} {cfg : Option γ}
    (h : Judged c targets server kind cfg) (ht : targets ⊆ targets') :
    Judged c targets' server kind cfg := by
  obtain ⟨after, code, hm, ⟨hc, t, hmem, heq⟩ | hskip⟩ := h
  · exact ⟨after, code, hm, .inl ⟨hc, t, ht hmem, heq⟩⟩
  · exact ⟨after, code, hm, .inr hskip⟩

/-- The Plan keeps its invariant from one server to the next. -/
theorem PlanTrace.step {done : List (Server × Transport)} {p : Server × Transport}
    {targets targets' : List (Target γ)} {cfg : Option γ} (h : PlanTrace c done targets log₀)
    (hread : ReadOnce p.1 p.2 cfg log₀ log) (hv : Verdict c p.1 p.2 cfg targets targets') :
    PlanTrace c (done ++ [p]) targets' log := by
  have hmem : ∀ s k b, Mark.read s k b ∈ log ↔ .read s k b ∈ log₀ ∨
      Mark.read s k b = .read p.1 p.2 cfg := fun s k b => hread.mem_iff (by simp)
  have hold : ∀ s k b, Mark.read s k b ∈ log₀ → .read s k b ∈ log :=
    fun s k b hb => (hmem s k b).mpr (.inl hb)
  have hreads : ∀ q ∈ done ++ [p], ∃ b, Mark.read q.1 q.2 b ∈ log := by
    intro q hq
    rcases List.mem_append.mp hq with hq | hq
    · obtain ⟨b, hb⟩ := h.reads q hq
      exact ⟨b, hold _ _ _ hb⟩
    · rw [List.mem_singleton.mp hq]
      exact ⟨cfg, (hmem _ _ _).mpr (.inr rfl)⟩
  have hquiet := hread.onlyPlanned.quiet h.quiet
  have hkeep : ∀ t ∈ targets, TargetOf c (done ++ [p]) log t := fun t ht =>
    (h.origin t ht).mono (List.subset_append_left _ _) hold
  obtain ⟨afterCfg, code, hm, ⟨hcode, t, rfl, ht⟩ | ⟨hcode, hskip, rfl⟩⟩ := hv
  · refine ⟨hquiet, hreads, fun s k b hb => ?_, fun u hu => ?_, ?_, ?_⟩
    · rcases (hmem s k b).mp hb with hb | hb
      · exact (h.judged s k b hb).mono (List.subset_append_left _ _)
      · obtain ⟨rfl, rfl, rfl⟩ := Mark.read.inj hb
        exact ⟨afterCfg, code, hm, .inl ⟨hcode, t, by simp, ht.server, ht.transport, ht.afterCfg⟩⟩
    · rcases List.mem_append.mp hu with hu | hu
      · exact hkeep u hu
      · obtain rfl := List.mem_singleton.mp hu
        refine ⟨by rw [ht.name, ht.server], ?_, ?_, ?_, ht.fresh⟩
        · simp [ht.server, ht.transport]
        · rw [ht.server, ht.transport, ht.beforeCfg]
          exact (hmem _ _ _).mpr (.inr rfl)
        · rw [ht.server, ht.beforeCfg, ht.afterCfg, hm, hcode]
    · rw [List.map_append]
      refine h.order.append ?_
      simp [ht.server, ht.transport]
    · rw [List.map_append, h.pos, List.length_append, List.length_singleton, List.range_succ]
      simp [ht.pos]
  · refine ⟨hquiet, hreads, fun s k b hb => ?_, hkeep, ?_, h.pos⟩
    · rcases (hmem s k b).mp hb with hb | hb
      · exact h.judged s k b hb
      · obtain ⟨rfl, rfl, rfl⟩ := Mark.read.inj hb
        exact ⟨afterCfg, code, hm, .inr ⟨hcode, hskip⟩⟩
    · exact h.order.trans (List.sublist_append_left _ _)

/-- The whole Plan: its invariant holds of every planned server, or the run is aborted with no
other call than the Plan's. -/
theorem plan_trace : Traces (Prog.loop (planServer c) c.planned { lines := lines })
    (fun r log => match r with
      | .ok (.inl plan) => PlanTrace c c.planned plan.targets log
      | .ok (.inr r) => r.status = .aborted ∧ ∀ e ∈ log, e.isPlan
      | .error _ => ∀ e ∈ log, e.isPlan) [] := by
  refine Prog.wp_loop (fun rest plan log =>
    ∃ done, done ++ rest = c.planned ∧ PlanTrace c done plan.targets log) ?_ ?_ ?_
  · rintro p rest plan log ⟨done, hdone, hinv⟩
    have hp : p.2 ≠ .off := by
      have : p ∈ c.planned := by simp [← hdone]
      simpa using (List.mem_filter.mp this).2
    refine Prog.wp_mono ?_ (planServer_trace hp plan)
    rintro (e | plan' | r) log' h
    · exact h.quiet hinv.quiet
    · obtain ⟨cfg, hread, hv⟩ := h
      exact ⟨done ++ [p], by simp [hdone], hinv.step hread hv⟩
    · exact ⟨h.1, h.2.quiet hinv.quiet⟩
  · rintro plan log ⟨done, hdone, hinv⟩
    rw [← hdone, List.append_nil]
    exact hinv
  · exact ⟨[], rfl, by simp, by simp, by simp, by simp, by simp, by simp⟩

end Plan

end JenKea.ChangeSet
