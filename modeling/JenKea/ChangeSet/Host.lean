import Mathlib.Logic.Function.Basic
import JenKea.ChangeSet.Order

/-!
# The servers behind a change set

A world of servers, each with one configuration, and what the calls of a change set do to it.
`Fate` is what the environment decides at one call; the assumptions of the analysis are built into
`host`. A write or a revert that answers ok leaves its server on exactly the configuration it was
given, one that answers not ok without `needsHands`, or raises, leaves it as it was, and one that
answers not ok with `needsHands` leaves it anywhere. A read answers what is there, or nothing; a
host without a file is told from one that cannot be read. No one else changes a server in a run.
-/

namespace JenKea.ChangeSet

variable {γ : Type}

/-- The servers in a run, and the marks of its calls. -/
structure World (γ : Type) where
  /-- The configuration of each server; `none` for a host without a file. -/
  conf : Key → Option γ
  log : List (Mark γ)

/-- What the environment decides at one call. -/
structure Fate (γ : Type) where
  /-- The call raises. -/
  raises : Option Exc := none
  /-- The sentence of a gate. -/
  text : String := ""
  /-- The proof of a file. -/
  proof : Proof := { ok := true }
  /-- A read reaches its server. -/
  reached : Bool := true
  /-- The digest and the notes that come with a read. -/
  sha : Option String := none
  notes : List String := []
  /-- Why a read failed. -/
  errors : List String := []
  why : String := ""
  /-- The result of an operation on a host. -/
  result : HostResult := { ok := true }
  /-- The configuration that an operation with `needsHands` leaves. -/
  left : Option γ := none

/-- The answer of a call that does not raise. -/
def answerOf (w : World γ) (d : Fate γ) : (o : ChangeOp γ) → o.Result
  | .refreshIfStale .. | .finalize .. | .emit .. => ()
  | .probeGate .. | .refusalSentence .. | .restoreWindow .. => d.text
  | .recordUnreadable .. | .pendingBlock .. => d.text
  | .apiRead s _ =>
    if d.reached then { cfg := w.conf s.key, sha := d.sha, notes := d.notes }
    else { cfg := none, errors := d.errors, notes := d.notes }
  | .readConfigVersioned s _ wantErrors =>
    if d.reached then { cfg := w.conf s.key, sha := d.sha }
    else { cfg := none, errors := if wantErrors then d.why :: d.errors else [] }
  | .fileProof .. => d.proof
  | .onHost _ => d.result

/-- The answer of a call, or what it raises. -/
def outcomeOf (w : World γ) (d : Fate γ) (o : ChangeOp γ) : Except Exc o.Result :=
  match d.raises with
  | some e => .error e
  | none => .ok (answerOf w d o)

/-- The server that an operation writes, and the configuration it puts there. -/
def HostOp.puts : HostOp γ → Option (Server × Option γ)
  | .apiApply s _ cfg _ _ _ _ => some (s, some cfg)
  | .applyConfig write => some (write.server, some write.cfg)
  | .apiRevert s _ cfg _ _ _ => some (s, cfg)
  | .removeConfig s _ _ => some (s, none)
  | _ => none

/-- What `_safe` makes of the outcome of an operation on a host. -/
def Fate.safeResult (d : Fate γ) : HostResult :=
  match d.raises with
  | some e => e.result
  | none => d.result

/-- The configurations after an operation on a host. -/
def confAfter (w : World γ) (d : Fate γ) (o : HostOp γ) : Key → Option γ :=
  match o.puts with
  | some (s, cfg) =>
    if d.safeResult.ok then Function.update w.conf s.key cfg
    else if d.safeResult.needsHands then Function.update w.conf s.key d.left
    else w.conf
  | none => w.conf

/-- The configurations after a call. -/
def ChangeOp.confAfter (w : World γ) (d : Fate γ) : ChangeOp γ → Key → Option γ
  | .onHost o => ChangeSet.confAfter w d o
  | _ => w.conf

/-- What the calls of a change set do. -/
def host : Handler (ChangeI γ) (Fate γ) (World γ) := fun o d w =>
  (outcomeOf w d o, ⟨o.confAfter w d, w.log ++ [markOf o (outcomeOf w d o)]⟩)

/-- What holds at the end of every run of a program in the world of servers. -/
abbrev Runs {α : Type} (p : ChangeM γ α) (Q : Except Exc α → World γ → Prop) (w : World γ) : Prop :=
  p.wp host (fun _ => True) Q w

/-- What is proved of every trace holds of the log of every run. -/
theorem Traces.runs {α : Type} {p : ChangeM γ α} {Q : Except Exc α → List (Mark γ) → Prop}
    {w : World γ} (h : Traces p Q w.log) : Runs p (fun r w' => Q r w'.log) w :=
  Prog.wp_of_simulates World.log (fun _ d w => ⟨outcomeOf w d, rfl⟩) h

/-! ## One call on a target -/

/-- What an operation that puts `cfg` on the server of key `k` leaves. -/
structure Put (k : Key) (cfg : Option γ) (res : HostResult) (w w' : World γ) : Prop where
  frame : ∀ k', k' ≠ k → w'.conf k' = w.conf k'
  done : res.ok → w'.conf k = cfg
  kept : ¬ res.ok → ¬ res.needsHands → w'.conf k = w.conf k

theorem put_confAfter {w : World γ} {o : HostOp γ} {s : Server} {cfg : Option γ}
    (h : o.puts = some (s, cfg)) (d : Fate γ) (log : List (Mark γ)) :
    Put s.key cfg d.safeResult w ⟨confAfter w d o, log⟩ := by
  simp only [confAfter, h]
  refine ⟨fun k' hk => ?_, fun hok => ?_, fun hok hn => ?_⟩
  · dsimp only
    split_ifs <;> simp [Function.update_of_ne hk]
  · simp [hok]
  · simp [hok, hn]

/-- An operation on a host, in the world of servers. -/
theorem runs_safe {o : HostOp γ} {Q : Except Exc HostResult → World γ → Prop} {w : World γ}
    (hQ : ∀ d, Q (.ok d.safeResult)
      ⟨confAfter w d o, w.log ++ [hostMark o d.safeResult.ok]⟩) : Runs (safe o) Q w := by
  refine (Prog.wp_handle _ _ _).mpr fun d => ⟨trivial, (Prog.wp_ofExcept _ _).mpr ?_⟩
  have h := hQ d
  unfold Fate.safeResult at h
  simp only [host, outcomeOf, answerOf]
  cases hd : d.raises with
  | some e => rw [hd] at h; exact h
  | none => rw [hd] at h; exact h

section Calls

variable {c : Change γ} {t : Target γ} {w : World γ} {Q : Except Exc HostResult → World γ → Prop}

theorem writeTarget_runs (ht : t.transport ≠ .off) (hQ : ∀ res w',
      w'.log = w.log ++ [.write t.server t.transport t.afterCfg res.ok] →
      Put t.server.key (some t.afterCfg) res w w' → Q (.ok res) w') :
    Runs (writeTarget c t) Q w := by
  unfold writeTarget
  split_ifs with hk
  · rw [hk] at hQ
    exact runs_safe fun d => hQ _ _ rfl (put_confAfter rfl d _)
  · rw [Target.file_of_ne ht hk] at hQ
    exact runs_safe fun d => hQ _ _ rfl (put_confAfter rfl d _)

theorem restoreTarget_runs (ht : t.transport ≠ .off) (hQ : ∀ res w',
      w'.log = w.log ++ [.revert t.server t.transport t.beforeCfg res.ok] →
      Put t.server.key t.beforeCfg res w w' → Q (.ok res) w') :
    Runs (restoreTarget c t) Q w := by
  unfold restoreTarget
  split_ifs with hk
  · rw [hk] at hQ
    exact runs_safe fun d => hQ _ _ rfl (put_confAfter rfl d _)
  · rw [Target.file_of_ne ht hk] at hQ
    cases hb : t.beforeCfg with
    | none =>
      rw [hb] at hQ
      exact runs_safe fun d => hQ _ _ rfl (put_confAfter rfl d _)
    | some cfg =>
      rw [hb] at hQ
      exact runs_safe fun d => hQ _ _ rfl (put_confAfter rfl d _)

theorem restartTarget_runs (hQ : ∀ res w', w'.log = w.log ++ [.restart t.server res.ok] →
      w'.conf = w.conf → Q (.ok res) w') : Runs (restartTarget c t) Q w :=
  runs_safe fun _ => hQ _ _ rfl rfl

end Calls

/-! ## Phases that put nothing -/

/-- A mark of a call that puts a configuration on a server. -/
def Mark.isPut : Mark γ → Prop
  | .write .. | .revert .. => True
  | _ => False

theorem Mark.isEarly.not_isPut {e : Mark γ} (h : e.isEarly) : ¬ e.isPut := by
  cases e with
  | write => exact h.elim
  | revert => exact h.elim
  | _ => exact not_false

/-- As long as nothing was put on a server since `w`, every configuration is as it was, and every
read saw it. -/
def Untouched (w w' : World γ) : Prop :=
  ∃ more, w'.log = w.log ++ more ∧ ((∀ e ∈ more, ¬ e.isPut) →
    w'.conf = w.conf ∧ ∀ s kind cfg, .read s kind cfg ∈ more → cfg = w.conf s.key)

/-- The mark of an operation that puts a configuration says so. -/
theorem hostMark_isPut {o : HostOp γ} {ok : Bool} (h : ¬ (hostMark o ok).isPut) : o.puts = none := by
  cases o with
  | applyConfig w =>
    refine absurd ?_ h
    simp only [hostMark]
    split_ifs <;> trivial
  | _ => first | rfl | exact absurd trivial h

theorem hostMark_ne_read {o : HostOp γ} {ok : Bool} {s : Server} {kind : Transport}
    {cfg : Option γ} : hostMark o ok ≠ .read s kind cfg := by
  cases o with
  | applyConfig w =>
    simp only [hostMark]
    split_ifs <;> simp
  | _ => simp [hostMark]

/-- A read sees what is there. -/
theorem markOf_read {w : World γ} {d : Fate γ} {o : ChangeOp γ} {s : Server} {kind : Transport}
    {cfg : Option γ} (h : markOf o (outcomeOf w d o) = .read s kind cfg) : cfg = w.conf s.key := by
  unfold outcomeOf at h
  cases hd : d.raises with
  | some e =>
    rw [hd] at h
    cases o with
    | onHost o => exact absurd h hostMark_ne_read
    | _ => simp [markOf] at h
  | none =>
    rw [hd] at h
    cases o with
    | onHost o => exact absurd h hostMark_ne_read
    | apiRead server service =>
      cases hr : d.reached with
      | false => simp [markOf, answerOf, hr] at h
      | true =>
        simp only [markOf, answerOf, hr, if_true] at h
        split_ifs at h
        obtain ⟨rfl, -, rfl⟩ := Mark.read.inj h
        rfl
    | readConfigVersioned server service wantErrors =>
      cases hr : d.reached with
      | false => cases wantErrors <;> simp [markOf, answerOf, hr] at h
      | true =>
        simp only [markOf, answerOf, hr, if_true] at h
        split_ifs at h
        obtain ⟨rfl, -, rfl⟩ := Mark.read.inj h
        rfl
    | _ => simp [markOf] at h

theorem host_conf {o : ChangeOp γ} {d : Fate γ} {w : World γ}
    (h : ¬ (markOf o (outcomeOf w d o)).isPut) : o.confAfter w d = w.conf := by
  cases o with
  | onHost op =>
    have hputs : op.puts = none := by
      cases ho : outcomeOf w d (.onHost op) with
      | ok res => rw [ho] at h; exact hostMark_isPut h
      | error e => rw [ho] at h; exact hostMark_isPut h
    simp only [ChangeOp.confAfter, confAfter, hputs]
  | _ => rfl

theorem Untouched.host {w w' : World γ} (h : Untouched w w') (o : ChangeOp γ) (d : Fate γ) :
    Untouched w (host o d w').2 := by
  obtain ⟨more, hlog, hmore⟩ := h
  refine ⟨more ++ [markOf o (outcomeOf w' d o)], by simp [ChangeSet.host, hlog], fun hput => ?_⟩
  obtain ⟨hconf, hreads⟩ := hmore fun e he => hput e (List.mem_append_left _ he)
  refine ⟨(host_conf (hput _ (by simp))).trans hconf, fun s kind cfg hr => ?_⟩
  rcases List.mem_append.mp hr with hr | hr
  · exact hreads s kind cfg hr
  · rw [← hconf]
    exact markOf_read (List.mem_singleton.mp hr).symm

/-- A phase seen as a trace, in the world of servers. -/
theorem Traces.untouched {α : Type} {p : ChangeM γ α} {Q : Except Exc α → List (Mark γ) → Prop}
    {w : World γ} (h : Traces p Q w.log) :
    Runs p (fun r w' => Q r w'.log ∧ Untouched w w') w := by
  have hw : Untouched w w := ⟨[], by simp, fun _ => ⟨rfl, by simp⟩⟩
  exact Prog.wp_forget (Prog.wp_and h.runs (Prog.wp_of_keeps (fun o d _ hu => hu.host o d) p hw))

/-- A program that only asks leaves every configuration. -/
theorem Asks.conf {α : Type} {p : ChangeM γ α} (h : Asks p) (w : World γ) :
    Runs p (fun _ w' => w'.conf = w.conf ∧ w.log ⊆ w'.log) w := by
  refine Prog.wp_mono ?_ (h w.log).untouched
  rintro r w' ⟨⟨more, hlog, hmore⟩, more', hlog', hconf⟩
  obtain rfl : more = more' := List.append_cancel_left (hlog.symm.trans hlog')
  refine ⟨(hconf fun e he => ?_).1, hlog ▸ List.subset_append_left _ _⟩
  rw [hmore e he]
  exact id

end JenKea.ChangeSet
