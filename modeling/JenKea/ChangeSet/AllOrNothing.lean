import JenKea.ChangeSet.Host

/-!
# A change set is all or nothing

Every run of a change set, over servers with distinct ids and under every sequence of answers, ends
in one of three ways: nothing has changed, everything has, or each server that is not back as it was
is named for a person (`AllOrNothing`). The commit keeps what it has written, and the two rollback
loops share one invariant, `Undoing`: a server that differs from what it held before the run is
still to be put back, or is already in the hands of a person.
-/

namespace JenKea.ChangeSet

variable {γ : Type}

/-- A target of a change of servers that hold `conf`: a planned server whose mutation ends ok. -/
def IsTarget (c : Change γ) (conf : Key → Option γ) (s : Server) (kind : Transport) (after : γ) :
    Prop :=
  (s, kind) ∈ c.planned ∧ c.mutate s (conf s.key) = .ok (after, "ok")

/-- Every target has its new configuration, and every file target was restarted on it. -/
structure Applied (c : Change γ) (conf₀ : Key → Option γ) (w : World γ) : Prop where
  after : ∀ s kind after, IsTarget c conf₀ s kind after → w.conf s.key = some after
  others : ∀ k, (∀ s kind after, IsTarget c conf₀ s kind after → s.key ≠ k) → w.conf k = conf₀ k
  restarted : c.restart → ∀ s after, IsTarget c conf₀ s .file after → .restart s true ∈ w.log

/-- The server was put back, and its daemon restarted after that. -/
def BackAndRestarted (log : List (Mark γ)) (s : Server) : Prop :=
  ∃ cfg, [.revert s .file cfg true, .restart s true].Sublist log

/-- The servers whose revert answered not ok, in the order of the reverts. -/
def failedReverts (log : List (Mark γ)) : List Key :=
  log.filterMap fun
    | .revert s _ _ false => some s.key
    | _ => none

/-- Every server that is not as it was, or whose daemon did not restart on what it was put back to,
is named for a person; and the servers named as still on the new configuration are those whose
revert failed. -/
structure HandedOver (c : Change γ) (conf₀ : Key → Option γ) (r : ChangeSetResult) (w : World γ) :
    Prop where
  conf : ∀ k, w.conf k ≠ conf₀ k → some k ∈ r.needsHandsIds
  restarted : c.restart → ∀ s cfg, .write s .file cfg true ∈ w.log →
    BackAndRestarted w.log s ∨ some s.key ∈ r.needsHandsIds
  stillNew : r.stillNewIds = failedReverts w.log

/-- What a result says of the servers. -/
def AllOrNothing (c : Change γ) (conf₀ : Key → Option γ) (r : ChangeSetResult) (w : World γ) :
    Prop :=
  match r.status with
  | .ok => Applied c conf₀ w
  | .rollbackFailed => HandedOver c conf₀ r w
  | .aborted | .rolledBack | .nothing | .noservers => w.conf = conf₀

/-! ## Rollbacks -/

/-- What is known of a target of servers that held `conf₀`. -/
structure Target.Known (conf₀ : Key → Option γ) (t : Target γ) : Prop where
  name : t.name = t.server.label
  transport : t.transport ≠ .off
  beforeCfg : t.beforeCfg = conf₀ t.server.key
  fresh : t.revertFailed = false

theorem Target.Known.key {conf₀ : Key → Option γ} {t : Target γ} (h : t.Known conf₀) :
    t.key = t.server.key := by
  unfold Target.key Server.key
  cases t.server.id <;> simp [h.name]

/-- The invariant of a rollback. The targets `done` were put back, or could not be; the targets
`left` are still to come; `hands` are in the hands of a person; and `failed` are the servers whose
revert failed. -/
structure Undoing (conf₀ : Key → Option γ) (restart : Bool) (done left : List (Target γ))
    (hands failed : List Key) (w : World γ) : Prop where
  conf : ∀ k, w.conf k ≠ conf₀ k → (∃ t ∈ left, t.server.key = k) ∨ k ∈ hands
  restarted : restart → ∀ t ∈ done, t.transport = .file →
    BackAndRestarted w.log t.server ∨ t.server.key ∈ hands
  written : ∀ s cfg, .write s .file cfg true ∈ w.log →
    ∃ t ∈ done ++ left, t.server = s ∧ t.transport = .file
  failed : failedReverts w.log = failed

section Steps

variable {conf₀ : Key → Option γ} {restart : Bool} {done left : List (Target γ)}
  {hands hands' failed : List Key} {w w' : World γ} {t : Target γ} {res : HostResult}

theorem BackAndRestarted.append {log : List (Mark γ)} {s : Server} (h : BackAndRestarted log s)
    (more : List (Mark γ)) : BackAndRestarted (log ++ more) s := by
  obtain ⟨cfg, h⟩ := h
  exact ⟨cfg, h.trans (List.sublist_append_left _ _)⟩

/-- One target is put back, or not: what `hands` and `failed` must then hold. -/
theorem Undoing.step (h : Undoing conf₀ restart done (t :: left) hands failed w)
    (hconf : ∀ k, w'.conf k ≠ conf₀ k → w.conf k ≠ conf₀ k ∧ k ≠ t.server.key ∨ k ∈ hands')
    {more : List (Mark γ)} (hlog : w'.log = w.log ++ more)
    (hmore : ∀ e ∈ more, ∀ s kind cfg ok, e ≠ .write s kind cfg ok)
    (hrestarted : restart → t.transport = .file →
      BackAndRestarted w'.log t.server ∨ t.server.key ∈ hands') (hsub : hands ⊆ hands') :
    Undoing conf₀ restart (done ++ [t]) left hands' (failed ++ failedReverts more) w' := by
  refine ⟨fun k hk => ?_, fun hr u hu hfile => ?_, fun s cfg hw => ?_, ?_⟩
  · rcases hconf k hk with ⟨hne, hkt⟩ | hmem
    · rcases h.conf k hne with ⟨u, hu, rfl⟩ | hmem
      · rcases List.mem_cons.mp hu with rfl | hu
        · exact absurd rfl hkt
        · exact .inl ⟨u, hu, rfl⟩
      · exact .inr (hsub hmem)
    · exact .inr hmem
  · rcases List.mem_append.mp hu with hu | hu
    · rcases h.restarted hr u hu hfile with hb | hmem
      · exact .inl (hlog ▸ hb.append more)
      · exact .inr (hsub hmem)
    · obtain rfl := List.mem_singleton.mp hu
      exact hrestarted hr hfile
  · rw [hlog] at hw
    rcases List.mem_append.mp hw with hw | hw
    · simpa using h.written s cfg hw
    · exact absurd rfl (hmore _ hw s .file cfg true)
  · rw [hlog, failedReverts, List.filterMap_append, ← failedReverts, h.failed]
    rfl

theorem put_frame {cfg : Option γ} (hp : Put t.server.key cfg res w w')
    (hk : w'.conf t.server.key = conf₀ t.server.key ∨ t.server.key ∈ hands') (k : Key)
    (hne : w'.conf k ≠ conf₀ k) : w.conf k ≠ conf₀ k ∧ k ≠ t.server.key ∨ k ∈ hands' := by
  by_cases hkt : k = t.server.key
  · subst hkt
    exact .inr (hk.resolve_left hne)
  · exact .inl ⟨hp.frame k hkt ▸ hne, hkt⟩

/-- The revert of a target failed: it is in the hands of a person. -/
theorem Undoing.notBack (h : Undoing conf₀ restart done (t :: left) hands failed w)
    (hlog : w'.log = w.log ++ [.revert t.server t.transport t.beforeCfg false])
    (hp : Put t.server.key t.beforeCfg res w w') (hsub : hands ⊆ hands')
    (hmem : t.server.key ∈ hands') :
    Undoing conf₀ restart (done ++ [t]) left hands' (failed ++ [t.server.key]) w' :=
  h.step (put_frame hp (.inr hmem)) hlog (by simp) (fun _ _ => .inr hmem) hsub

/-- A target is back, and has no daemon to restart. -/
theorem Undoing.back (h : Undoing conf₀ restart done (t :: left) hands failed w)
    (ht : t.Known conf₀) (hlog : w'.log = w.log ++ [.revert t.server t.transport t.beforeCfg true])
    (hp : Put t.server.key t.beforeCfg res w w') (hok : res.ok)
    (hr : restart → t.transport ≠ .file) :
    Undoing conf₀ restart (done ++ [t]) left hands failed w' := by
  have hback := (hp.done hok).trans ht.beforeCfg
  simpa [failedReverts] using h.step (put_frame hp (.inl hback)) hlog (by simp)
    (fun hrestart hfile => absurd hfile (hr hrestart)) (List.Subset.refl hands)

/-- A target is back, and its daemon was restarted, or is in the hands of a person. -/
theorem Undoing.backRestarted {again : Bool}
    (h : Undoing conf₀ restart done (t :: left) hands failed w) (ht : t.Known conf₀)
    (hlog : w'.log = w.log ++ [.revert t.server .file t.beforeCfg true] ++
      [.restart t.server again])
    (hp : Put t.server.key t.beforeCfg res w w') (hok : res.ok) (hsub : hands ⊆ hands')
    (hmem : again = true ∨ t.server.key ∈ hands') :
    Undoing conf₀ restart (done ++ [t]) left hands' failed w' := by
  have hback := (hp.done hok).trans ht.beforeCfg
  rw [List.append_assoc] at hlog
  have hstep := h.step (put_frame hp (.inl hback)) hlog (by simp) (fun _ _ => ?_) hsub
  · simpa [failedReverts] using hstep
  · rcases hmem with rfl | hmem
    · exact .inl ⟨t.beforeCfg, hlog ▸ List.sublist_append_right _ _⟩
    · exact .inr hmem

end Steps

section Loops

variable {c : Change γ} {conf₀ : Key → Option γ} {done left : List (Target γ)} {w : World γ}
  {t : Target γ}

/-- What the rollback of a failed commit has in the hands of a person. -/
def Undone.hands (acc : Undone γ) (extra : List Key) : List Key :=
  acc.revertFailed.map Target.key ++ acc.restartStuck.map Target.key ++ extra

theorem undoCommitted_runs {acc : Undone γ} {extra : List Key} (ht : t.Known conf₀)
    (h : Undoing conf₀ c.restart done (t :: left) (acc.hands extra)
      (acc.revertFailed.map Target.key) w) :
    Runs (undoCommitted c t acc) (fun r w' => ∃ acc', r = .ok acc' ∧
      Undoing conf₀ c.restart (done ++ [t]) left (acc'.hands extra)
        (acc'.revertFailed.map Target.key) w') w := by
  refine (Prog.wp_bind _ _ _).mpr (restoreTarget_runs ht.transport fun res w₁ hlog hp => ?_)
  dsimp only
  cases hok : res.ok with
  | false =>
    rw [hok] at hlog
    simp only [Bool.false_eq_true, not_false_iff, if_true]
    refine ⟨_, rfl, ?_⟩
    rw [List.map_append, List.map_singleton, ht.key]
    refine h.notBack hlog hp (fun k hk => ?_) ?_
    · simp only [Undone.hands, List.map_append, List.mem_append] at hk ⊢
      tauto
    · simp [Undone.hands, ht.key]
  | true =>
    rw [hok] at hlog
    simp only [not_true_eq_false, if_false]
    split_ifs with hr
    · rw [hr.2] at hlog
      refine (Prog.wp_bind _ _ _).mpr (restartTarget_runs fun again w₂ hlog₂ hconf => ?_)
      rw [hlog] at hlog₂
      have hp₂ : Put t.server.key t.beforeCfg res w w₂ := by
        constructor <;> simp only [hconf]
        exacts [hp.frame, hp.done, hp.kept]
      dsimp only
      split_ifs with hagain
      · exact ⟨acc, rfl, h.backRestarted ht hlog₂ hp₂ hok (List.Subset.refl _) (.inl hagain)⟩
      · refine ⟨_, rfl, h.backRestarted ht hlog₂ hp₂ hok (fun k hk => ?_) (.inr ?_)⟩
        · simp only [Undone.hands, List.map_append, List.mem_append] at hk ⊢
          tauto
        · simp [Undone.hands, ht.key]
    · exact ⟨acc, rfl, h.back ht hlog hp hok fun hrestart hfile => hr ⟨hrestart, hfile⟩⟩

theorem putBack_runs {restart : Bool} {acc : PutBack γ} (ht : t.Known conf₀)
    (h : Undoing conf₀ restart done (t :: left) (acc.stuck.map Target.key)
      ((acc.stuck.filter (·.revertFailed)).map Target.key) w) :
    Runs (putBack c restart t acc) (fun r w' => ∃ acc', r = .ok acc' ∧
      Undoing conf₀ restart (done ++ [t]) left (acc'.stuck.map Target.key)
        ((acc'.stuck.filter (·.revertFailed)).map Target.key) w') w := by
  refine (Prog.wp_bind _ _ _).mpr (restoreTarget_runs ht.transport fun res w₁ hlog hp => ?_)
  dsimp only
  cases hok : res.ok with
  | false =>
    rw [hok] at hlog
    simp only [Bool.false_eq_true, not_false_iff, if_true]
    refine ⟨_, rfl, ?_⟩
    have hkey : Target.key { t with revertFailed := true } = t.server.key := ht.key
    rw [List.filter_append, List.map_append, List.map_append,
      List.filter_cons_of_pos (by rfl), List.filter_nil, List.map_singleton, hkey]
    exact h.notBack hlog hp (List.subset_append_left _ _) (by simp)
  | true =>
    rw [hok] at hlog
    simp only [not_true_eq_false, if_false]
    split_ifs with hr
    · refine ⟨acc, rfl, h.back ht hlog hp hok fun hrestart => ?_⟩
      exact hr.resolve_left (by simp [hrestart])
    · rw [not_or, not_not, not_not] at hr
      rw [hr.2] at hlog
      refine (Prog.wp_bind _ _ _).mpr (restartTarget_runs fun again w₂ hlog₂ hconf => ?_)
      rw [hlog] at hlog₂
      have hp₂ : Put t.server.key t.beforeCfg res w w₂ := by
        constructor <;> simp only [hconf]
        exacts [hp.frame, hp.done, hp.kept]
      dsimp only
      split_ifs with hagain
      · exact ⟨acc, rfl, h.backRestarted ht hlog₂ hp₂ hok (List.Subset.refl _) (.inl hagain)⟩
      · refine ⟨_, rfl, ?_⟩
        rw [List.filter_append, List.map_append, List.map_append,
          List.filter_cons_of_neg (by simp [ht.fresh]), List.filter_nil, List.map_nil,
          List.append_nil, List.map_singleton]
        exact h.backRestarted ht hlog₂ hp₂ hok (List.subset_append_left _ _)
          (.inr (by simp [ht.key]))

variable {targets : List (Target γ)} {lines : List Line}

theorem putEverythingBack_runs {restart : Bool} (ht : ∀ t ∈ targets, t.Known conf₀)
    (h : Undoing conf₀ restart [] targets.reverse [] [] w) :
    Runs (putEverythingBack c targets lines restart) (fun r w' => ∃ back, r = .ok back ∧
      Undoing conf₀ restart targets.reverse [] (back.stuck.map Target.key)
        ((back.stuck.filter (·.revertFailed)).map Target.key) w') w := by
  refine Prog.wp_fold (fun left acc w' => ∃ done, done ++ left = targets.reverse ∧
    Undoing conf₀ restart done left (acc.stuck.map Target.key)
      ((acc.stuck.filter (·.revertFailed)).map Target.key) w') ?_ ?_ ?_
  · rintro t left acc w₁ ⟨done, hdone, hinv⟩
    have hmem : t ∈ targets := by
      rw [← List.mem_reverse, ← hdone]
      simp
    refine Prog.wp_mono ?_ (putBack_runs (ht t hmem) hinv)
    rintro r w₂ ⟨acc', rfl, hinv'⟩
    exact ⟨done ++ [t], by simp [hdone], hinv'⟩
  · rintro acc w₁ ⟨done, hdone, hinv⟩
    rw [List.append_nil] at hdone
    exact ⟨acc, rfl, hdone ▸ hinv⟩
  · exact ⟨[], rfl, by simpa using h⟩

/-- The end of a rollback: what it left is what its hands say. -/
theorem Undoing.handedOver {hands failed : List Key} {r : ChangeSetResult}
    (h : Undoing conf₀ c.restart done [] hands failed w)
    (hneeds : ∀ k ∈ hands, some k ∈ r.needsHandsIds) (hstill : r.stillNewIds = failed) :
    HandedOver c conf₀ r w := by
  refine ⟨fun k hk => ?_, fun hr s cfg hw => ?_, hstill.trans h.failed.symm⟩
  · rcases h.conf k hk with ⟨t, ht, -⟩ | hmem
    · simp at ht
    · exact hneeds k hmem
  · obtain ⟨t, ht, rfl, hfile⟩ := h.written s cfg hw
    rw [List.append_nil] at ht
    exact (h.restarted hr t ht hfile).imp_right (hneeds _)

theorem Undoing.asBefore {restart : Bool} {failed : List Key}
    (h : Undoing conf₀ restart done [] [] failed w) : w.conf = conf₀ := by
  funext k
  by_contra hk
  rcases h.conf k hk with ⟨t, ht, -⟩ | hmem
  · simp at ht
  · simp at hmem

theorem putBackResult_allOrNothing {back : PutBack γ} {code line : String}
    {failures stuckFailures : List String}
    (h : Undoing conf₀ c.restart done [] (back.stuck.map Target.key)
      ((back.stuck.filter (·.revertFailed)).map Target.key) w) :
    AllOrNothing c conf₀ (putBackResult code back failures stuckFailures line) w := by
  unfold putBackResult
  by_cases hstuck : back.stuck = []
  · rw [if_neg (not_not.mpr hstuck)]
    rw [hstuck] at h
    exact h.asBefore
  · rw [if_pos hstuck]
    exact h.handedOver (by simp) rfl

theorem commitFailedResult_allOrNothing {committed : List (Target γ)} {res : HostResult}
    {acc : Undone γ} (ht : t.Known conf₀)
    (h : Undoing conf₀ c.restart done [] (acc.hands (if res.needsHands then [t.server.key] else []))
      (acc.revertFailed.map Target.key) w) :
    AllOrNothing c conf₀ (commitFailedResult committed t res acc) w := by
  have hhands : acc.hands (if res.needsHands then [t.server.key] else []) =
      (acc.revertFailed ++ acc.restartStuck ++ if res.needsHands then [t] else []).map
        Target.key := by
    cases res.needsHands <;> simp [Undone.hands, ht.key]
  rw [hhands] at h
  unfold commitFailedResult
  dsimp only
  by_cases hneeds : acc.revertFailed ++ acc.restartStuck ++ (if res.needsHands then [t] else []) = []
  · rw [if_neg (not_not.mpr hneeds)]
    rw [hneeds] at h
    exact h.asBefore
  · rw [if_pos hneeds]
    exact h.handedOver (by simp) rfl

theorem commitFailed_runs {committed : List (Target γ)} {res : HostResult}
    (hc : ∀ u ∈ committed, u.Known conf₀) (ht : t.Known conf₀)
    (h : Undoing conf₀ c.restart [] committed.reverse
      (if res.needsHands then [t.server.key] else []) [] w) :
    Runs (commitFailed c lines committed t res)
      (fun r w' => ∃ x, r = .ok x ∧ AllOrNothing c conf₀ x w') w := by
  refine (Prog.wp_bind _ _ _).mpr (Prog.wp_fold (fun left acc w' => ∃ done,
    done ++ left = committed.reverse ∧ Undoing conf₀ c.restart done left
      (acc.hands (if res.needsHands then [t.server.key] else []))
      (acc.revertFailed.map Target.key) w') ?_ ?_ ?_)
  · rintro u left acc w₁ ⟨done, hdone, hinv⟩
    have hmem : u ∈ committed := by
      rw [← List.mem_reverse, ← hdone]
      simp
    refine Prog.wp_mono ?_ (undoCommitted_runs (hc u hmem) hinv)
    rintro r w₂ ⟨acc', rfl, hinv'⟩
    exact ⟨done ++ [u], by simp [hdone], hinv'⟩
  · rintro acc w₁ ⟨done, hdone, hinv⟩
    exact ⟨_, rfl, commitFailedResult_allOrNothing ht hinv⟩
  · exact ⟨[], rfl, by simpa [Undone.hands] using h⟩

end Loops

/-! ## The commit -/

theorem failedReverts_eq_nil {log : List (Mark γ)}
    (h : ∀ s kind cfg ok, .revert s kind cfg ok ∉ log) : failedReverts log = [] := by
  refine List.filterMap_eq_nil_iff.mpr fun e he => ?_
  cases e with
  | revert s kind cfg ok => exact absurd he (h s kind cfg ok)
  | _ => rfl

section Commit

variable {c : Change γ} {conf₀ : Key → Option γ} {targets : List (Target γ)}
  {log₀ : List (Mark γ)} {w w' : World γ}

/-- What the commit has written, once `done` is written. -/
structure Writing (conf₀ : Key → Option γ) (done : List (Target γ)) (log₀ : List (Mark γ))
    (w : World γ) : Prop where
  log_eq : w.log = log₀ ++ done.map Target.written
  after : ∀ t ∈ done, w.conf t.server.key = some t.afterCfg
  others : ∀ k, (∀ t ∈ done, t.server.key ≠ k) → w.conf k = conf₀ k

theorem SameBut.known {u t : Target γ} (h : SameBut u t) (ht : t.Known conf₀) : u.Known conf₀ := by
  obtain ⟨sha, rfl⟩ := h
  exact ⟨ht.name, ht.transport, ht.beforeCfg, ht.fresh⟩

/-- One more target is written. -/
theorem Writing.snoc {done : List (Target γ)} {t : Target γ} {res : HostResult}
    (h : Writing conf₀ done log₀ w) (hnew : ∀ u ∈ done, u.server.key ≠ t.server.key)
    (hlog : w'.log = w.log ++ [t.written]) (hp : Put t.server.key (some t.afterCfg) res w w')
    (hok : res.ok) : Writing conf₀ (done ++ [t]) log₀ w' := by
  refine ⟨by simp [hlog, h.log_eq], fun u hu => ?_, fun k hk => ?_⟩
  · rcases List.mem_append.mp hu with hu | hu
    · rw [hp.frame _ (hnew u hu)]
      exact h.after u hu
    · obtain rfl := List.mem_singleton.mp hu
      exact hp.done hok
  · rw [hp.frame k fun heq => hk t (by simp) heq.symm]
    exact h.others k fun u hu => hk u (List.mem_append_left _ hu)

/-- A write fails: what was committed is to be put back. -/
theorem Writing.failed {done committed : List (Target γ)} {t : Target γ} {res : HostResult}
    {restart : Bool} (h : Writing conf₀ done log₀ w) (hc : Commits committed done)
    (hearly : ∀ e ∈ log₀, e.isEarly)
    (hlog : w'.log = w.log ++ [.write t.server t.transport t.afterCfg false])
    (hp : Put t.server.key (some t.afterCfg) res w w') (hok : ¬ res.ok) :
    Undoing conf₀ restart [] committed.reverse (if res.needsHands then [t.server.key] else []) []
      w' := by
  rw [h.log_eq] at hlog
  have hold : ∀ k, w.conf k ≠ conf₀ k → ∃ u ∈ committed.reverse, u.server.key = k := by
    intro k hk
    by_contra hno
    refine hk (h.others k fun d hd hkey => hno ?_)
    obtain ⟨u, hu, sha, rfl⟩ := hc.all d hd
    exact ⟨_, List.mem_reverse.mpr hu, hkey⟩
  refine ⟨fun k hk => ?_, fun _ u hu => by simp at hu, fun s cfg hw => ?_, ?_⟩
  · by_cases hkt : k = t.server.key
    · cases hn : res.needsHands with
      | true => exact .inr (by simp [hkt])
      | false =>
        rw [hkt, hp.kept hok (by simp [hn]), ← hkt] at hk
        exact .inl (hold k hk)
    · rw [hp.frame k hkt] at hk
      exact .inl (hold k hk)
  · rw [hlog, List.mem_append, List.mem_append] at hw
    rcases hw with (hw | hw) | hw
    · exact (hearly _ hw).elim
    · obtain ⟨d, hd, heq⟩ := List.mem_map.mp hw
      obtain ⟨rfl, hk, -, -⟩ := Mark.write.inj heq
      obtain ⟨u, hu, sha, rfl⟩ := hc.all d hd
      exact ⟨{ d with appliedSha := sha }, by simpa using hu, rfl, hk⟩
    · simp at hw
  · refine failedReverts_eq_nil fun s kind cfg ok hr => ?_
    rw [hlog, List.mem_append, List.mem_append] at hr
    rcases hr with (hr | hr) | hr
    · exact hearly _ hr
    · obtain ⟨d, -, heq⟩ := List.mem_map.mp hr
      cases heq
    · simp at hr

theorem nodup_commitOrder (h : (targets.map (·.server.key)).Nodup) :
    ((commitOrder targets).map (·.server.key)).Nodup := by
  refine (List.Perm.nodup_iff (List.Perm.map _ ?_)).mpr h
  have hperm := List.filter_append_perm (fun t : Target γ => decide (t.transport ≠ .api)) targets
  simpa [commitOrder] using hperm

theorem commit_runs (hknown : ∀ t ∈ targets, t.Known conf₀)
    (hnodup : (targets.map (·.server.key)).Nodup) (hearly : ∀ e ∈ w.log, e.isEarly)
    (hconf : w.conf = conf₀) :
    Runs (Prog.loop (commit c) (commitOrder targets) []) (fun r w' => match r with
      | .ok (.inl committed) => Writing conf₀ (commitOrder targets) w.log w' ∧
          Commits committed (commitOrder targets)
      | .ok (.inr (committed, t, res)) => (∀ u ∈ committed, u.Known conf₀) ∧ t.Known conf₀ ∧
          Undoing conf₀ c.restart [] committed.reverse
            (if res.needsHands then [t.server.key] else []) [] w'
      | .error _ => False) w := by
  refine Prog.wp_loop (fun rest committed w' => ∃ done, done ++ rest = commitOrder targets ∧
    Writing conf₀ done w.log w' ∧ Commits committed done) ?_ ?_ ?_
  · rintro t rest committed w₁ ⟨done, hdone, hinv, hsame⟩
    have hmem : ∀ u ∈ done ++ t :: rest, u.Known conf₀ := fun u hu =>
      hknown u (mem_commitOrder.mp (hdone ▸ hu))
    have ht := hmem t (by simp)
    have hnew : ∀ u ∈ done, u.server.key ≠ t.server.key := by
      have hnd := nodup_commitOrder hnodup
      rw [← hdone, List.map_append, List.nodup_append] at hnd
      exact fun u hu => hnd.2.2 _ (List.mem_map_of_mem hu) _ (by simp)
    refine (Prog.wp_bind _ _ _).mpr (writeTarget_runs ht.transport fun res w₂ hlog hp => ?_)
    dsimp only
    cases hok : res.ok with
    | true =>
      rw [hok] at hlog
      exact ⟨done ++ [t], by simp [hdone], hinv.snoc hnew hlog hp hok, hsame.snoc t _⟩
    | false =>
      rw [hok] at hlog
      refine ⟨fun u hu => ?_, ht, hinv.failed hsame hearly hlog hp (by simp [hok])⟩
      obtain ⟨d, hd, hs⟩ := hsame.origin u hu
      exact hs.known (hmem d (List.mem_append_left _ hd))
  · rintro committed w₁ ⟨done, hdone, hinv, hsame⟩
    rw [List.append_nil] at hdone
    exact hdone ▸ ⟨hinv, hsame⟩
  · exact ⟨[], rfl, ⟨by simp, by simp, fun k _ => by rw [hconf]⟩, by simp, by simp⟩

end Commit

/-! ## Restart, finalize -/

/-- Where a run stands when every target is written and nothing was put back. -/
structure Standing (c : Change γ) (conf₀ : Key → Option γ) (targets : List (Target γ))
    (w : World γ) : Prop where
  committed : Committed c w.log
  after : ∀ t ∈ targets, w.conf t.server.key = some t.afterCfg
  others : ∀ k, (∀ t ∈ targets, t.server.key ≠ k) → w.conf k = conf₀ k
  written : ∀ s cfg, .write s .file cfg true ∈ w.log →
    ∃ t ∈ targets, t.server = s ∧ t.transport = .file

/-- The servers are as they were, and the log has grown. -/
structure Extends (w w' : World γ) : Prop where
  conf : w'.conf = w.conf
  log : w.log ⊆ w'.log

section Ends

variable {c : Change γ} {conf₀ : Key → Option γ} {targets : List (Target γ)} {lines : List Line}
  {w w' : World γ}

/-- Everything that stands can be put back. -/
theorem Undoing.ofWritten {restart : Bool}
    (hothers : ∀ k, (∀ t ∈ targets, t.server.key ≠ k) → w.conf k = conf₀ k)
    (hwritten : ∀ s cfg, .write s .file cfg true ∈ w.log →
      ∃ t ∈ targets, t.server = s ∧ t.transport = .file)
    (hreverts : ∀ s kind cfg ok, .revert s kind cfg ok ∉ w.log) :
    Undoing conf₀ restart [] targets.reverse [] [] w := by
  refine ⟨fun k hk => .inl ?_, fun _ u hu => by simp at hu, fun s cfg hw => ?_,
    failedReverts_eq_nil hreverts⟩
  · by_contra hno
    exact hk (hothers k fun t ht hkey => hno ⟨t, List.mem_reverse.mpr ht, hkey⟩)
  · simpa using hwritten s cfg hw

theorem restarts_runs {restartable : List (Target γ)} (h : Standing c conf₀ targets w) :
    Runs (Prog.fold (restartOne c) restartable []) (fun r w' => Standing c conf₀ targets w' ∧
      ∃ restarts, r = .ok restarts ∧ RestartsOf restartable restarts w.log w'.log) w := by
  have hlog : Runs (Prog.fold (restartOne c) restartable []) (fun r w' => Committed c w'.log ∧
      ∃ restarts, r = .ok restarts ∧ RestartsOf restartable restarts w.log w'.log) w :=
    (restarts_trace h.committed).runs
  have hconf : Runs (Prog.fold (restartOne c) restartable []) (fun _ w' => w'.conf = w.conf ∧
      ∀ s cfg, .write s .file cfg true ∈ w'.log → .write s .file cfg true ∈ w.log) w := by
    refine Prog.wp_fold (fun _ _ w' => w'.conf = w.conf ∧
      ∀ s cfg, .write s .file cfg true ∈ w'.log → .write s .file cfg true ∈ w.log) ?_ ?_ ?_
    · rintro t rest acc w₁ ⟨hc, hw⟩
      refine (Prog.wp_bind _ _ _).mpr (restartTarget_runs fun res w₂ hlog₂ hconf₂ => ?_)
      exact ⟨hconf₂.trans hc, fun s cfg hmem => hw s cfg (by simpa [hlog₂] using hmem)⟩
    · exact fun _ _ hw => hw
    · exact ⟨rfl, fun _ _ hw => hw⟩
  refine Prog.wp_mono ?_ (Prog.wp_forget (Prog.wp_and hlog hconf))
  rintro r w₁ ⟨⟨hc, hof⟩, hconf₁, hwrites⟩
  exact ⟨⟨hc, hconf₁ ▸ h.after, hconf₁ ▸ h.others,
    fun s cfg hw => h.written s cfg (hwrites s cfg hw)⟩, hof⟩

theorem restartPhase_runs (hknown : ∀ t ∈ targets, t.Known conf₀)
    (hdistinct : ∀ t ∈ targets, ∀ u ∈ targets, t.server.key = u.server.key → t.server = u.server)
    (h : Standing c conf₀ targets w) :
    Runs (restartPhase c targets lines) (fun r w' => match r with
      | .ok none => Standing c conf₀ targets w' ∧
          (c.restart → ∀ t ∈ targets, t.transport = .file → .restart t.server true ∈ w'.log)
      | .ok (some x) => AllOrNothing c conf₀ x w'
      | .error _ => False) w := by
  unfold restartPhase
  dsimp only
  split_ifs with hr
  · refine (Prog.wp_bind _ _ _).mpr (Prog.wp_mono ?_ (restarts_runs h))
    rintro r w₁ ⟨hw₁, restarts, rfl, hof⟩
    dsimp only
    split_ifs with hf
    · refine ⟨hw₁, fun _ t htt hfile => ?_⟩
      have hmem : t ∈ targets.filter (·.transport = .file) := by simp [htt, hfile]
      have hok : (restartOf restarts t.key).ok = true := by
        have := List.isEmpty_iff.mp hf
        simpa using List.filter_eq_nil_iff.mp this t hmem
      obtain ⟨u, hu, hk, hm⟩ := hof.ok hok
      have hut := List.mem_of_mem_filter hu
      rw [(hknown u hut).key, (hknown t htt).key] at hk
      exact hdistinct u hut t htt hk ▸ hm
    · have hundo : Undoing conf₀ true [] targets.reverse [] [] w₁ :=
        .ofWritten hw₁.others hw₁.written hw₁.committed.forward.reverts
      refine (Prog.wp_bind _ _ _).mpr (Prog.wp_mono ?_ (putEverythingBack_runs hknown hundo))
      rintro r w₂ ⟨back, rfl, hw₂⟩
      exact putBackResult_allOrNothing (hr.1 ▸ hw₂)
  · refine ⟨h, fun hrestart t htt hfile => absurd ⟨hrestart, ?_⟩ hr⟩
    exact List.ne_nil_of_mem (List.mem_filter.mpr ⟨htt, by simpa using hfile⟩)

theorem finalizePhase_runs (hknown : ∀ t ∈ targets, t.Known conf₀)
    (h : Standing c conf₀ targets w) :
    Runs (finalizePhase c targets lines) (fun r w' => match r with
      | .ok none => Extends w w'
      | .ok (some x) => AllOrNothing c conf₀ x w'
      | .error _ => False) w := by
  unfold finalizePhase
  split_ifs
  · refine (Prog.wp_handle _ _ _).mpr ((Prog.wp_bind _ _ _).mpr fun d => ⟨trivial, ?_⟩)
    simp only [host, outcomeOf, Prog.wp_ofExcept]
    cases hd : d.raises with
    | none => exact ⟨rfl, List.subset_append_left _ _⟩
    | some e =>
      have hundo : Undoing conf₀ c.restart [] targets.reverse [] []
          ⟨w.conf, w.log ++ [.finalize false]⟩ := by
        refine .ofWritten h.others (fun s cfg hw => h.written s cfg (by simpa using hw)) ?_
        intro s kind cfg ok hrev
        exact h.committed.forward.reverts s kind cfg ok (by simpa using hrev)
      refine (Prog.wp_bind _ _ _).mpr (Prog.wp_mono ?_ (putEverythingBack_runs hknown hundo))
      rintro r w₂ ⟨back, rfl, hw₂⟩
      exact putBackResult_allOrNothing hw₂
  · exact ⟨rfl, List.Subset.refl _⟩

/-- What is left after every write answered ok: everything, or nothing, or it is handed over. -/
theorem afterCommit_runs (hknown : ∀ t ∈ targets, t.Known conf₀)
    (hdistinct : ∀ t ∈ targets, ∀ u ∈ targets, t.server.key = u.server.key → t.server = u.server)
    (htargets : ∀ s kind after, IsTarget c conf₀ s kind after ↔
      ∃ t ∈ targets, t.server = s ∧ t.transport = kind ∧ t.afterCfg = after)
    (h : Standing c conf₀ targets w) :
    Runs (afterCommit c targets lines) (fun r w' => ∀ x, r = .ok x → AllOrNothing c conf₀ x w')
      w := by
  refine (Prog.wp_bind _ _ _).mpr (Prog.wp_mono ?_ (restartPhase_runs hknown hdistinct h))
  rintro (e | _ | x) w₁ hw₁
  · exact hw₁.elim
  · obtain ⟨hstand, hrestarted⟩ := hw₁
    refine (Prog.wp_bind _ _ _).mpr (Prog.wp_mono ?_ (finalizePhase_runs hknown hstand))
    rintro (e | _ | x) w₂ hw₂
    · exact hw₂.elim
    · refine (Prog.wp_bind _ _ _).mpr (Prog.wp_mono ?_
        ((asks_fold asks_announce targets lines).conf w₂))
      rintro (e | lines') w₃ hw₃
      · rintro x ⟨⟩
      rintro x ⟨rfl⟩
      have hconf : w₃.conf = w₁.conf := hw₃.1.trans hw₂.conf
      refine ⟨fun s kind after ht => ?_, fun k hk => ?_, fun hr s after ht => ?_⟩
      · obtain ⟨t, hmem, rfl, rfl, rfl⟩ := (htargets s kind after).mp ht
        exact hconf ▸ hstand.after t hmem
      · refine hconf ▸ hstand.others k fun t ht => hk t.server t.transport t.afterCfg ?_
        exact (htargets _ _ _).mpr ⟨t, ht, rfl, rfl, rfl⟩
      · obtain ⟨t, hmem, rfl, hfile, rfl⟩ := (htargets s .file after).mp ht
        exact hw₃.2 (hw₂.log (hrestarted hr t hmem hfile))
    · rintro x' ⟨rfl⟩
      exact hw₂
  · rintro x' ⟨rfl⟩
    exact hw₁

end Ends

/-! ## The whole run -/

section Run

variable {c : Change γ} {conf₀ : Key → Option γ} {targets : List (Target γ)} {w : World γ}

/-- Where a run stands after the Plan: nothing was put anywhere, and every read saw `conf₀`. -/
structure AfterPlan (c : Change γ) (conf₀ : Key → Option γ) (targets : List (Target γ))
    (w : World γ) : Prop where
  plan : PlanTrace c c.planned targets w.log
  conf : w.conf = conf₀
  reads : ∀ s kind cfg, .read s kind cfg ∈ w.log → cfg = conf₀ s.key

theorem AfterPlan.known (h : AfterPlan c conf₀ targets w) {t : Target γ} (ht : t ∈ targets) :
    t.Known conf₀ :=
  have ho := h.plan.origin t ht
  ⟨ho.name, ho.transport_ne, h.reads _ _ _ ho.read, ho.fresh⟩

theorem AfterPlan.isTarget_iff (h : AfterPlan c conf₀ targets w) (s : Server) (kind : Transport)
    (after : γ) : IsTarget c conf₀ s kind after ↔
      ∃ t ∈ targets, t.server = s ∧ t.transport = kind ∧ t.afterCfg = after := by
  constructor
  · rintro ⟨hp, hm⟩
    obtain ⟨cfg, hr⟩ := h.plan.reads (s, kind) hp
    rw [← h.reads _ _ _ hr] at hm
    exact h.plan.read_target hr hm
  · rintro ⟨t, ht, rfl, rfl, rfl⟩
    have ho := h.plan.origin t ht
    exact ⟨ho.planned, h.reads _ _ _ ho.read ▸ ho.mutated⟩

/-- Servers with distinct ids are targets with distinct keys. -/
theorem AfterPlan.nodup (h : AfterPlan c conf₀ targets w) (hids : (c.servers.map (·.id)).Nodup) :
    (targets.map (·.server.key)).Nodup := by
  have hsub : (targets.map (·.server)).Sublist c.servers := by
    have h₁ := (h.plan.order.trans List.filter_sublist).map Prod.fst
    simpa [List.map_map, Function.comp_def] using h₁
  have hnodup : (targets.map fun t => t.server.id).Nodup := by
    have := (hsub.map (·.id)).nodup hids
    simpa [List.map_map, Function.comp_def] using this
  rw [List.Nodup, List.pairwise_map] at hnodup ⊢
  exact hnodup.imp fun hne heq => hne (Server.id_eq_of_key_eq heq)

theorem afterPlan_runs {plan : Planned γ} (hids : (c.servers.map (·.id)).Nodup)
    (h : AfterPlan c conf₀ plan.targets w) :
    Runs (afterPlan c plan) (fun r w' => ∀ x, r = .ok x → AllOrNothing c conf₀ x w') w := by
  have hknown : ∀ t ∈ plan.targets, t.Known conf₀ := fun t ht => h.known ht
  have hearly : ∀ e ∈ w.log, e.isEarly := fun e he => (h.plan.quiet e he).early
  refine (Prog.wp_bind _ _ _).mpr (Prog.wp_mono ?_ (preflight_trace
    (fun t ht => (hknown t ht).transport) hearly).untouched)
  rintro r w₁ ⟨⟨hearly₁, ⟨failed, lines⟩, rfl, hpass⟩, more, hlog₁, hconf₁⟩
  have hconf : w₁.conf = conf₀ := by
    refine (hconf₁ fun e he => ?_).1.trans h.conf
    exact (hearly₁ e (by simp [hlog₁, he])).not_isPut
  dsimp only
  split_ifs with hfailed
  · rintro x ⟨rfl⟩
    exact hconf
  have hlog := hpass (by simpa using hfailed)
  have hnodup := h.nodup hids
  refine (Prog.wp_bind _ _ _).mpr (Prog.wp_mono ?_ (Prog.wp_forget (Prog.wp_and
    (commit_runs hknown hnodup hearly₁ hconf) (commit_trace
      (fun t ht => (hknown t (mem_commitOrder.mp ht)).transport) hearly₁
      (hlog ▸ h.plan.tested)).runs)))
  rintro (e | committed | ⟨committed, t, res⟩) w₂ ⟨hw₂, htrace⟩
  · exact hw₂.elim
  · obtain ⟨hwriting, hcommits⟩ := hw₂
    have hpos : (plan.targets.map (·.pos)).Nodup := h.plan.pos ▸ List.nodup_range
    have hc := Commits.withApplied hpos fun u hu => by
      obtain ⟨t, ht, hs⟩ := hcommits.origin u hu
      exact ⟨t, mem_commitOrder.mp ht, hs⟩
    have hstand : Standing c conf₀ (withApplied plan.targets committed) w₂ := by
      have hcommitting := hlog ▸ htrace.1
      refine ⟨h.plan.committed hcommitting, fun u hu => ?_, fun k hk => ?_, fun s cfg hw => ?_⟩
      · obtain ⟨t, ht, sha, rfl⟩ := hc.origin u hu
        exact hwriting.after t (mem_commitOrder.mpr ht)
      · refine hwriting.others k fun t ht => ?_
        obtain ⟨u, hu, sha, rfl⟩ := hc.all t (mem_commitOrder.mp ht)
        exact hk { t with appliedSha := sha } hu
      · rcases hcommitting.mem hw with hmem | ⟨t, -, ht⟩ | ⟨t, hmem, ht⟩
        · exact (h.plan.quiet _ hmem).elim
        · cases ht
        · obtain ⟨rfl, hk, -, -⟩ := Mark.write.inj ht
          obtain ⟨u, hu, sha, rfl⟩ := hc.all t (mem_commitOrder.mp hmem)
          exact ⟨_, hu, rfl, hk⟩
    refine afterCommit_runs (fun u hu => ?_) (fun u hu v hv huv => ?_) (fun s kind after => ?_)
      hstand
    · obtain ⟨t, ht, hs⟩ := hc.origin u hu
      exact hs.known (hknown t ht)
    · obtain ⟨t, ht, sha, rfl⟩ := hc.origin u hu
      obtain ⟨t', ht', sha', rfl⟩ := hc.origin v hv
      have heq : t = t' := List.inj_on_of_nodup_map hnodup ht ht' huv
      exact congrArg (·.server) heq
    · rw [h.isTarget_iff]
      constructor
      · rintro ⟨t, ht, rfl, rfl, rfl⟩
        obtain ⟨u, hu, sha, rfl⟩ := hc.all t ht
        exact ⟨_, hu, rfl, rfl, rfl⟩
      · rintro ⟨u, hu, rfl, rfl, rfl⟩
        obtain ⟨t, ht, sha, rfl⟩ := hc.origin u hu
        exact ⟨t, ht, rfl, rfl, rfl⟩
  · obtain ⟨hcommitted, ht, hundo⟩ := hw₂
    refine Prog.wp_mono ?_ (commitFailed_runs hcommitted ht hundo)
    rintro r w₃ ⟨x, rfl, hx⟩ x' ⟨rfl⟩
    exact hx

theorem runChange_runs (hids : (c.servers.map (·.id)).Nodup) :
    Runs (runChangeUnlocked c) (fun r w => ∀ x, r = .ok x → AllOrNothing c conf₀ x w)
      ⟨conf₀, []⟩ := by
  unfold runChangeUnlocked
  dsimp only
  split_ifs with hnone
  · rintro x ⟨rfl⟩
    rfl
  refine (Prog.wp_bind _ _ _).mpr (Prog.wp_mono ?_ plan_trace.untouched)
  rintro (e | plan | r) w ⟨h, more, hlog, hconf⟩
  · rintro x ⟨⟩
  · have hquiet : ∀ e ∈ more, ¬ e.isPut := fun e he =>
      (h.quiet e (by simpa [hlog] using he)).early.not_isPut
    have hplan : AfterPlan c conf₀ plan.targets w :=
      ⟨h, (hconf hquiet).1, fun s kind cfg hr => (hconf hquiet).2 s kind cfg (by simpa [hlog] using hr)⟩
    dsimp only
    split_ifs
    · rintro x ⟨rfl⟩
      exact hplan.conf
    · exact afterPlan_runs hids hplan
  · rintro x ⟨rfl⟩
    have hquiet : ∀ e ∈ more, ¬ e.isPut := fun e he =>
      (h.2 e (by simpa [hlog] using he)).early.not_isPut
    simp only [AllOrNothing, h.1]
    exact (hconf hquiet).1

end Run

/-- A change set is all or nothing. Over servers with distinct ids, and whatever the hosts and the
daemons answer or raise, a run that returns has changed nothing, or has changed and restarted every
target, or names every server that is not as it was for a person. -/
theorem runChange_allOrNothing (c : Change γ) (hids : (c.servers.map (·.id)).Nodup)
    (conf₀ : Key → Option γ) (fates : ℕ → Fate γ) (r : ChangeSetResult)
    (hr : ((runChangeUnlocked c).run host fates ⟨conf₀, []⟩).result = .ok r) :
    AllOrNothing c conf₀ r ((runChangeUnlocked c).run host fates ⟨conf₀, []⟩).state :=
  (Prog.wp_sound (runChange_runs hids) fates).1 r hr

/-- The write of the second of two file servers is refused, and everything else answers ok. -/
def secondWriteRefused (n : ℕ) : Fate ℕ := if n = 5 then { result := { ok := false } } else {}

/-- That run is aborted with the first server back as it was. -/
theorem runChange_allOrNothing_twoFiles :
    ∃ r, ((runChangeUnlocked twoFiles).run host secondWriteRefused ⟨fun _ => some 0, []⟩).result =
        .ok r ∧ r.status = .aborted ∧
      AllOrNothing twoFiles (fun _ => some 0) r
        ((runChangeUnlocked twoFiles).run host secondWriteRefused ⟨fun _ => some 0, []⟩).state :=
  ⟨_, rfl, rfl, runChange_allOrNothing twoFiles (by decide) _ _ _ rfl⟩

end JenKea.ChangeSet
