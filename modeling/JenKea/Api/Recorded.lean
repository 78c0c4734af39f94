import JenKea.Api.Reach
import JenKea.Lib.Trace

/-!
# The record of a change that may be live

A call of `apply` records the candidate before it sends it, and drops the record on some of its ways
out. This file proves of every point of a call, so of a crash at every point, that a candidate that
was sent is on file, unless the daemon runs its previous configuration again; and that nothing is
sent unless the record was written. Commands and writes to the store may go wrong in every way.
-/

namespace JenKea.Api

variable {H : Type} {kea : Kea H} {c : Write H} {sid : ℤ} {before : Cfg} {expect h1 : H}
  {planned rowSha : Option H} {id : ℕ} {w₀ w : World H} {r : Row H}

/-- The daemon runs the candidate: it took it, or what it runs carries it. -/
def Live (kea : Kea H) (c : Write H) (running : Cfg) : Prop :=
  (∃ sec, Json.lookup ((serviceKey c.service).getD "") c.cfg = some sec ∧
    running = kea.render sec) ∨
  carries (.obj running) (sectionOf (some c.cfg) c.service) = true

/-- A pending row of the call, with the candidate. -/
structure PendingRow (c : Write H) (sid : ℤ) (w₀ : World H) (r : Row H) : Prop where
  new : w₀.store.nextId ≤ r.id
  isOf : r.isOf sid c.service = true
  source : r.source = .pending
  config : r.config = some (.obj c.cfg)

/-- A settled row of the call, with what the daemon runs, and it runs the candidate. -/
structure FinishedRow (kea : Kea H) (c : Write H) (sid : ℤ) (w₀ : World H) (running : Cfg)
    (r : Row H) : Prop where
  new : w₀.store.nextId ≤ r.id
  isOf : r.isOf sid c.service = true
  settled : r.settled = true
  config : r.config = some (.obj (reported c.service running))
  live : Live kea c running

/-- The store holds a row of this call with the candidate, pending or finished. -/
def OnFile (kea : Kea H) (c : Write H) (sid : ℤ) (w₀ w : World H) : Prop :=
  ∃ r ∈ w.store.rows, PendingRow c sid w₀ r ∨ FinishedRow kea c sid w₀ w.running r

/-- The daemon runs its previous configuration: the one that it ran when the call began, or the one
that the caller built the change from. -/
def PreviousRuns (c : Write H) (w₀ w : World H) : Prop :=
  Json.Same (.obj w.running) (.obj w₀.running) ∨
    ∃ b, c.beforeCfg = some b ∧ Json.Same (.obj w.running) (sectionOf (some b) c.service)

/-- A `config-set` comes after the record of a pending row. -/
def AfterRecord (history : List Mark) (m : Mark) : Prop :=
  (∃ sec, m = .sent sec) → ∃ id, .recorded id ∈ history

/-- What holds at every point of a call. -/
structure Traced (kea : Kea H) (c : Write H) (sid : ℤ) (w₀ w : World H) : Prop where
  known : (∃ sec, .sent sec ∈ w.log) → OnFile kea c sid w₀ w ∨ PreviousRuns c w₀ w
  ordered : Ordered AfterRecord w.log

/-- The call has recorded its row, and the row is pending. -/
structure InFlight (c : Write H) (sid : ℤ) (w₀ : World H) (id : ℕ) (w : World H) : Prop where
  row : ∃ r ∈ w.store.rows, r.id = id ∧ PendingRow c sid w₀ r
  recorded : ∃ id, .recorded id ∈ w.log
  ordered : Ordered AfterRecord w.log

theorem afterRecord_mono (before after : List Mark) (m : Mark) (h : AfterRecord before m) :
    AfterRecord (before ++ after) m :=
  fun hm => (h hm).imp fun _ hid => List.mem_append_left _ hid

/-- After a record, anything may happen. -/
theorem InFlight.ordered_of_prefix (h : InFlight c sid w₀ id w) {log : List Mark}
    (hlog : w.log <+: log) : Ordered AfterRecord log := by
  obtain ⟨more, rfl⟩ := hlog
  exact h.ordered.append_of_mono afterRecord_mono fun m _ _ => h.recorded

/-- The row stays as long as the store keeps what is pending. -/
theorem InFlight.mono {w' : World H} (h : InFlight c sid w₀ id w)
    (hrow : ∀ r, r.source = .pending → r ∈ w.store.rows → r ∈ w'.store.rows)
    (hlog : w.log <+: w'.log) : InFlight c sid w₀ id w' := by
  obtain ⟨r, hr, hid, hpending⟩ := h.row
  refine ⟨⟨r, hrow r hpending.source hr, hid, hpending⟩, ?_, h.ordered_of_prefix hlog⟩
  exact h.recorded.imp fun _ hid => hlog.subset hid

theorem InFlight.quiet {w' : World H} (h : InFlight c sid w₀ id w) (hq : QuietSince w w') :
    InFlight c sid w₀ id w' := by
  exact h.mono (fun r hp hr => (hq.pending r hp).mpr hr) (hq.log ▸ List.prefix_refl _)

/-- The store is the same. -/
theorem InFlight.of_store {w' : World H} (h : InFlight c sid w₀ id w)
    (hs : w'.store = w.store) (hlog : w.log <+: w'.log) : InFlight c sid w₀ id w' :=
  h.mono (fun _ _ hr => hs ▸ hr) hlog

theorem InFlight.traced (h : InFlight c sid w₀ id w) : Traced kea c sid w₀ w := by
  obtain ⟨_, hmem, -, hpending⟩ := h.row
  exact ⟨fun _ => .inl ⟨_, hmem, .inl hpending⟩, h.ordered⟩

/-- The daemon runs its previous configuration, or nothing was sent: the row may go. -/
structure Droppable (c : Write H) (w₀ w : World H) : Prop where
  previous : (∃ sec, .sent sec ∈ w.log) → PreviousRuns c w₀ w
  ordered : Ordered AfterRecord w.log

/-- Nothing was sent. -/
theorem Droppable.of_unsent (h : ∀ sec, Mark.sent sec ∉ w.log) : Droppable c w₀ w := by
  refine ⟨fun ⟨sec, hsec⟩ => absurd hsec (h sec), fun pre m post hlog ⟨sec, hm⟩ => ?_⟩
  exact absurd (by rw [hlog, hm]; simp) (h sec)

/-- A stretch without a set, from the start of a call on. -/
theorem SettledSince.unsent (h : SettledSince kea c.service w₀ w) (hw : w₀.log = []) (sec : Json) :
    Mark.sent sec ∉ w.log := by
  obtain ⟨more, hlog, hmore⟩ := h.log
  rw [hlog, hw, List.nil_append]
  intro hsec
  cases hmore _ hsec

theorem Droppable.traced (h : Droppable c w₀ w) : Traced kea c sid w₀ w :=
  ⟨fun hsent => .inr (h.previous hsent), h.ordered⟩

theorem SettledSince.traced (h : SettledSince kea c.service w₀ w) (hw : w₀.log = []) :
    Traced kea c sid w₀ w := (Droppable.of_unsent (h.unsent hw)).traced

theorem InFlight.droppable (h : InFlight c sid w₀ id w) (hprev : PreviousRuns c w₀ w) :
    Droppable c w₀ w := ⟨fun _ => hprev, h.ordered⟩

variable [DecidableEq H]

/-- Whatever the environment decides, every point of a program is traced. -/
abbrev Kea.Traces {α : Type} (kea : Kea H) (c : Write H) (sid : ℤ) (w₀ : World H) (p : ApiM H α)
    (w : World H) : Prop :=
  kea.Ensures (fun _ => True) (Traced kea c sid w₀) p (fun _ t => Traced kea c sid w₀ t) w

theorem dropped_traces (h : Droppable c w₀ w) (x : ApiResult H) :
    kea.Traces c sid w₀ (dropped (some id) x) w := by
  refine (Prog.wp_bind _ _ _).mpr ((Prog.wp_bind _ _ _).mpr
    (ask_ensures h.traced (fun _ => h.traced) fun d _ => ?_))
  have hdiscard : Droppable c w₀ (kea.does d w (.discard id)).2 := ⟨h.previous, h.ordered⟩
  exact ⟨hdiscard.traced, hdiscard.traced⟩

theorem droppedUnlessHands_traces (h : InFlight c sid w₀ id w) {x : ApiResult H}
    (hprev : x.needsHands = false → PreviousRuns c w₀ w) :
    kea.Traces c sid w₀ (droppedUnlessHands (some id) x) w := by
  unfold droppedUnlessHands
  cases hx : x.needsHands with
  | true => exact h.traced
  | false => exact dropped_traces (h.droppable (hprev hx)) x

/-- A quiet program is traced while the row is pending. -/
theorem quiet_traces {α : Type} {p : ApiM H α} (hp : Quiet p) (h : InFlight c sid w₀ id w) :
    kea.Traces c sid w₀ p w :=
  Prog.wp_weaken (fun _ ht => (h.quiet ht).traced)
    (Prog.wp_mono (fun _ _ ht => (h.quiet ht).traced) (quiet_ensures hp (QuietSince.refl w)))

/-! ## The row is finished -/

/-- A finished row stays under records of renderings of the same configuration. -/
structure Finished (kea : Kea H) (c : Write H) (sid : ℤ) (w₀ w : World H) : Prop where
  row : ∃ r ∈ w.store.rows, FinishedRow kea c sid w₀ w.running r
  nextId : w₀.store.nextId ≤ w.store.nextId
  ordered : Ordered AfterRecord w.log

omit [DecidableEq H] in
theorem Finished.traced (h : Finished kea c sid w₀ w) : Traced kea c sid w₀ w := by
  obtain ⟨r, hr, hfinished⟩ := h.row
  exact ⟨fun _ => .inl ⟨r, hr, .inr hfinished⟩, h.ordered⟩

/-- The operation is quiet, and what it records is what the daemon runs. -/
def ApiOp.recordsRunning (c : Write H) (sid : ℤ) (running : Cfg) : ApiOp H → Prop
  | .record e => e.isOf sid c.service = true ∧ e.settled = true ∧
      e.config = some (.obj (reported c.service running))
  | _ => False

theorem Finished.does {o : ApiOp H} (h : Finished kea c sid w₀ w)
    (ho : o.recordsRunning c sid w.running) (d : Fate H) :
    Finished kea c sid w₀ (kea.does d w o).2 ∧ (kea.does d w o).2.running = w.running := by
  cases o with
  | record e =>
    obtain ⟨hof, hset, hcfg⟩ := ho
    obtain ⟨r, hr, hfinished⟩ := h.row
    have hmark : recordMark e (d.record w.store e).1 = [] := by
      have hsource : e.source ≠ .pending := by
        intro heq
        simp [Entry.settled, heq] at hset
      unfold recordMark
      split
      · rw [if_neg hsource]
      · rfl
    refine ⟨⟨?_, h.nextId.trans nextId_le_record, ?_⟩, rfl⟩
    · rcases mem_record_or_newRow (d := d) (e := e) hr with hr | hnew
      · exact ⟨r, hr, hfinished⟩
      · exact ⟨_, hnew, h.nextId, hof, hset, hcfg, hfinished.live⟩
    · simpa only [Kea.does, hmark, List.append_nil] using h.ordered
  | _ => exact ho.elim

variable [ToString H]

omit [DecidableEq H] in
theorem noteRendering_records (hsid : c.server.id = some sid) {running : Cfg}
    {rawSha : Option H} {note : String} :
    (noteRendering c (reported c.service running) rawSha note).Within
      (ApiOp.recordsRunning c sid running) fun _ => True := by
  unfold noteRendering
  split
  · refine within_bind ?_ fun recorded => trivial
    unfold recordRenderingAfterWrite
    rw [hsid]
    dsimp only
    split_ifs
    · trivial
    · unfold recordRendering
      dsimp only
      split_ifs
      · trivial
      · refine within_ask_bind ⟨?_, ?_, rfl⟩ fun row => trivial
        · simp [renderingEntry, Entry.isOf]
        · simp [renderingEntry, Entry.settled]
  · trivial

theorem noteRendering_traces (hsid : c.server.id = some sid) (h : Finished kea c sid w₀ w)
    {rawSha : Option H} {note : String} :
    kea.Traces c sid w₀ (noteRendering c (reported c.service w.running) rawSha note) w := by
  have hkeep : kea.Ensures (fun _ => True)
      (fun t => Finished kea c sid w₀ t ∧ t.running = w.running)
      (noteRendering c (reported c.service w.running) rawSha note)
      (fun _ t => Finished kea c sid w₀ t ∧ t.running = w.running) w := by
    refine Prog.wp_mono (fun _ _ ht => ht.1) (within_ensures (noteRendering_records hsid)
      (fun o d t ho ht => ?_) ⟨h, rfl⟩)
    rw [← ht.2] at ho ⊢
    exact ht.1.does ho d
  exact Prog.wp_weaken (fun t ht => ht.1.traced) (Prog.wp_mono (fun _ t ht => ht.1.traced) hkeep)

/-! ## From the answer to the set on -/

omit [DecidableEq H] [ToString H] in
theorem InFlight.nextId (h : InFlight c sid w₀ id w) : w₀.store.nextId ≤ w.store.nextId := by
  obtain ⟨r, hr, -, hpending⟩ := h.row
  exact hpending.new.trans (w.store.fresh r hr).le

omit [DecidableEq H] [ToString H] in
/-- The row of a call that is finished with what the daemon runs. -/
theorem InFlight.finish (h : InFlight c sid w₀ id w) (hlive : Live kea c w.running) :
    Finished kea c sid w₀ (w.withStore (w.store.finish id c.purpose.source (some h1)
      (some (.obj (reported c.service w.running))))) := by
  obtain ⟨r, hr, rfl, hpending⟩ := h.row
  refine ⟨⟨_, Store.mem_update.mpr ⟨r, hr, if_pos (by simp)⟩, hpending.new, hpending.isOf, ?_, rfl,
    hlive⟩, h.nextId, h.ordered⟩
  have := purpose_settled c.purpose
  simp [Entry.settled, this]

omit [DecidableEq H] [ToString H] in
/-- The pending rows go, and a settled row stays. -/
theorem Finished.discardPending (h : Finished kea c sid w₀ w) (sid' : ℤ) :
    Finished kea c sid w₀ (w.withStore (w.store.discardPending sid' c.service)) := by
  obtain ⟨r, hr, hfinished⟩ := h.row
  refine ⟨⟨r, Store.mem_keepIf.mpr ⟨hr, ?_⟩, hfinished⟩, h.nextId, h.ordered⟩
  have hset := hfinished.settled
  simp only [Entry.settled, Bool.and_eq_true, bne_iff_ne] at hset
  simp [hset.1]

omit [ToString H] in
theorem finishPending_ensures (hsid : c.server.id = some sid) (h : InFlight c sid w₀ id w)
    (hlive : Live kea c w.running) :
    kea.Ensures (fun _ => True) (Traced kea c sid w₀)
      (finishPending c h1 (reported c.service w.running) (some id))
      (fun r t => (∃ e, r = .error e) ∧ Traced kea c sid w₀ t ∨
        t.running = w.running ∧ (InFlight c sid w₀ id t ∨ Finished kea c sid w₀ t)) w := by
  unfold finishPending
  rw [hsid]
  refine (Prog.wp_bind _ _ _).mpr (ask_ensures h.traced (fun e => .inl ⟨⟨e, rfl⟩, h.traced⟩)
    fun d _ => ?_)
  have hfinish : Finished kea c sid w₀ (w.withStore (w.store.finish id c.purpose.source
      (some h1) (some (.obj (reported c.service w.running))))) := h.finish hlive
  simp only [Kea.does, Fate.onRow]
  cases hst : d.stored with
  | failed =>
    -- nothing was done, and the store says so
    simpa [Stored.happens] using ⟨h.traced, .inl h⟩
  | unseen => simpa [Stored.happens] using ⟨hfinish.traced, .inr hfinish⟩
  | done =>
    simp only [Stored.happens, if_true, true_and]
    refine ⟨hfinish.traced, ?_⟩
    split_ifs
    · exact .inr ⟨rfl, .inr hfinish⟩
    · refine (Prog.wp_bind _ _ _).mpr (ask_ensures hfinish.traced
        (fun e => .inl ⟨⟨e, rfl⟩, hfinish.traced⟩) fun d _ => ?_)
      simp only [Kea.does]
      split_ifs
      · have hdiscard := hfinish.discardPending sid
        exact ⟨hdiscard.traced, .inr ⟨rfl, .inr hdiscard⟩⟩
      · exact ⟨hfinish.traced, .inr ⟨rfl, .inr hfinish⟩⟩

theorem applyFinish_traces (hsid : c.server.id = some sid) (h : InFlight c sid w₀ id w)
    (hlive : Live kea c w.running) {rawSha : Option H} {note : String} :
    kea.Traces c sid w₀
      (applyFinish c expect h1 (reported c.service w.running) (some id) rawSha note) w := by
  refine (Prog.wp_bind _ _ _).mpr (Prog.wp_mono ?_ (finishPending_ensures hsid h hlive))
  rintro (e | finished) w' (⟨⟨e', he⟩, hw'⟩ | ⟨hrun, hw'⟩)
  · exact hw'
  · exact hw'.elim (fun h => h.traced) fun h => h.traced
  · cases he
  · have hnote : kea.Traces c sid w₀
        (noteRendering c (reported c.service w.running) rawSha note) w' := by
      rcases hw' with hw' | hw'
      · -- the finish failed: the row is still pending
        exact quiet_traces noteRendering_quiet hw'
      · rw [← hrun]
        exact noteRendering_traces hsid hw'
    refine (Prog.wp_bind _ _ _).mpr (Prog.wp_mono ?_ hnote)
    rintro (e | note) t ht
    · exact ht
    · dsimp only
      split_ifs <;> exact ht

theorem applyVerify_traces (hsid : c.server.id = some sid) (h : InFlight c sid w₀ id w)
    (hlive : Live kea c w.running) {unwritten : String} :
    kea.Traces c sid w₀ (applyVerify c expect h1 planned (some id) unwritten) w := by
  refine (Prog.wp_bind _ _ _).mpr (get_ensures h.traced (fun _ => h.traced) (fun _ => h.traced) ?_)
  dsimp only
  split_ifs
  · exact h.traced
  · refine quiet_then fileReadBack_quiet (.refl w) (fun _ hq => (h.quiet hq).traced)
      (fun _ _ hq => (h.quiet hq).traced) fun read w' hq => ?_
    have hw' : InFlight c sid w₀ id w' := h.quiet hq
    split
    · exact hw'.traced
    · rw [← hq.running] at hlive ⊢
      exact applyFinish_traces hsid hw' hlive

/-- What the guards of a call establish about the configuration that it was built from: the caller
read it, or it is what the daemon ran; and `expect` is the digest of what the daemon ran. -/
structure BuiltFrom (kea : Kea H) (c : Write H) (before : Cfg) (expect : H) (w₀ : World H) :
    Prop where
  digest : kea.digest (.obj w₀.running) = expect
  before : c.beforeCfg = some before ∨ sectionOf (some before) c.service = .obj w₀.running

omit [DecidableEq H] [ToString H] in
theorem BuiltFrom.previous (g : BuiltFrom kea c before expect w₀)
    (h : kea.digest (.obj w.running) = expect ∨
      Json.Same (.obj w.running) (sectionOf (some before) c.service)) : PreviousRuns c w₀ w := by
  rcases h with h | h
  · exact .inl (kea.digest_inj (h.trans g.digest.symm))
  · rcases g.before with hb | hb
    · exact .inr ⟨before, hb, h⟩
    · exact .inl (hb ▸ h)

/-- A refused `config-write`: whatever the undo comes to, the row is there or may go. -/
theorem applyRefused_traces (g : BuiltFrom kea c before expect w₀) (h : InFlight c sid w₀ id w)
    (sent : Sent H) :
    kea.Traces c sid w₀ (applyRefused c before expect h1 (some id) sent) w := by
  have hstay : ∀ w' : World H, w'.store = w.store → w.log <+: w'.log → Traced kea c sid w₀ w' :=
    fun w' hs hl => (h.of_store hs hl).traced
  unfold applyRefused
  refine (Prog.wp_bind _ _ _).mpr (ask_ensures h.traced (fun _ => h.traced)
    fun d _ => ⟨h.traced, ?_⟩)
  refine (Prog.wp_bind _ _ _).mpr (undo_ensures hstay (fun _ => hstay) (fun w' hs hl => ?_)
    fun w' hs hl hback => ?_)
  · simpa using hstay w' hs hl
  · cases hmaybe : sent.maybe with
    | true => simpa [hmaybe] using hstay w' hs hl
    | false =>
      have hdrop := (h.of_store hs hl).droppable (g.previous hback)
      simpa [hmaybe] using dropped_traces hdrop _

theorem applyFile_traces (hsid : c.server.id = some sid) (g : BuiltFrom kea c before expect w₀)
    (h : InFlight c sid w₀ id w) (hlive : Live kea c w.running) :
    kea.Traces c sid w₀ (applyFile c before expect h1 planned (some id)) w := by
  have hwrite : ∀ w' : World H, InFlight c sid w₀ id w' → Live kea c w'.running →
      kea.Traces c sid w₀ (applyWrite c before expect h1 planned (some id)) w' := by
    intro w' h hlive
    have hwrote : ∀ n, InFlight c sid w₀ id (kea.wrote c.service w' n) := fun n =>
      h.of_store rfl (List.prefix_append _ _)
    refine (Prog.wp_bind _ _ _).mpr (sendWrite_ensures writeAttempts rfl
      (fun n => (hwrote n).traced) (fun _ n => (hwrote n).traced) fun sent n _ => ?_)
    have hw'' := hwrote n
    dsimp only
    split_ifs
    · exact applyVerify_traces hsid hw'' hlive
    · exact applyRefused_traces g hw'' sent
    · exact applyVerify_traces hsid hw'' hlive
  unfold applyFile
  split_ifs
  · refine quiet_then askTheFile_quiet (.refl w) (fun _ hq => (h.quiet hq).traced)
      (fun _ _ hq => (h.quiet hq).traced) fun asked w' hq => ?_
    have hw' : InFlight c sid w₀ id w' := h.quiet hq
    split
    · exact hw'.traced
    · exact hwrite w' hw' (hq.running.symm ▸ hlive)
  · exact hwrite w h hlive

/-! ## The set -/

theorem afterASetFailure_traces (g : BuiltFrom kea c before expect w₀)
    (h : InFlight c sid w₀ id w) (reply : Reply H) :
    kea.Traces c sid w₀ (afterASetFailure c.server c.service expect reply >>=
      droppedUnlessHands (some id)) w := by
  refine (Prog.wp_bind _ _ _).mpr ((Prog.wp_bind _ _ _).mpr
    (hashOf_ensures h.traced (fun _ => h.traced) ?_ ?_))
  · exact droppedUnlessHands_traces h nofun
  · dsimp only
    split_ifs with hexpect
    · exact droppedUnlessHands_traces h fun _ => g.previous (.inl hexpect)
    · exact droppedUnlessHands_traces h nofun

theorem afterASetWithoutAnAnswer_traces (hsid : c.server.id = some sid)
    (g : BuiltFrom kea c before expect w₀) (h : InFlight c sid w₀ id w) :
    kea.Traces c sid w₀ (afterASetWithoutAnAnswer c.server c.service c.cfg before expect >>=
      applyAsked c before expect planned (some id)) w := by
  refine (Prog.wp_bind _ _ _).mpr ((Prog.wp_bind _ _ _).mpr
    (get_ensures h.traced (fun _ => h.traced) (fun why => ?_) ?_))
  · exact droppedUnlessHands_traces h (by rintro ⟨⟩)
  · dsimp only
    split_ifs with hsame hcarries
    · refine droppedUnlessHands_traces h fun _ => g.previous (.inr ?_)
      simpa [sameSection, sectionOf_reported] using hsame
    · rw [sectionOf_reported] at hcarries
      exact applyFile_traces hsid g h (.inr hcarries)
    · exact droppedUnlessHands_traces h (by rintro ⟨⟩)

theorem applySet_traces (hsid : c.server.id = some sid) (g : BuiltFrom kea c before expect w₀)
    (h : InFlight c sid w₀ id w) :
    kea.Traces c sid w₀ (applySet c before expect planned (some id)) w := by
  unfold applySet
  refine (Prog.wp_bind _ _ _).mpr ((Prog.wp_ofExcept _ _).mpr ?_)
  cases hb : body c.cfg c.service with
  | error e => exact h.traced
  | ok b =>
    obtain ⟨sec, hcfg, hsec⟩ := body_ok hb
    have htook : InFlight c sid w₀ id (kea.took w sec) := h.of_store rfl (List.prefix_append _ _)
    have hmissed : InFlight c sid w₀ id (w.missed sec) := h.of_store rfl (List.prefix_append _ _)
    have hunknown : ∀ (reply : Reply H) (w' : World H), reply.answered = false →
        InFlight c sid w₀ id w' →
        kea.Traces c sid w₀ (applyReplied c before expect planned (some id) reply) w' := by
      intro reply w' ha hw'
      have hok : reply.isOk = false := by cases reply <;> simp_all [Reply.isOk, Reply.answered]
      simpa [applyReplied, ha, hok] using afterASetWithoutAnAnswer_traces hsid g hw'
    refine (Prog.wp_bind _ _ _).mpr (configSet_ensures hsec h.traced (fun _ => h.traced)
      htook.traced hmissed.traced (fun reply hok _ => ?_) (fun reply ha => hunknown reply _ ha htook)
      (fun reply ha => hunknown reply _ ha hmissed) fun reply ha hok => ?_)
    · dsimp only
      unfold applyReplied
      rw [if_pos hok]
      refine quiet_then setDigest_quiet (.refl _) (fun _ hq => (htook.quiet hq).traced)
        (fun _ _ hq => (htook.quiet hq).traced) fun digest w' hq => ?_
      cases digest with
      | none => exact (htook.quiet hq).traced
      | some h1 =>
        refine applyFile_traces hsid g (htook.quiet hq) (.inl ⟨sec, hcfg, ?_⟩)
        exact hq.running
    · simpa [applyReplied, ha, hok] using afterASetFailure_traces g hmissed reply

/-! ## Up to the set -/

theorem applyCompared_traces (hsid : c.server.id = some sid)
    (hbefore : kea.digest (.obj w₀.running) = expect → BuiltFrom kea c before expect w₀)
    (h : InFlight c sid w₀ id w) (hnothing : Droppable c w₀ w)
    (hrunning : w.running = w₀.running) :
    kea.Traces c sid w₀ (applyCompared c before expect planned (some id)) w := by
  refine (Prog.wp_bind _ _ _).mpr (hashOf_ensures h.traced (fun _ => h.traced) ?_ ?_)
  · exact dropped_traces hnothing _
  · dsimp only
    split_ifs with hexpect
    · exact dropped_traces hnothing _
    · rw [not_not, hrunning] at hexpect
      exact applySet_traces hsid (hbefore hexpect) h

/-- The record: without it the call ends, and with it the row is in flight. -/
theorem applyRecorded_traces (hsid : c.server.id = some sid)
    (hbefore : kea.digest (.obj w₀.running) = expect → BuiltFrom kea c before expect w₀)
    (hw : w₀.log = []) (h : SettledSince kea c.service w₀ w) :
    kea.Traces c sid w₀ (applyRecorded c before expect planned rowSha) w := by
  unfold applyRecorded
  rw [hsid]
  dsimp only
  refine (Prog.wp_bind _ _ _).mpr ((Prog.wp_handle _ _ _).mpr
    (ask_ensures (h.traced hw) (fun _ => h.traced hw) fun d _ => ?_))
  set e := pendingEntry c sid expect rowSha with he
  have hsource : e.source = .pending := rfl
  simp only [Kea.does]
  cases hid : (d.record w.store e).1 with
  | none =>
    have hdrop : Droppable c w₀ ⟨w.running, w.file, (d.record w.store e).2, w.log ++ []⟩ :=
      .of_unsent fun sec hsec => by
        rw [List.append_nil] at hsec
        exact h.unsent hw sec hsec
    exact ⟨hdrop.traced, hdrop.traced⟩
  | some id =>
    have hmark : recordMark e (some id) = [.recorded id] := by simp [recordMark, hsource]
    rw [hmark]
    have hdrop : Droppable c w₀
        ⟨w.running, w.file, (d.record w.store e).2, w.log ++ [.recorded id]⟩ :=
      .of_unsent fun sec hsec => by
        rcases List.mem_append.mp hsec with hsec | hsec
        · exact h.unsent hw sec hsec
        · cases List.mem_singleton.mp hsec
    have hnew := newRow_mem hid (by simp [Entry.settled, hsource])
    have hflight : InFlight c sid w₀ id
        ⟨w.running, w.file, (d.record w.store e).2, w.log ++ [.recorded id]⟩ := by
      refine ⟨⟨_, hnew, (record_fst hid).1.symm, h.nextId, ?_, hsource, rfl⟩, ⟨id, by simp⟩,
        hdrop.ordered⟩
      simp [newRow, Entry.isOf, he, pendingEntry]
    exact ⟨hdrop.traced, applyCompared_traces hsid hbefore hflight hdrop h.running⟩

theorem apply_traces (hsid : c.server.id = some sid) (hw : w.log = []) :
    kea.Traces c sid w (apply c) w := by
  refine apply_ensures (fun t h => h.traced hw) (fun _ t h _ => h.traced hw)
    fun expect planned rowSha t h => applyRecorded_traces hsid (fun hrun => ⟨hrun, ?_⟩) hw h.settled
  cases hb : c.beforeCfg with
  | none => exact .inr (sectionOf_builtFrom hb)
  | some b => exact .inl (by rw [builtFrom_eq hb])

/-- The record of a change outlives every crash: at every point of a call for a server with an id,
and at its end, a candidate that was sent is on file, pending or finished, unless the daemon runs its
previous configuration; and a `config-set` is sent only after the pending row was recorded. -/
theorem apply_on_record (kea : Kea H) (c : Write H) (sid : ℤ) (running : Cfg)
    (file : Option (Cfg × H)) (store : Store H) (fates : ℕ → Fate H)
    (hsid : c.server.id = some sid) :
    let start : World H := ⟨running, file, store, []⟩
    ∀ w ∈ start :: (apply c).visits kea.host fates start, Traced kea c sid start w := by
  intro start w hw
  rcases List.mem_cons.mp hw with rfl | hw
  · exact (SettledSince.refl _).traced rfl
  · exact (Prog.wp_under_sound (apply_traces hsid rfl) fates fun _ => trivial).2 w hw

/-- A change of the empty section to one with a lease time. -/
def leaseTime : Write ExactDigest where
  server := { id := some 1, name := "kea1" }
  service := .dhcp4
  cfg := [("Dhcp4", .obj [("valid-lifetime", .int 3600)])]
  expectHash := none
  summary := "a lease time"

/-- At the tenth call, the set, the daemon takes the change and the reply is lost. -/
def lostSet (n : ℕ) : Fate ExactDigest := { behaviour := if n = 9 then .lost else .answered }

/-- The state at the end of that call. -/
def lostSetEnd : World ExactDigest :=
  ((apply leaseTime).run Kea.exact.host lostSet ⟨[], none, .empty, []⟩).state

theorem apply_on_record_leaseTime :
    Mark.set (.obj [("valid-lifetime", .int 3600)]) ∈ lostSetEnd.log ∧
      Traced Kea.exact leaseTime 1 ⟨[], none, .empty, []⟩ lostSetEnd :=
  ⟨by decide, apply_on_record Kea.exact leaseTime 1 [] none .empty lostSet rfl _
    (Prog.run_state_mem_visits _ _ _ _)⟩

end JenKea.Api
