import JenKea.Api.OkResult
import JenKea.Api.Possible

/-!
# A set that was lost

When `config-set` gets no answer, `apply` asks the daemon what it runs: the configuration from
before, or one that carries the candidate. The first question compares with the configuration that
the caller gave. A rollback gives the one that Jen wrote, and the daemon runs Kea's rendering of it,
which has more in it; so the first question says no, and the second says yes to a candidate that
only takes away. This file proves that in every such call a set that was lost can end in ok.
-/

namespace JenKea.Api

variable {H : Type} [DecidableEq H] [ToString H] {kea : Kea H} {c : Write H} {before : Cfg}
  {expect h1 : H} {planned rowSha : Option H} {pendingId : Option ℕ} {running : Cfg} {w : World H}
  {key : String}

/-! ## The calls that slip -/

/-- Some run gives an ok result, and in it no `config-set` was executed. -/
def OkUnset (r : Except Exc (ApiResult H)) (w : World H) : Prop :=
  ∃ x, r = .ok x ∧ x.ok = true ∧ ∀ sec, .set sec ∉ w.log

/-- The environment can decide so that the program is ok although no set was executed. -/
abbrev Kea.MaySlip (kea : Kea H) (p : ApiM H (ApiResult H)) (w : World H) : Prop :=
  kea.May (fun _ => True) p OkUnset w

/-- The daemon runs what it ran, and its file is one that is proved. -/
structure Sending (c : Write H) (running : Cfg) (w : World H) : Prop where
  running : w.running = running
  provable : Provable c.server c.service w
  unset : ∀ sec, .set sec ∉ w.log

/-- The call has its row. -/
def HasRow (pendingId : Option ℕ) (w : World H) : Prop :=
  ∀ id, pendingId = some id → hasRow w.store fun r => r.id == id

omit [DecidableEq H] [ToString H] in
theorem HasRow.add {e : Entry H} {log : List Mark} :
    HasRow (some w.store.nextId) { w with store := w.store.add e, log := log } := by
  rintro _ ⟨⟩
  simp [hasRow, Store.newest, Store.add]

omit [DecidableEq H] [ToString H] in
/-- Every decision is allowed. -/
theorem letsRead_true : LetsRead fun _ : Fate H => True := fun _ _ => trivial

omit [ToString H] in
theorem finishPending_may {A : Fate H → Prop} (hA : LetsRead A) {got : Cfg}
    (hrow : HasRow pendingId w) {P : World H → Prop} (hP : ∀ s, P w → P (w.withStore s))
    (h : P w) : kea.May A (finishPending c h1 got pendingId) (fun r t => r = .ok true ∧ P t) w := by
  unfold finishPending
  split
  · next id sid _ =>
    refine (Prog.may_bind _ _ _).mpr (ask_may {} (hA _ rfl) rfl ?_)
    have hid := hrow id rfl
    simp only [Kea.does, Fate.onRow, hid]
    exact (Prog.may_bind _ _ _).mpr (ask_may {} (hA _ rfl) rfl ⟨rfl, hP _ h⟩)
  · exact ⟨rfl, h⟩

theorem applyVerify_may (hkey : serviceKey c.service = some key)
    (hdigest : kea.digest (.obj w.running) = h1) (hrow : HasRow pendingId w)
    (hset : ∀ sec, .set sec ∉ w.log) :
    kea.MaySlip (applyVerify c expect h1 planned pendingId "") w := by
  refine (Prog.may_bind _ _ _).mpr (get_may letsRead_true hkey ?_)
  dsimp only
  rw [if_neg (not_not.mpr hdigest)]
  have hfinish : ∀ note, kea.MaySlip (applyFinish c expect h1 (reported c.service w.running)
      pendingId none note) w := by
    intro note
    refine (Prog.may_bind _ _ _).mpr (Prog.may_mono ?_
      (finishPending_may letsRead_true hrow (P := fun t => ∀ sec, Mark.set sec ∉ t.log)
        (fun _ h => h) hset))
    rintro r t ⟨rfl, ht⟩
    exact ⟨_, rfl, rfl, ht⟩
  -- a file that cannot be read back leaves a note
  unfold fileReadBack
  refine (Prog.may_bind _ _ _).mpr ?_
  by_cases hssh : c.server.hasSsh
  · rw [if_pos hssh]
    exact (Prog.may_bind _ _ _).mpr
      (ask_may { fileReadable := false } trivial rfl (hfinish _))
  · rw [if_neg hssh, if_neg (not_not.mpr rfl)]
    exact hfinish ""

theorem applyFile_may (hkey : serviceKey c.service = some key) (h : Sending c running w)
    (hdigest : kea.digest (.obj running) = h1) (hrow : HasRow pendingId w) :
    kea.MaySlip (applyFile c before expect h1 planned pendingId) w := by
  have hwrite : kea.MaySlip (applyWrite c before expect h1 planned pendingId) w := by
    have hset : ∀ sec, .set sec ∉ w.log ++ [Mark.wrote] := by simpa using h.unset
    refine (Prog.may_bind _ _ _).mpr ((Prog.may_bind _ _ _).mpr (ask_may {} trivial rfl ?_))
    exact applyVerify_may hkey (h.running ▸ hdigest) hrow hset
  unfold applyFile
  split_ifs
  · exact (Prog.may_bind _ _ _).mpr
      (askTheFile_may letsRead_true hkey (fun _ => h.provable) fun _ => hwrite)
  · exact hwrite

/-- The question that follows a set without an answer: the daemon runs what it ran, which is not what
the caller gave, and carries the candidate. -/
theorem afterASetWithoutAnAnswer_may {A : Fate H → Prop} (hA : LetsRead A)
    (hkey : serviceKey c.service = some key)
    (hdiffers : ¬ Json.Same (.obj w.running) (sectionOf (some before) c.service))
    (hcarried : carries (.obj w.running) (sectionOf (some c.cfg) c.service) = true)
    {Q : Except Exc (ApiResult H) → World H → Prop}
    (h : kea.May A (applyFile c before expect (kea.digest (.obj w.running)) planned pendingId)
      Q w) :
    kea.May A (afterASetWithoutAnAnswer c.server c.service c.cfg before expect >>=
      applyAsked c before expect planned pendingId) Q w := by
  refine (Prog.may_bind _ _ _).mpr ((Prog.may_bind _ _ _).mpr (get_may hA hkey ?_))
  have hother : sameSection c.service (reported c.service w.running) before = false := by
    rw [sameSection, sectionOf_reported]
    exact decide_eq_false hdiffers
  dsimp only
  rw [hother, sectionOf_reported, if_neg (by decide), if_pos hcarried]
  exact h

/-- A set that is neither executed nor answered. -/
theorem applySet_silent_may {A : Fate H → Prop} (hA : LetsRead A)
    (hkey : serviceKey c.service = some key) {sec : Json}
    (hsec : Json.lookup key c.cfg = some sec) {Q : Except Exc (ApiResult H) → World H → Prop}
    (h : kea.May A (afterASetWithoutAnAnswer c.server c.service c.cfg before expect >>=
      applyAsked c before expect planned pendingId) Q (w.missed sec)) :
    kea.May A (applySet c before expect planned pendingId) Q w := by
  have hbody : body c.cfg c.service = .ok [(key, sec)] := by simp [body, hkey, hsec]
  unfold applySet
  rw [hbody]
  refine (Prog.may_bind _ _ _).mpr ((Prog.may_ofExcept _ _).mpr ?_)
  refine (Prog.may_bind _ _ _).mpr (ask_may { behaviour := .silent } (hA _ rfl) rfl ?_)
  have hafter : kea.after w c.service false (.configSet [(key, sec)]) = w.missed sec := by
    simp [Kea.after, World.missed, hkey, Json.lookup]
  simp only [Kea.does, Behaviour.executed, hafter, Kea.reply]
  simpa [applyReplied, Reply.isOk, Reply.answered] using h

/-- A call that slips can end in ok with its set lost, from any world with a file that is proved and
no change pending. -/
theorem apply_maySlip (hslips : Slips kea c running) (h : Sending c running w)
    (hidle : Idle c.server c.service w) : kea.MaySlip (apply c) w := by
  obtain rfl := h.running
  obtain ⟨key, hkey⟩ := Option.isSome_iff_exists.mp hslips.sends.served
  obtain ⟨b, hb, hdiffers⟩ := hslips.before
  obtain ⟨sec, hsec⟩ := Option.isSome_iff_exists.mp hslips.section_
  rw [hkey, Option.getD_some] at hsec
  have hset : ∀ planned pendingId t, Sending c w.running t → HasRow pendingId t →
      kea.MaySlip (applySet c (builtFrom c w.running) (kea.digest (.obj w.running)) planned
        pendingId) t := by
    intro planned pendingId t ht hrow
    have hmissed : Sending c w.running (t.missed sec) :=
      ⟨ht.running, ⟨ht.provable.file⟩, by simpa [World.missed] using ht.unset⟩
    have hrun : (t.missed sec).running = w.running := ht.running
    refine applySet_silent_may letsRead_true hkey hsec
      (afterASetWithoutAnAnswer_may letsRead_true hkey ?_ ?_ ?_)
    · rw [hrun, builtFrom_eq hb]
      exact hdiffers
    · rw [hrun]
      exact hslips.carried
    · exact applyFile_may hkey hmissed (by rw [hrun]) hrow
  refine apply_may letsRead_true hslips.sends ?_
  refine blockedBy_may letsRead_true hidle ⟨rfl, ?_⟩
  refine plannedOf_may letsRead_true hkey (fun _ => h.provable) fun planned => ⟨planned, rfl, ?_⟩
  refine fun rowSha => applyRecorded_may letsRead_true hkey rfl hidle (fun _ => ?_)
    fun sid _ e he => ?_
  · exact hset planned none w h (by rintro _ ⟨⟩)
  · exact hset planned _ _ ⟨rfl, h.provable.add he, by simpa using h.unset⟩ HasRow.add

/-! ## Exactly when a lost set is never ok -/

/-- A world in which the file on the host is Jen's own rendering, with an empty log. -/
def provedWorld (c : Write H) (running : Cfg) (sha : H) : World H where
  running := running
  file := some ([], sha)
  store := match c.server.id with
    | some sid => Store.empty.add (renderingEntry sid c.service "" [] sha)
    | none => Store.empty

omit [DecidableEq H] [ToString H] in
theorem provedWorld_provable (sha : H) :
    Provable c.server c.service (provedWorld c running sha) := by
  refine ⟨([], sha), rfl, fun sid hid => ⟨⟨renderingEntry sid c.service "" [] sha, 1⟩, ?_, rfl⟩,
    fun _ => rfl⟩
  simp [provedWorld, hid, Store.latestRendering, Store.newest, Store.add, Store.empty,
    Entry.isRendering, Entry.isOf, renderingEntry]

omit [DecidableEq H] [ToString H] in
theorem provedWorld_idle (sha : H) : Idle c.server c.service (provedWorld c running sha) := by
  intro sid hid
  simp [provedWorld, hid, Store.pending, Store.newest, Store.add, Store.empty, Entry.isOf,
    renderingEntry]

/-- Every ok result of `apply`, whatever file and rows it found, comes from a daemon that executed a
set of the candidate and runs its rendering, exactly when the call does not slip. -/
theorem apply_ok_took_iff (running : Cfg) :
    (∀ file store fates x,
      ((apply c).run kea.host fates ⟨running, file, store, []⟩).result = .ok x → x.ok = true →
        Took kea c ((apply c).run kea.host fates ⟨running, file, store, []⟩).state) ↔
      ¬ Slips kea c running := by
  constructor
  · intro htook hslips
    have sha : H := kea.digest (.obj running)
    have hmay : kea.MaySlip (apply c) (provedWorld c running sha) :=
      apply_maySlip hslips ⟨rfl, provedWorld_provable sha, by simp [provedWorld]⟩
        (provedWorld_idle sha)
    obtain ⟨fates, -, x, hx, hok, hunset⟩ := Prog.may_under_sound trivial hmay
    obtain ⟨sec, -, hset, -⟩ := htook _ _ fates x hx hok
    exact hunset sec hset
  · intro hslips file store fates x hx hok
    have hgives : kea.OkGives _ (apply c) ⟨running, file, store, []⟩ := apply_accepts
    obtain ⟨_, _, -, -, haccepted⟩ :=
      (Prog.wp_under_sound hgives fates fun _ => trivial).1 x hx hok
    exact haccepted.set.resolve_right fun h => hslips h.1

/-! ## A rollback that was lost -/

/-- A daemon that writes a default of its own out. -/
def teeTimes : Kea ExactDigest := .adding [("calculate-tee-times", .bool false)]

/-- What the daemon ran before the change. -/
def shortLease : Cfg := [("valid-lifetime", .int 3600)]

/-- What the change sent: a timer more. -/
def withTimer : Cfg := [("valid-lifetime", .int 3600), ("renew-timer", .int 900)]

/-- What the daemon runs after the change. -/
def timerRunning : World ExactDigest := ⟨teeTimes.render (.obj withTimer), none, .empty, []⟩

/-- The rollback of the change, with the configuration that the change sent as the one before it. -/
def timerBack : ApiM ExactDigest (ApiResult ExactDigest) :=
  revert { id := some 1, name := "kea1" } .dhcp4 [("Dhcp4", .obj shortLease)]
    (some (teeTimes.digest (.obj timerRunning.running))) "a rollback"
    (some [("Dhcp4", .obj withTimer)])

/-- The eighth call is the set: the daemon neither executes nor answers it. -/
def lostBack (n : ℕ) : Fate ExactDigest := { behaviour := if n = 7 then .silent else .answered }

/-- The rollback is ok, no set was executed, and the daemon runs the change. -/
theorem revert_ok_lostSet :
    let done := timerBack.run teeTimes.host lostBack timerRunning
    (∃ x, done.result = .ok x ∧ x.ok = true) ∧
      done.state.log = [.recorded 1, .sent (.obj shortLease), .wrote] ∧
      done.state.running = teeTimes.render (.obj withTimer) ∧
      teeTimes.render (.obj withTimer) ≠ teeTimes.render (.obj shortLease) := by
  refine ⟨⟨_, rfl, rfl⟩, rfl, rfl, by decide⟩

end JenKea.Api
