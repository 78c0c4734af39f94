import JenKea.Api.LostSet

/-!
# A write that was lost

When no `config-write` is answered, `apply` reads the file back, and goes on when what the daemon
runs carries it and it is not the file that the call rests on. A change that only adds leaves the old
file carried, and a rollback rests on no file; so the old file passes for the written one. This file
says which calls can end in ok with the old file in place, and that no others can.
-/

namespace JenKea.Api

variable {H : Type} {kea : Kea H} {c : Write H} {before : Cfg} {expect h1 : H}
  {planned rowSha : Option H} {pendingId : Option ℕ} {running : Cfg} {file f : Cfg × H}
  {w : World H} {key : String}

/-- The call rests on another file, or it is a rollback without a Plan, which rests on none. -/
def Unplanned (c : Write H) (sha : H) : Prop :=
  c.plannedSha ≠ some sha ∧ (c.plannedSha = none → c.purpose = .rollback)

/-- The file that a call may find when it sends its set: the one that was there, or the one that was
written to settle an earlier change. -/
def MayFind (kea : Kea H) (c : Write H) (running : Cfg) (file f : Cfg × H) : Prop :=
  f = file ∨ CanSettle c running ∧ f = (reported c.service running, kea.fileDigest running)

/-- The calls that take the old file for the written one: the daemon carries it after the set, or
after a set that was lost and taken for an executed one, and the call does not rest on it. -/
structure Unwritten (kea : Kea H) (c : Write H) (running : Cfg) (file : Cfg × H) : Prop where
  sends : Sends kea c running
  ssh : c.server.hasSsh = true
  carried : ∃ f, MayFind kea c running file f ∧ Unplanned c f.2 ∧
    ((∃ sec, Json.lookup ((serviceKey c.service).getD "") c.cfg = some sec ∧
        carries (.obj (kea.render sec)) (sectionOf (some f.1) c.service) = true) ∨
      Slips kea c running ∧ carries (.obj running) (sectionOf (some f.1) c.service) = true)

theorem RestsOn.unplanned (h : RestsOn c (some f) planned) (hne : planned ≠ some f.2)
    (hssh : c.server.hasSsh = true) : Unplanned c f.2 := by
  rcases h with ⟨rfl, hnone⟩ | ⟨f', hf', hplanned⟩
  · exact ⟨hne, fun h => (hnone h).resolve_right (by simp [hssh])⟩
  · obtain rfl := Option.some.inj hf'
    exact absurd hplanned hne

/-- An accepted result comes with a written file, unless the call is one of these. -/
theorem Accepted.written {found : Option (Cfg × H)} (h : Accepted kea c running found planned w)
    (hfound : FoundFile kea c running (some file) found) (hrests : RestsOn c found planned)
    (hnot : ¬ Unwritten kea c running file) : Written kea c w := by
  refine h.write.resolve_right fun ⟨hssh, f, hf, hcarries, hne⟩ => hnot ⟨h.sends, hssh, f, ?_, ?_, ?_⟩
  · rw [hf] at hfound
    exact hfound.imp Option.some.inj fun h => ⟨h.1, Option.some.inj h.2⟩
  · rw [hf] at hrests
    exact hrests.unplanned hne hssh
  · rcases h.set with ⟨sec, hsec, -, hrun⟩ | ⟨hslips, hrun⟩
    · exact .inl ⟨sec, hsec, hrun ▸ hcarries⟩
    · exact .inr ⟨hslips, hrun ▸ hcarries⟩

/-! ## From the file on -/

/-- No `config-write` was executed after a set was sent. -/
def NotWritten (w : World H) : Prop := ∀ sec, ¬ [Mark.sent sec, .wrote].Sublist w.log

/-- The file can be read. -/
abbrev Readable (d : Fate H) : Prop := d.fileReadable = true

theorem letsRead_readable : LetsRead fun d : Fate H => Readable d := fun _ h => h

/-- Marks that are no `config-write` change nothing. -/
theorem NotWritten.append (log : List Mark) {t : World H} (ht : t.log = w.log ++ log)
    (hlog : .wrote ∉ log) (h : ∀ sec, .sent sec ∉ w.log) : NotWritten t := by
  intro sec hsub
  rw [ht] at hsub
  obtain ⟨l₁, l₂, heq, h₁, h₂⟩ := List.sublist_append_iff.mp hsub
  cases l₂ with
  | nil =>
    rw [List.append_nil] at heq
    rw [← heq] at h₁
    exact h sec (h₁.subset (by simp))
  | cons m l₂ =>
    -- the last mark is the write
    have hlast : .wrote ∈ m :: l₂ := by
      have hmem : (m :: l₂).getLast (by simp) = Mark.wrote := by
        have hl := congrArg List.getLast? heq
        simp only [List.getLast?_append, List.getLast?_cons_cons, List.getLast?_singleton] at hl
        rw [List.getLast?_eq_some_getLast (by simp : m :: l₂ ≠ []), Option.some_or] at hl
        exact (Option.some.inj hl).symm
      exact hmem ▸ List.getLast_mem _
    exact hlog (h₂.subset hlast)

variable [DecidableEq H] [ToString H]

/-- Some run gives an ok result, and in it no `config-write` was executed after the set. -/
def OkUnwritten (r : Except Exc (ApiResult H)) (w : World H) : Prop :=
  ∃ x, r = .ok x ∧ x.ok = true ∧ NotWritten w

/-- The environment can decide, with a file that can be read, so that the program is ok although no
`config-write` was executed after the set. -/
abbrev Kea.MayKeep (kea : Kea H) (p : ApiM H (ApiResult H)) (w : World H) : Prop :=
  kea.May Readable p OkUnwritten w

theorem noteRendering_may {got : Cfg} {rawSha : Option H} {note : String} (h : NotWritten w) :
    kea.May Readable (noteRendering c got rawSha note)
      (fun r t => (∃ note, r = .ok note) ∧ NotWritten t) w := by
  unfold noteRendering
  split
  · next raw sid hid =>
    have hrecorded : kea.May Readable (recordRenderingAfterWrite c.server c.service
        (Text.orElse c.summary s!"{c.purpose.source.toText} {c.service}") (some (got, raw)))
        (fun r t => (∃ b, r = .ok b) ∧ NotWritten t) w := by
      unfold recordRenderingAfterWrite
      rw [hid]
      dsimp only
      split_ifs
      · exact ⟨⟨_, rfl⟩, h⟩
      · unfold recordRendering
        dsimp only
        split_ifs
        · exact ⟨⟨_, rfl⟩, h⟩
        · refine (Prog.may_bind _ _ _).mpr (ask_may {} rfl rfl ⟨⟨_, rfl⟩, ?_⟩)
          have hmark : ∀ id, recordMark (renderingEntry sid c.service
              (Text.orElse c.summary s!"{c.purpose.source.toText} {c.service}") got raw) id =
              ([] : List Mark) := by
            intro id
            cases id <;> simp [recordMark, renderingEntry]
          simpa [Kea.does, NotWritten, hmark] using h
    refine (Prog.may_bind _ _ _).mpr (Prog.may_mono ?_ hrecorded)
    rintro _ t ⟨⟨b, rfl⟩, ht⟩
    exact ⟨⟨_, rfl⟩, ht⟩
  · exact ⟨⟨_, rfl⟩, h⟩

/-- The file is read back, carried, and not the one that the call rests on. -/
theorem applyVerify_mayKeep (hkey : serviceKey c.service = some key)
    (hdigest : kea.digest (.obj w.running) = h1) (hrow : HasRow pendingId w)
    (hssh : c.server.hasSsh = true) (hfile : w.file = some f)
    (hcarried : carries (.obj w.running) (sectionOf (some f.1) c.service) = true)
    (hplanned : planned ≠ some f.2) (h : NotWritten w) {unwritten : String} :
    kea.MayKeep (applyVerify c expect h1 planned pendingId unwritten) w := by
  refine (Prog.may_bind _ _ _).mpr (get_may letsRead_readable hkey ?_)
  dsimp only
  rw [if_neg (not_not.mpr hdigest)]
  have hfinish : kea.MayKeep (applyFinish c expect h1 (reported c.service w.running) pendingId
      (some f.2) "") w := by
    refine (Prog.may_bind _ _ _).mpr (Prog.may_mono ?_
      (finishPending_may letsRead_readable hrow (P := NotWritten) (fun _ h => h) h))
    rintro _ t ⟨rfl, ht⟩
    refine (Prog.may_bind _ _ _).mpr (Prog.may_mono ?_ (noteRendering_may ht))
    rintro _ u ⟨⟨note, rfl⟩, hu⟩
    exact ⟨_, rfl, rfl, hu⟩
  have hindaemon : fileInDaemon (some f.1) (some (reported c.service w.running)) c.service = true := by
    rw [fileInDaemon, sectionOf_reported]
    exact hcarried
  unfold fileReadBack
  rw [if_pos hssh]
  refine (Prog.may_bind _ _ _).mpr ((Prog.may_bind _ _ _).mpr (ask_may {} rfl rfl ?_))
  simp only [Kea.does, if_true, hfile]
  rw [if_neg (by simp [hindaemon, hplanned])]
  exact hfinish

/-- Every `config-write` is lost. -/
theorem applyFile_mayKeep (hkey : serviceKey c.service = some key)
    (hdigest : kea.digest (.obj w.running) = h1) (hrow : HasRow pendingId w)
    (hssh : c.server.hasSsh = true) (hprovable : Provable c.server c.service w)
    (hfile : w.file = some f)
    (hcarried : carries (.obj w.running) (sectionOf (some f.1) c.service) = true)
    (hplanned : planned ≠ some f.2) (h : NotWritten w) :
    kea.MayKeep (applyFile c before expect h1 planned pendingId) w := by
  unfold applyFile
  rw [if_pos hssh]
  refine (Prog.may_bind _ _ _).mpr
    (askTheFile_may letsRead_readable hkey (fun _ => hprovable) fun _ => ?_)
  have hsilent : ∀ Q : Except Exc (Reply H) → World H → Prop, Q (.ok (.transport "")) w →
      kea.May Readable (ask (.cmd c.server c.service .configWrite)) Q w :=
    fun Q hQ => ask_may { behaviour := .silent } rfl rfl hQ
  refine (Prog.may_bind _ _ _).mpr ((Prog.may_bind _ _ _).mpr (hsilent _ ?_))
  refine (Prog.may_bind _ _ _).mpr (hsilent _ ((Prog.may_bind _ _ _).mpr (hsilent _ ?_)))
  exact applyVerify_mayKeep hkey hdigest hrow hssh hfile hcarried hplanned h

/-! ## The set -/

/-- The daemon takes the candidate, and says so. -/
theorem applySet_answered_may (hkey : serviceKey c.service = some key) {sec : Json}
    (hsec : Json.lookup key c.cfg = some sec) {Q : Except Exc (ApiResult H) → World H → Prop}
    (h : kea.May Readable (applyFile c before expect (kea.digest (.obj (kea.render sec))) planned
      pendingId) Q (kea.took w sec)) :
    kea.May Readable (applySet c before expect planned pendingId) Q w := by
  have hbody : body c.cfg c.service = .ok [(key, sec)] := by simp [body, hkey, hsec]
  unfold applySet
  rw [hbody]
  refine (Prog.may_bind _ _ _).mpr ((Prog.may_ofExcept _ _).mpr ?_)
  refine (Prog.may_bind _ _ _).mpr (ask_may {} rfl rfl ?_)
  have hafter : kea.after w c.service true (.configSet [(key, sec)]) = kea.took w sec := by
    simp [Kea.after, Kea.took, hkey, Json.lookup]
  have hrun : (kea.took w sec).running = kea.render sec := rfl
  simp only [Kea.does, Behaviour.executed, hafter, Kea.reply]
  simpa [applyReplied, Reply.isOk, setDigest, Reply.digest, Kea.replyHash, applyTook, hrun] using h

/-- Nothing stands in the way of a set any more: the file is `f`, and it is the newest rendering. -/
structure Ready (c : Write H) (running : Cfg) (f : Cfg × H) (w : World H) : Prop where
  running : w.running = running
  file : w.file = some f
  rendering : ∀ sid, c.server.id = some sid →
    ∃ row, w.store.latestRendering sid c.service = some row ∧ row.sha256 = some f.2
  idle : Idle c.server c.service w
  unsent : ∀ sec, .sent sec ∉ w.log

/-- The steps from the set on, in a world with the record. -/
theorem applySet_mayKeep (h : Unwritten kea c running file) (hkey : serviceKey c.service = some key)
    (hcarried : (∃ sec, Json.lookup key c.cfg = some sec ∧
        carries (.obj (kea.render sec)) (sectionOf (some f.1) c.service) = true) ∨
      Slips kea c running ∧ carries (.obj running) (sectionOf (some f.1) c.service) = true)
    (hplanned : planned ≠ some f.2) (hrun : w.running = running) (hfile : w.file = some f)
    (hrow : ∀ sid, c.server.id = some sid →
      ∃ row, w.store.latestRendering sid c.service = some row ∧ row.sha256 = some f.2)
    (hunsent : ∀ sec, .sent sec ∉ w.log) (hhas : HasRow pendingId w) :
    kea.MayKeep (applySet c (builtFrom c running) expect planned pendingId) w := by
  rcases hcarried with ⟨sec, hsec, hcarried⟩ | ⟨hslips, hcarried⟩
  · refine applySet_answered_may hkey hsec
      (applyFile_mayKeep hkey rfl hhas h.ssh ⟨f, hfile, hrow, fun _ => hcarried⟩ hfile hcarried
        hplanned ?_)
    exact NotWritten.append [.sent sec, .set sec] rfl (by simp) hunsent
  · obtain ⟨sec, hsec⟩ := Option.isSome_iff_exists.mp hslips.section_
    rw [hkey, Option.getD_some] at hsec
    obtain ⟨b, hb, hdiffers⟩ := hslips.before
    have hmissed : (w.missed sec).running = running := hrun
    refine applySet_silent_may letsRead_readable hkey hsec
      (afterASetWithoutAnAnswer_may letsRead_readable hkey ?_ ?_ ?_)
    · rw [hmissed, builtFrom_eq hb]
      exact hdiffers
    · rw [hmissed]
      exact hslips.carried
    · rw [← hmissed] at hcarried
      refine applyFile_mayKeep hkey rfl hhas h.ssh ⟨f, hfile, hrow, fun _ => hcarried⟩ hfile
        hcarried hplanned ?_
      exact NotWritten.append [.sent sec] rfl (by simp) hunsent

/-- A call that rests on another file, or on none, from the record on. -/
theorem apply_mayKeep (h : Unwritten kea c w.running file) (hunplanned : Unplanned c f.2)
    (hcarried : (∃ sec, Json.lookup ((serviceKey c.service).getD "") c.cfg = some sec ∧
        carries (.obj (kea.render sec)) (sectionOf (some f.1) c.service) = true) ∨
      Slips kea c w.running ∧ carries (.obj w.running) (sectionOf (some f.1) c.service) = true)
    (hblocked : kea.May Readable (blockedBy c)
      (fun r t => r = .ok none ∧ Ready c w.running f t) w) :
    kea.MayKeep (apply c) w := by
  obtain ⟨key, hkey⟩ := Option.isSome_iff_exists.mp h.sends.served
  rw [hkey, Option.getD_some] at hcarried
  refine apply_may letsRead_readable h.sends (Prog.may_mono ?_ hblocked)
  rintro _ t ⟨rfl, ready⟩
  refine ⟨rfl, ?_⟩
  have hplannedOf : plannedOf c = .done (.ok c.plannedSha) := by
    unfold plannedOf
    rw [if_neg fun hasks => hasks.2.1 (hunplanned.2 hasks.1)]
    rfl
  rw [hplannedOf]
  refine ⟨c.plannedSha, rfl, fun rowSha => ?_⟩
  refine applyRecorded_may letsRead_readable hkey (by rw [ready.running]) ready.idle (fun _ => ?_)
    fun sid hid e he => ?_
  · exact applySet_mayKeep h hkey hcarried hunplanned.1 ready.running ready.file ready.rendering
      ready.unsent nofun
  · refine applySet_mayKeep h hkey hcarried hunplanned.1 ready.running ready.file
      (fun sid' hid' => ?_) (by simpa using ready.unsent) HasRow.add
    obtain ⟨row, hlatest, hsha⟩ := ready.rendering sid' hid'
    have hnot : e.isRendering = false := by simp [Entry.isRendering, he]
    refine ⟨row, ?_, hsha⟩
    simpa [Store.latestRendering, Store.newest, Store.add, hnot] using hlatest

/-! ## An earlier change that is settled -/

omit [DecidableEq H] [ToString H] in
theorem exists_carriedList {xs : List Json}
    (h : ∀ x ∈ xs, ∃ y, ∀ under path, walk x y under path = none) :
    ∃ ys, ys.length = xs.length ∧ ∀ under path i, walkList xs ys under path i = none := by
  induction xs with
  | nil => exact ⟨[], rfl, fun _ _ _ => rfl⟩
  | cons x xs ih =>
    obtain ⟨y, hy⟩ := h x (by simp)
    obtain ⟨ys, hlen, hys⟩ := ih fun x' hx' => h x' (by simp [hx'])
    refine ⟨y :: ys, by simp [hlen], fun under path i => ?_⟩
    rw [walkList, hy, Option.none_or]
    exact hys under path (i + 1)

/-- Every value carries some value. -/
theorem exists_carried (v : Json) : ∃ v', ∀ under path, walk v v' under path = none := by
  induction v with
  | arr xs ih =>
    obtain ⟨ys, hlen, hys⟩ := exists_carriedList ih
    exact ⟨.arr ys, fun under path => by simpa [walk, hlen] using hys under path 0⟩
  | obj fs ih => exact ⟨.obj [], fun _ _ => rfl⟩
  | null => exact ⟨.null, fun _ path => walkLeaf_self .null path (by simp [Json.pyEq])⟩
  | bool b => exact ⟨.bool b, fun _ path => walkLeaf_self (.bool b) path (by simp [Json.pyEq])⟩
  | int n => exact ⟨.int n, fun _ path => walkLeaf_self (.int n) path (by simp [Json.pyEq])⟩
  | float q => exact ⟨.float q, fun _ path => walkLeaf_self (.float q) path (by simp [Json.pyEq])⟩
  | str t => exact ⟨.str t, fun _ path => walkLeaf_self (.str t) path (by simp [Json.pyEq])⟩

/-- A daemon that runs something carries a change of it. -/
theorem exists_change (h : running ≠ []) :
    ∃ field, carries (.obj running) (.obj [field]) = true := by
  obtain ⟨⟨k, v⟩, rest, rfl⟩ := List.exists_cons_of_ne_nil h
  obtain ⟨v', hv⟩ := exists_carried v
  refine ⟨(k, v'), ?_⟩
  simp [carries, walk, walkFields, Json.lookup, hv]

/-- The row of an earlier change, which rests on the file that is there. -/
def earlierEntry (c : Write H) (sid : ℤ) (file : Cfg × H) (field : String × Json) : Entry H :=
  { serverId := sid, service := c.service, sha256 := none, hashKind := .kea,
    config := some (.obj [((serviceKey c.service).getD "", .obj [field])]), summary := "",
    source := .pending, fileSha256 := some file.2 }

/-- That row, over the rendering of what runs. -/
def earlierStore (kea : Kea H) (c : Write H) (sid : ℤ) (running : Cfg) (file : Cfg × H)
    (field : String × Json) : Store H :=
  (Store.empty.add (renderingEntry sid c.service "" running (kea.fileDigest running))).add
    (earlierEntry c sid file field)

/-- A world with an earlier change on record. -/
def earlierWorld (kea : Kea H) (c : Write H) (sid : ℤ) (running : Cfg) (file : Cfg × H)
    (field : String × Json) : World H :=
  ⟨running, some file, earlierStore kea c sid running file field, []⟩

/-- The row itself. -/
def earlierRow (c : Write H) (sid : ℤ) (file : Cfg × H) (field : String × Json) : Row H :=
  ⟨earlierEntry c sid file field, 2⟩

section Earlier

variable {sid : ℤ} {field : String × Json}

omit [DecidableEq H] [ToString H] in
theorem earlierStore_pending : (earlierStore kea c sid running file field).pending sid c.service =
    some (earlierRow c sid file field) := by
  simp [earlierStore, earlierRow, Store.pending, Store.newest, Store.add, Store.empty, Entry.isOf,
    earlierEntry]

omit [DecidableEq H] [ToString H] in
theorem earlierStore_rendering :
    (earlierStore kea c sid running file field).latestRendering sid c.service =
      some ⟨renderingEntry sid c.service "" running (kea.fileDigest running), 1⟩ := by
  simp [earlierStore, Store.latestRendering, Store.newest, Store.add, Store.empty, Entry.isOf,
    earlierEntry, Entry.isRendering, renderingEntry]

/-- The store after the earlier change was finished. -/
def laterStore (kea : Kea H) (c : Write H) (sid : ℤ) (running : Cfg) (file : Cfg × H)
    (field : String × Json) : Store H :=
  (earlierStore kea c sid running file field).finish 2 .jen (some (kea.digest (.obj running)))
    (some (.obj (reported c.service running)))

omit [DecidableEq H] [ToString H] in
theorem laterStore_pending :
    (laterStore kea c sid running file field).pending sid c.service = none := by
  simp [laterStore, Store.finish, Store.update, earlierStore, Store.pending, Store.newest,
    Store.add, Store.empty, Entry.isOf, earlierEntry, renderingEntry]

omit [DecidableEq H] [ToString H] in
theorem laterStore_rendering :
    (laterStore kea c sid running file field).latestRendering sid c.service =
      some ⟨renderingEntry sid c.service "" running (kea.fileDigest running), 1⟩ := by
  simp [laterStore, Store.finish, Store.update, earlierStore, Store.latestRendering, Store.newest,
    Store.add, Store.empty, Entry.isOf, earlierEntry, Entry.isRendering, renderingEntry]

/-- The world after the earlier change was settled. -/
def laterWorld (kea : Kea H) (c : Write H) (sid : ℤ) (running : Cfg) (file : Cfg × H)
    (field : String × Json) : World H :=
  ⟨running, some (reported c.service running, kea.fileDigest running),
    laterStore kea c sid running file field, [.wrote]⟩

omit [ToString H] in
/-- The file on the host is the one that the earlier change rests on, and is written. -/
theorem writeFile_may (hkey : serviceKey c.service = some key) (hid : c.server.id = some sid)
    (hssh : c.server.hasSsh = true) :
    kea.May Readable (writeFile c.server c.service (some file.2) false)
      (fun r t => r = .ok { ok := true, code := "ok" } ∧
        t = { earlierWorld kea c sid running file field with
          file := some (reported c.service running, kea.fileDigest running), log := [.wrote] })
      (earlierWorld kea c sid running file field) := by
  have hproof : ∀ Q : Except Exc (Proof H) → World H → Prop, (∀ proof : Proof H, proof.ok = true →
      Q (.ok proof) (earlierWorld kea c sid running file field)) →
      kea.May Readable (fileProof c.server c.service (some file.2) true) Q
        (earlierWorld kea c sid running file field) := by
    intro Q hQ
    unfold fileProof
    rw [if_neg (by simp [hssh, hkey])]
    refine (Prog.may_bind _ _ _).mpr (readConfigProof_may letsRead_readable rfl ?_)
    refine (Prog.may_bind _ _ _).mpr ?_
    unfold renderingOf
    rw [hid]
    refine ask_may {} rfl rfl ?_
    simp only [Kea.does, if_true, earlierWorld, earlierStore_rendering]
    split_ifs
    · exact hQ _ rfl
    · exact hQ _ rfl
  unfold writeFile
  rw [if_neg (by simp [hkey])]
  refine (Prog.may_bind _ _ _).mpr ((Prog.may_bind _ _ _).mpr (hproof _ fun proof hok => ?_))
  dsimp only
  rw [if_pos (.inl hok)]
  refine (Prog.may_bind _ _ _).mpr ((Prog.may_bind _ _ _).mpr (ask_may {} rfl rfl ?_))
  exact ⟨rfl, rfl⟩

theorem finishSettled_may (hid : c.server.id = some sid) (hssh : c.server.hasSsh = true)
    {digest : H} (hdigest : digest = kea.digest (.obj running)) :
    kea.May Readable (finishSettled c.server c.service (earlierRow c sid file field)
        (reported c.service running) digest)
      (fun r t => (∃ done, r = .ok done) ∧ t = laterWorld kea c sid running file field)
      { earlierWorld kea c sid running file field with
        file := some (reported c.service running, kea.fileDigest running), log := [.wrote] } := by
  subst hdigest
  unfold finishSettled
  refine (Prog.may_bind _ _ _).mpr (ask_may {} rfl rfl ?_)
  have hrecorded : kea.May Readable (recordRenderingAfterWrite c.server c.service
      s!"settled a change of {Entry.at (earlierRow c sid file field).toEntry}" none)
      (fun r t => (∃ b, r = .ok b) ∧ t = laterWorld kea c sid running file field)
      (laterWorld kea c sid running file field) := by
    unfold recordRenderingAfterWrite
    rw [hid]
    dsimp only
    rw [if_neg (by simp [hssh])]
    refine (Prog.may_bind _ _ _).mpr (ask_may {} rfl rfl ?_)
    simp only [Kea.does, if_true, laterWorld]
    unfold recordRendering
    dsimp only
    split_ifs
    · exact ⟨⟨_, rfl⟩, rfl⟩
    · -- the rendering is on record already, and this record fails
      refine (Prog.may_bind _ _ _).mpr (ask_may { stored := .failed } rfl rfl ?_)
      refine ⟨⟨_, rfl⟩, ?_⟩
      simp [Kea.does, Fate.record, Store.insert, renderingEntry, recordMark]
  simp only [Kea.does, Fate.onRow]
  refine (Prog.may_bind _ _ _).mpr (Prog.may_mono ?_ hrecorded)
  rintro _ t ⟨⟨b, rfl⟩, rfl⟩
  exact ⟨⟨_, rfl⟩, rfl⟩

/-- The earlier change is live: its file is written, and its row is finished. -/
theorem reconcileRow_may (hkey : serviceKey c.service = some key) (hid : c.server.id = some sid)
    (hssh : c.server.hasSsh = true) (hcarried : carries (.obj running) (.obj [field]) = true) :
    kea.May Readable (reconcileRow c.server c.service (earlierRow c sid file field)
        (reported c.service running) (kea.digest (.obj running)) false)
      (fun r t => (∃ done, r = .ok done) ∧ t = laterWorld kea c sid running file field)
      (earlierWorld kea c sid running file field) := by
  have hcandidate : pendingCandidate (earlierRow c sid file field) c.service =
      some [((serviceKey c.service).getD "", .obj [field])] := by
    simp [pendingCandidate, earlierRow, earlierEntry, sectionOf, Json.lookup, Json.falsy]
  have hsection : sectionOf (some [((serviceKey c.service).getD "", .obj [field])]) c.service =
      .obj [field] := by
    simp [sectionOf, Json.lookup, Json.falsy]
  have hlive : kea.May Readable (reconcileLive c.server c.service (earlierRow c sid file field)
      (reported c.service running) (kea.digest (.obj running)) false)
      (fun r t => (∃ done, r = .ok done) ∧ t = laterWorld kea c sid running file field)
      (earlierWorld kea c sid running file field) := by
    have hwaits : kea.May Readable (settlementWaits c.server c.service (reported c.service running))
        (fun r t => r = .ok "" ∧ t = earlierWorld kea c sid running file field)
        (earlierWorld kea c sid running file field) := by
      refine (Prog.may_bind _ _ _).mpr (ask_may {} rfl rfl ?_)
      dsimp only [Kea.does]
      split_ifs
      · exact absurd rfl ‹("" : String) ≠ ""›
      · exact ask_may {} rfl rfl ⟨rfl, rfl⟩
      · exact ⟨rfl, rfl⟩
    unfold reconcileLive
    refine (Prog.may_bind _ _ _).mpr (Prog.may_mono ?_ hwaits)
    rintro _ _ ⟨rfl, rfl⟩
    dsimp only
    rw [if_neg (not_not.mpr rfl), if_neg (by simp [earlierRow, earlierEntry])]
    refine (Prog.may_bind _ _ _).mpr (Prog.may_mono ?_ (writeFile_may hkey hid hssh))
    rintro _ _ ⟨rfl, rfl⟩
    dsimp only
    rw [if_neg (by decide)]
    refine (Prog.may_bind _ _ _).mpr (get_may letsRead_readable hkey ?_)
    exact finishSettled_may hid hssh rfl
  have hage : rowAge (earlierRow c sid file field) = .done 121 := rfl
  have hdigest : ¬ (earlierRow c sid file field).sha256 = some (kea.digest (.obj running)) := by rintro ⟨⟩
  unfold reconcileRow
  rw [hcandidate]
  dsimp only
  rw [hage]
  refine (Prog.may_bind _ _ _).mpr ((Prog.may_done _ _).mpr ?_)
  dsimp only
  rw [if_neg (by decide), if_neg hdigest, sectionOf_reported, hsection, if_pos hcarried]
  exact hlive

/-- An earlier change can be settled within a call, which writes the file. -/
theorem blockedBy_settles_may (hkey : serviceKey c.service = some key)
    (hid : c.server.id = some sid) (hpurpose : c.purpose ≠ .restore)
    (hssh : c.server.hasSsh = true) (hcarried : carries (.obj running) (.obj [field]) = true) :
    kea.May Readable (blockedBy c) (fun r t => r = .ok none ∧
        t = laterWorld kea c sid running file field)
      (earlierWorld kea c sid running file field) := by
  have hpending : ∀ Q : Except Exc (Option (Row H)) → World H → Prop,
      Q (.ok (some (earlierRow c sid file field))) (earlierWorld kea c sid running file field) →
      kea.May Readable (ask (.pending sid c.service)) Q
        (earlierWorld kea c sid running file field) := by
    intro Q hQ
    refine ask_may {} rfl rfl ?_
    simpa [Kea.does, earlierWorld, earlierStore_pending] using hQ
  have hreconcile : kea.May Readable (reconcilePending c.server c.service
      (reported c.service running) (kea.digest (.obj running)) false)
      (fun r t => (∃ done, r = .ok done) ∧ t = laterWorld kea c sid running file field)
      (earlierWorld kea c sid running file field) := by
    unfold reconcilePending
    rw [hid]
    dsimp only
    rw [if_neg (by simp [hkey])]
    refine (Prog.may_bind _ _ _).mpr (hpending _ ?_)
    exact reconcileRow_may hkey hid hssh hcarried
  have hfirst : kea.May Readable (settleFirst c.server c.service sid)
      (fun r t => r = .ok "" ∧ t = laterWorld kea c sid running file field)
      (earlierWorld kea c sid running file field) := by
    refine (Prog.may_bind _ _ _).mpr (get_may letsRead_readable hkey ?_)
    refine (Prog.may_bind _ _ _).mpr (Prog.may_mono ?_ hreconcile)
    rintro _ _ ⟨⟨done, rfl⟩, rfl⟩
    refine (Prog.may_bind _ _ _).mpr (ask_may {} rfl rfl ?_)
    simp [Kea.does, laterWorld, laterStore_pending]
  have hcandidate : pendingCandidate (earlierRow c sid file field) c.service ≠ none := by
    simp [pendingCandidate, earlierRow, earlierEntry, sectionOf, Json.lookup, Json.falsy]
  unfold blockedBy
  rw [if_neg hpurpose]
  refine (Prog.may_bind _ _ _).mpr ?_
  unfold pendingBlock
  rw [hid]
  refine (Prog.may_handle _ _ _).mpr ((Prog.may_bind _ _ _).mpr (hpending _ ?_))
  dsimp only
  rw [if_neg hcandidate]
  refine Prog.may_mono ?_ hfirst
  rintro _ t ⟨rfl, rfl⟩
  exact ⟨rfl, rfl⟩

omit [DecidableEq H] [ToString H] in
theorem laterWorld_ready (hid : c.server.id = some sid) :
    Ready c running (reported c.service running, kea.fileDigest running)
      (laterWorld kea c sid running file field) := by
  refine ⟨rfl, rfl, fun sid' hid' => ?_, fun sid' hid' => ?_, by simp [laterWorld]⟩
  · obtain rfl : sid = sid' := Option.some.inj (hid.symm.trans hid')
    exact ⟨_, laterStore_rendering, rfl⟩
  · obtain rfl : sid = sid' := Option.some.inj (hid.symm.trans hid')
    exact laterStore_pending

end Earlier

/-! ## Exactly when a lost write is never ok -/

/-- A world in which the file on the host is Jen's own rendering, with an empty log. -/
def keptWorld (c : Write H) (running : Cfg) (file : Cfg × H) : World H :=
  ⟨running, some file, (provedWorld c running file.2).store, []⟩

omit [DecidableEq H] [ToString H] in
theorem keptWorld_ready : Ready c running file (keptWorld c running file) := by
  refine ⟨rfl, rfl, fun sid hid => ?_,
    (provedWorld_idle file.2 : Idle _ _ (provedWorld c running file.2)), by simp [keptWorld]⟩
  have hproved : Provable c.server c.service (provedWorld c running file.2) :=
    provedWorld_provable file.2
  obtain ⟨f, hf, hrow, -⟩ := hproved.file
  obtain rfl := Option.some.inj hf
  exact hrow sid hid

/-- A call that takes the old file for the written one can do so, from some store. -/
theorem unwritten_may (h : Unwritten kea c running file) :
    ∃ store, kea.MayKeep (apply c) ⟨running, some file, store, []⟩ := by
  obtain ⟨key, hkey⟩ := Option.isSome_iff_exists.mp h.sends.served
  obtain ⟨f, hfind, hunplanned, hcarried⟩ := h.carried
  rcases hfind with rfl | ⟨hcan, rfl⟩
  · have hready : Ready c running f (keptWorld c running f) := keptWorld_ready
    refine ⟨(keptWorld c running f).store, apply_mayKeep (w := keptWorld c running f) h hunplanned hcarried ?_⟩
    exact blockedBy_may letsRead_readable hready.idle ⟨rfl, hready⟩
  · obtain ⟨sid, hid⟩ := Option.isSome_iff_exists.mp hcan.id
    obtain ⟨field, hfield⟩ := exists_change hcan.running
    refine ⟨earlierStore kea c sid running file field, apply_mayKeep h hunplanned hcarried ?_⟩
    refine Prog.may_mono ?_ (blockedBy_settles_may hkey hid hcan.purpose h.ssh hfield)
    rintro r _ ⟨rfl, rfl⟩
    exact ⟨rfl, laterWorld_ready hid⟩

/-- Every ok result of `apply` on a server whose file can be read, whatever rows it found, comes with
a `config-write` that was executed after the set, and a file that is what the daemon runs, exactly
when the call is not one of those that take the old file for the written one. -/
theorem apply_ok_written_iff (running : Cfg) (file : Cfg × H) :
    (∀ store fates x, (∀ n, (fates n).fileReadable = true) →
      ((apply c).run kea.host fates ⟨running, some file, store, []⟩).result = .ok x →
        x.ok = true →
        Written kea c ((apply c).run kea.host fates ⟨running, some file, store, []⟩).state) ↔
      ¬ Unwritten kea c running file := by
  constructor
  · intro hwritten hunwritten
    obtain ⟨store, hmay⟩ := unwritten_may hunwritten
    have hread : Readable (default : Fate H) := rfl
    obtain ⟨fates, hread, x, hx, hok, hnot⟩ := Prog.may_under_sound hread hmay
    obtain ⟨sec, hsub⟩ := (hwritten store fates x hread hx hok).wrote
    exact hnot sec hsub
  · intro hnot store fates x _ hx hok
    have hgives : kea.OkGives _ (apply c) ⟨running, some file, store, []⟩ := apply_accepts
    obtain ⟨found, planned, hfound, hrests, haccepted⟩ :=
      (Prog.wp_under_sound hgives fates fun _ => trivial).1 x hx hok
    exact haccepted.written hfound hrests hnot

/-! ## A rollback whose write was lost -/

/-- The rollback of a change that took a timer away: what the daemon runs, the file on the host, and
the rendering on record are the change. -/
def timerAgain : ApiM ExactDigest (ApiResult ExactDigest) :=
  revert { id := some 1, name := "kea1", sshHost := "kea1" } .dhcp4 [("Dhcp4", .obj withTimer)]
    (some (Kea.exact.digest (.obj shortLease))) "a rollback" (some [("Dhcp4", .obj shortLease)])

/-- The file on the host. -/
def shortFile : Cfg × ExactDigest := (reported .dhcp4 shortLease, Kea.exact.fileDigest shortLease)

/-- The world before the rollback. -/
def shortWorld : World ExactDigest :=
  ⟨shortLease, some shortFile,
    Store.empty.add (renderingEntry 1 .dhcp4 "" shortFile.1 shortFile.2), []⟩

/-- The twelfth call to the fourteenth are the three attempts of `config-write`. -/
def lostWrites (n : ℕ) : Fate ExactDigest :=
  { behaviour := if 11 ≤ n ∧ n ≤ 13 then .silent else .answered }

/-- The rollback is ok, no write was executed, and the file is the old one. -/
theorem revert_ok_lostWrite :
    let done := timerAgain.run Kea.exact.host lostWrites shortWorld
    (∀ n, (lostWrites n).fileReadable = true) ∧ (∃ x, done.result = .ok x ∧ x.ok = true) ∧
      done.state.log = [.recorded 2, .sent (.obj withTimer), .set (.obj withTimer)] ∧
      done.state.running = withTimer ∧ done.state.file = some shortFile := by
  refine ⟨fun _ => rfl, ⟨_, rfl, rfl⟩, rfl, rfl, rfl⟩

end JenKea.Api
