import JenKea.Api.Calls

/-!
# What the calls do

One call at a time: what `get` and `hashOf` learn from the daemon, and what the operations of
`ApiOp.settles` and `ApiOp.quiet` leave as it was. `SettledSince` and `QuietSince` relate the ends of
a stretch of such operations.
-/

namespace JenKea.Api

variable {H : Type} {kea : Kea H} {service : Service}

/-! ## The section that the daemon reports -/

theorem lookup_reported (running : Cfg) :
    Json.lookup ((serviceKey service).getD "") (reported service running) = some (.obj running) := by
  simp [reported, Json.lookup]

theorem sectionOf_reported (running : Cfg) :
    sectionOf (some (reported service running)) service = .obj running := by
  rw [sectionOf, Option.getD_some, lookup_reported]
  cases running <;> simp [Json.falsy]

variable [DecidableEq H] {A : Fate H → Prop} {J : World H → Prop} {w : World H}

/-- One call: it raises and does nothing, or it does what `Kea.does` says. -/
theorem ask_ensures {o : ApiOp H} {Q : Except Exc o.Result → World H → Prop}
    (hJ : J w) (hraise : ∀ e, Q (.error e) w)
    (hdo : ∀ d, A d → J (kea.does d w o).2 ∧ Q (kea.does d w o).1 (kea.does d w o).2) :
    kea.Ensures A J (ask o) Q w := by
  intro d
  rw [show Prog.under kea.host A o d w = kea.host o d.1 w from rfl, Kea.host]
  cases hr : d.1.raises with
  | some e => exact ⟨hJ, hraise e⟩
  | none => exact ⟨(hdo d.1 d.2).1, (Prog.wp_ofExcept _ _).mpr (hdo d.1 d.2).2⟩

/-- `get` learns what runs, with its digest, or nothing. -/
theorem get_ensures {server : Server} {Q : Except Exc (Except String (Cfg × H)) → World H → Prop}
    (hJ : J w) (hraise : ∀ e, Q (.error e) w) (herr : ∀ why, Q (.ok (.error why)) w)
    (hok : Q (.ok (.ok (reported service w.running, kea.digest (.obj w.running)))) w) :
    kea.Ensures A J (get server service) Q w := by
  unfold get
  cases hkey : serviceKey service with
  | none => exact herr _
  | some key =>
    refine (Prog.wp_bind _ _ _).mpr (ask_ensures hJ hraise fun d _ => ⟨hJ, ?_⟩)
    have hlook : Json.lookup key (reported service w.running) = some (.obj w.running) := by
      rw [← lookup_reported, hkey, Option.getD_some]
    simp only [Kea.does, Kea.after, Kea.reply]
    cases d.behaviour with
    | lost => exact herr _
    | silent => exact herr _
    | refused =>
      have hne : (if d.code = 0 then 1 else d.code) ≠ 0 := by split_ifs <;> simp_all
      simp [Reply.answered, Reply.isOk, hne, herr]
    | answered =>
      by_cases hs : d.withSection
      · by_cases hh : d.withHash
        · simpa [Reply.answered, Reply.isOk, Reply.split, replyArgs, Kea.replyHash, hs, hh, hlook]
            using hok
        · simp [Reply.answered, Reply.isOk, Reply.split, replyArgs, Kea.replyHash, hs, hh, hlook,
            herr]
      · simp [Reply.answered, Reply.isOk, Reply.split, replyArgs, hs, Json.lookup, herr]

/-- `hashOf` learns the digest of what runs, or nothing. -/
theorem hashOf_ensures {server : Server} {Q : Except Exc (Option H) → World H → Prop}
    (hJ : J w) (hraise : ∀ e, Q (.error e) w) (hnone : Q (.ok none) w)
    (hok : Q (.ok (some (kea.digest (.obj w.running)))) w) :
    kea.Ensures A J (hashOf server service) Q w := by
  unfold hashOf
  split_ifs
  · exact hnone
  · refine (Prog.wp_bind _ _ _).mpr (ask_ensures hJ hraise fun d _ => ⟨hJ, ?_⟩)
    simp only [Kea.does, Kea.after, Kea.reply]
    cases d.behaviour with
    | lost => exact hnone
    | silent => exact hnone
    | refused =>
      have hne : (if d.code = 0 then 1 else d.code) ≠ 0 := by split_ifs <;> simp_all
      simp [Reply.isOk, hne, hnone]
    | answered =>
      by_cases hh : d.withHash
      · simpa [Reply.isOk, Reply.digest, Kea.replyHash, hh] using hok
      · simpa [Reply.isOk, Reply.digest, Kea.replyHash, hh] using hnone

/-- The world with another store. -/
abbrev World.withStore (w : World H) (s : Store H) : World H := { w with store := s }

/-! ## A set -/

/-- The world after a `config-set` that the daemon executed. -/
def Kea.took (kea : Kea H) (w : World H) (sec : Json) : World H :=
  { w with running := kea.render sec, log := w.log ++ [.sent sec, .set sec] }

/-- The world after a `config-set` that the daemon did not execute. -/
def World.missed (w : World H) (sec : Json) : World H := { w with log := w.log ++ [.sent sec] }

omit [DecidableEq H] in
/-- `_body` takes the section as the configuration has it. -/
theorem body_ok {cfg b : Cfg} (h : body cfg service = .ok b) :
    ∃ sec, Json.lookup ((serviceKey service).getD "") cfg = some sec ∧
      Json.lookup ((serviceKey service).getD "") b = some sec := by
  unfold body at h
  dsimp only at h
  split at h
  · next sec hsec =>
    refine ⟨sec, hsec, ?_⟩
    rw [← Except.ok.inj h]
    simp [Json.lookup]
  · cases h

/-- `config-set`, by what happened to it. -/
theorem configSet_ensures {server : Server} {b : Cfg} {sec : Json}
    (hb : Json.lookup ((serviceKey service).getD "") b = some sec)
    {Q : Except Exc (Reply H) → World H → Prop} (hJ : J w) (hraise : ∀ e, Q (.error e) w)
    (htook : J (kea.took w sec)) (hmissed : J (w.missed sec))
    (hanswered : ∀ reply : Reply H, reply.isOk →
      (∀ h1, reply.digest = some h1 → h1 = kea.digest (.obj (kea.render sec))) →
      Q (.ok reply) (kea.took w sec))
    (hlost : ∀ reply : Reply H, reply.answered = false → Q (.ok reply) (kea.took w sec))
    (hsilent : ∀ reply : Reply H, reply.answered = false → Q (.ok reply) (w.missed sec))
    (hrefused : ∀ reply : Reply H, reply.answered → reply.isOk = false →
      Q (.ok reply) (w.missed sec)) :
    kea.Ensures A J (ask (.cmd server service (.configSet b))) Q w := by
  refine ask_ensures hJ hraise fun d _ => ?_
  simp only [Kea.does, Kea.after, Kea.reply, hb, Option.getD_some]
  cases d.behaviour with
  | lost => exact ⟨htook, hlost _ rfl⟩
  | silent => exact ⟨hmissed, hsilent _ rfl⟩
  | refused =>
    have hne : (if d.code = 0 then 1 else d.code) ≠ 0 := by split_ifs <;> simp_all
    exact ⟨hmissed, hrefused _ rfl (by simp [Reply.isOk, hne])⟩
  | answered =>
    refine ⟨htook, hanswered _ rfl fun h1 h => ?_⟩
    simp only [Reply.digest, Kea.replyHash, Behaviour.executed, if_true] at h
    split_ifs at h
    exact (Option.some.inj h).symm

/-- `undo` touches no row, and answers yes only when the daemon runs what it ran before. -/
theorem undo_ensures [ToString H] {server : Server} {before : Cfg} {beforeHash : H}
    {Q : Except Exc Bool → World H → Prop}
    (hJ : ∀ w', w'.store = w.store → w.log <+: w'.log → J w')
    (hraise : ∀ e w', w'.store = w.store → w.log <+: w'.log → Q (.error e) w')
    (hno : ∀ w', w'.store = w.store → w.log <+: w'.log → Q (.ok false) w')
    (hyes : ∀ w', w'.store = w.store → w.log <+: w'.log →
      (kea.digest (.obj w'.running) = beforeHash ∨
        Json.Same (.obj w'.running) (sectionOf (some before) service)) → Q (.ok true) w') :
    kea.Ensures A J (undo server service before beforeHash) Q w := by
  have hasked : ∀ w' : World H, w'.store = w.store → w.log <+: w'.log → kea.Ensures A J
      (get server service >>= fun got => pure (provedBack service before beforeHash got)) Q w' := by
    intro w' hs hl
    refine (Prog.wp_bind _ _ _).mpr (get_ensures (hJ w' hs hl) (fun e => hraise e w' hs hl)
      (fun why => hno w' hs hl) ?_)
    -- the daemon's own answer is what runs
    have hsame : sameSection service (reported service w'.running) before =
        decide (Json.Same (.obj w'.running) (sectionOf (some before) service)) := by
      rw [sameSection, sectionOf_reported]
    by_cases hback : kea.digest (.obj w'.running) = beforeHash ∨
        Json.Same (.obj w'.running) (sectionOf (some before) service)
    · simpa [provedBack, hsame, hback] using hyes w' hs hl hback
    · simpa [provedBack, hsame, hback] using hno w' hs hl
  have hrefl : w.log <+: w.log := List.prefix_refl _
  unfold undo
  refine (Prog.wp_bind _ _ _).mpr ((Prog.wp_ofExcept _ _).mpr ?_)
  cases hb : body before service with
  | error e => exact hraise e w rfl hrefl
  | ok b =>
    obtain ⟨sec, -, hsec⟩ := body_ok hb
    have htook : w.log <+: (kea.took w sec).log := List.prefix_append _ _
    have hmissed : w.log <+: (w.missed sec).log := List.prefix_append _ _
    refine (Prog.wp_bind _ _ _).mpr (configSet_ensures hsec (hJ w rfl hrefl)
      (fun e => hraise e w rfl hrefl) (hJ _ rfl htook) (hJ _ rfl hmissed)
      (fun reply hok _ => ?_) (fun reply ha => ?_) (fun reply ha => ?_) fun reply ha hok => ?_)
    · simpa [hok] using hasked (kea.took w sec) rfl htook
    · simpa [ha] using hasked (kea.took w sec) rfl htook
    · simpa [ha] using hasked (w.missed sec) rfl hmissed
    · simpa [ha, hok] using hno (w.missed sec) rfl hmissed

/-! ## What a record does -/

section Record

variable {d : Fate H} {s : Store H} {e : Entry H} {r : Row H}

/-- The new row of a `record`. -/
def newRow (d : Fate H) (s : Store H) (e : Entry H) : Row H :=
  ⟨{ e with summary := String.ofList (e.summary.toList.take 255), createdAt := d.stamp }, s.nextId⟩

/-- A record leaves the store as it is, or adds the new row and prunes. -/
theorem record_cases : (d.record s e).2 = s ∨
    (d.record s e).2.nextId = s.nextId + 1 ∧
      (∀ r ∈ (d.record s e).2.rows, r = newRow d s e ∨ r ∈ s.rows) ∧
      (∀ r, r = newRow d s e ∨ r ∈ s.rows → r.settled = false → r ∈ (d.record s e).2.rows) := by
  unfold Fate.record
  cases hi : s.insert { e with createdAt := d.stamp } with
  | none => exact .inl rfl
  | some s' =>
    have hs' := Store.insert_eq hi
    have hmem : ∀ r, r ∈ s'.rows ↔ r = newRow d s e ∨ r ∈ s.rows := by
      intro r
      rw [hs']
      exact Store.mem_add
    have hnext : s'.nextId = s.nextId + 1 := by rw [hs']; rfl
    cases d.stored with
    | failed => exact .inl rfl
    | unseen => exact .inr ⟨hnext, fun r => (hmem r).mp, fun r hr _ => (hmem r).mpr hr⟩
    | done =>
      refine .inr ?_
      dsimp only
      unfold Fate.prune
      cases d.keep with
      | none => exact ⟨hnext, fun r => (hmem r).mp, fun r hr _ => (hmem r).mpr hr⟩
      | some keep =>
        refine ⟨by rw [Store.prune_nextId, hnext], fun r hr => (hmem r).mp (Store.prune_subset hr),
          fun r hr hset => Store.mem_prune ((hmem r).mpr hr) hset⟩

/-- A record that reports an id added the new row. -/
theorem record_fst {id : ℕ} (h : (d.record s e).1 = some id) :
    id = s.nextId ∧ ∃ s', s.insert { e with createdAt := d.stamp } = some s' ∧
      (d.record s e).2 = d.prune s' e.serverId e.service := by
  unfold Fate.record at h ⊢
  cases hi : s.insert { e with createdAt := d.stamp } with
  | none => simp [hi] at h
  | some s' =>
    rw [hi] at h
    cases hst : d.stored with
    | failed => simp [hst] at h
    | unseen => simp [hst] at h
    | done =>
      simp only [hst, Option.some.injEq] at h
      exact ⟨h.symm, s', rfl, rfl⟩

/-- A record that works and reports no id was refused. -/
theorem record_refused (hd : d.stored = .done) (h : (d.record s e).1 = none) :
    (d.record s e).2 = s := by
  unfold Fate.record at h ⊢
  cases hi : s.insert { e with createdAt := d.stamp } with
  | none => rfl
  | some s' => simp [hi, hd] at h

/-- The rows after a record that reports an id. -/
theorem mem_record {id : ℕ} (h : (d.record s e).1 = some id) (hr : r ∈ (d.record s e).2.rows) :
    r ∈ s.rows ∨ r.id = id := by
  obtain heq | ⟨-, hsub, -⟩ := record_cases (d := d) (s := s) (e := e)
  · exact .inl (heq ▸ hr)
  · refine (hsub r hr).symm.imp_right fun hnew => ?_
    rw [hnew, (record_fst h).1]
    rfl

/-- A row stays after a record, or the new row is there. -/
theorem mem_record_or_newRow (hr : r ∈ s.rows) :
    r ∈ (d.record s e).2.rows ∨ newRow d s e ∈ (d.record s e).2.rows := by
  unfold Fate.record
  cases hi : s.insert { e with createdAt := d.stamp } with
  | none => exact .inl hr
  | some s' =>
    have hs' := Store.insert_eq hi
    cases d.stored with
    | failed => exact .inl hr
    | unseen => exact .inl (by rw [hs']; exact Store.mem_add.mpr (.inr hr))
    | done =>
      refine .inr ?_
      have hnew : newRow d s e ∈ s'.rows := by rw [hs']; exact Store.mem_add.mpr (.inl rfl)
      dsimp only
      unfold Fate.prune
      cases d.keep with
      | none => exact hnew
      | some keep =>
        refine Store.mem_prune_of_newest hnew fun r' hr' => ?_
        have hlt := s'.fresh r' hr'
        rw [hs', Store.add_nextId] at hlt
        exact Nat.le_of_lt_succ hlt

/-- The new row of a record that reports an id is there, when it is in flight. -/
theorem newRow_mem {id : ℕ} (h : (d.record s e).1 = some id) (he : e.settled = false) :
    newRow d s e ∈ (d.record s e).2.rows := by
  obtain ⟨-, s', hs', heq⟩ := record_fst h
  have hnew : newRow d s e ∈ s'.rows := by
    rw [Store.insert_eq hs']
    exact Store.mem_add.mpr (.inl rfl)
  rw [heq]
  unfold Fate.prune
  cases d.keep with
  | none => exact hnew
  | some keep => exact Store.mem_prune hnew he

theorem nextId_le_record : s.nextId ≤ (d.record s e).2.nextId := by
  obtain h | ⟨h, -, -⟩ := record_cases (d := d) (s := s) (e := e)
  · rw [h]
  · omega

/-- A record of a settled entry leaves the rows in flight as they were. -/
theorem pending_record (he : e.source ≠ .pending) (hr : r.source = .pending) :
    r ∈ (d.record s e).2.rows ↔ r ∈ s.rows := by
  obtain h | ⟨-, hsub, hsup⟩ := record_cases (d := d) (s := s) (e := e)
  · rw [h]
  · constructor
    · intro hmem
      refine (hsub r hmem).resolve_left fun hnew => he ?_
      rw [← hr, hnew]
      rfl
    · intro hmem
      exact hsup r (.inr hmem) (by simp [Entry.settled, hr])

theorem captured_eq (server : Server) (service : Service) (cfg : Cfg) :
    d.captured s server service cfg = s ∨ ∃ e : Entry H, e.source ≠ .pending ∧
      e.source ≠ .damaged ∧ d.captured s server service cfg = (d.record s e).2 := by
  unfold Fate.captured
  split
  · next sid c _ _ =>
    refine .inr ⟨c.entry sid service cfg, ?_, ?_, rfl⟩ <;>
      (dsimp only [Capture.entry]; split_ifs <;> decide)
  · exact .inl rfl

end Record

/-! ## A stretch without a set -/

/-- The world after `n` executed `config-write`s. -/
def Kea.wrote (kea : Kea H) (service : Service) (w : World H) (n : ℕ) : World H :=
  { w with
    file := if n = 0 then w.file else some (reported service w.running, kea.fileDigest w.running)
    log := w.log ++ List.replicate n .wrote }

omit [DecidableEq H] in
@[simp] theorem Kea.wrote_zero (w : World H) : kea.wrote service w 0 = w := by
  simp [Kea.wrote]

omit [DecidableEq H] in
theorem Kea.wrote_add (w : World H) (m n : ℕ) :
    kea.wrote service (kea.wrote service w m) n = kea.wrote service w (m + n) := by
  unfold Kea.wrote
  by_cases hn : n = 0
  · simp [hn]
  · simp [hn]

/-- Only operations that settle were called since `w₀`, on the service: the daemon runs what it ran,
nothing happened but `config-write`s, and every pending row was there. -/
structure SettledSince (kea : Kea H) (service : Service) (w₀ w : World H) : Prop where
  wrote : ∃ n, w = (kea.wrote service w₀ n).withStore w.store
  pending : ∀ r ∈ w.store.rows, r.source = .pending → r ∈ w₀.store.rows
  nextId : w₀.store.nextId ≤ w.store.nextId

namespace SettledSince

variable {w₀ : World H}

omit [DecidableEq H] in
theorem refl (w : World H) : SettledSince kea service w w :=
  ⟨⟨0, by simp⟩, fun _ h _ => h, le_rfl⟩

omit [DecidableEq H] in
theorem running (h : SettledSince kea service w₀ w) : w.running = w₀.running := by
  obtain ⟨n, hn⟩ := h.wrote
  rw [hn]
  rfl

omit [DecidableEq H] in
theorem log (h : SettledSince kea service w₀ w) :
    ∃ more, w.log = w₀.log ++ more ∧ ∀ m ∈ more, m = .wrote := by
  obtain ⟨n, hn⟩ := h.wrote
  refine ⟨List.replicate n .wrote, ?_, fun m hm => (List.mem_replicate.mp hm).2⟩
  rw [hn]
  rfl

omit [DecidableEq H] in
/-- The file is the one that was, as long as nothing was written. -/
theorem file (h : SettledSince kea service w₀ w) :
    w.log = w₀.log ∧ w.file = w₀.file ∨
      w.file = some (reported service w₀.running, kea.fileDigest w₀.running) := by
  obtain ⟨n, hn⟩ := h.wrote
  rw [hn]
  by_cases h0 : n = 0
  · exact .inl (by simp [h0])
  · exact .inr (if_neg h0)

omit [DecidableEq H] in
/-- A `config-write`, executed or not. -/
theorem write (h : SettledSince kea service w₀ w) (n : ℕ) :
    SettledSince kea service w₀ (kea.wrote service w n) := by
  obtain ⟨m, hm⟩ := h.wrote
  refine ⟨⟨m + n, ?_⟩, h.pending, h.nextId⟩
  rw [← Kea.wrote_add, hm]
  rfl

omit [DecidableEq H] in
/-- What stays of a store when no row is made pending. -/
theorem store (h : SettledSince kea service w₀ w) {s : Store H}
    (hpending : ∀ r ∈ s.rows, r.source = .pending → r ∈ w.store.rows)
    (hnext : w.store.nextId ≤ s.nextId) : SettledSince kea service w₀ (w.withStore s) := by
  obtain ⟨n, hn⟩ := h.wrote
  refine ⟨⟨n, ?_⟩, fun r hr hp => h.pending r (hpending r hr hp) hp, h.nextId.trans hnext⟩
  rw [hn]

omit [DecidableEq H] in
/-- A statement on one row. -/
theorem onRow (h : SettledSince kea service w₀ w) {s : Store H} {d : Fate H}
    {p : Row H → Bool} (hpending : ∀ r ∈ s.rows, r.source = .pending → r ∈ w.store.rows)
    (hnext : s.nextId = w.store.nextId) :
    SettledSince kea service w₀ (w.withStore (d.onRow w.store s p).2) := by
  unfold Fate.onRow
  dsimp only
  split_ifs
  · exact h.store hpending hnext.ge
  · exact h

theorem captured (h : SettledSince kea service w₀ w) (d : Fate H) (server : Server)
    (service' : Service) (cfg : Cfg) :
    SettledSince kea service w₀ (w.withStore (d.captured w.store server service' cfg)) := by
  obtain heq | ⟨e, he, -, heq⟩ := captured_eq (d := d) (s := w.store) server service' cfg
  · rw [heq]
    exact h
  · rw [heq]
    exact h.store (fun r hr hp => (pending_record he hp).mp hr) nextId_le_record

end SettledSince

theorem settles_does {w₀ : World H} {o : ApiOp H} (ho : o.settles service) (d : Fate H)
    (h : SettledSince kea service w₀ w) : SettledSince kea service w₀ (kea.does d w o).2 := by
  cases o with
  | cmd server service' command =>
    cases command with
    | configSet body => exact ho.elim
    | configWrite =>
      obtain rfl : service' = service := ho
      simp only [Kea.does, Kea.after]
      split_ifs
      · exact h.write 1
      · exact h
    | _ => exact h
  | readConfigProof server service capture =>
    simp only [Kea.does]
    split
    · split_ifs
      · exact h.captured d server _ _
      · exact h
      · exact h
    · exact h
  | record e =>
    have hmark : recordMark e (d.record w.store e).1 = [] := by
      unfold recordMark
      split
      · rw [if_neg ho]
      · rfl
    simp only [Kea.does, hmark, List.append_nil]
    exact h.store (fun r hr hp => (pending_record ho hp).mp hr) nextId_le_record
  | finish id source sha256 cfg =>
    have hsource : source ≠ .pending := ho
    exact h.onRow (fun r hr hp => Store.of_mem_update (fun e => by exact hsource) hr hp) rfl
  | markDamaged id =>
    have hsource : Source.damaged ≠ .pending := by decide
    exact h.onRow (fun r hr hp => Store.of_mem_update (fun e => by exact hsource) hr hp) rfl
  | discard id => exact h.onRow (fun r hr _ => (Store.mem_keepIf.mp hr).1) rfl
  | discardPending sid service =>
    simp only [Kea.does]
    split_ifs
    · exact h.store (fun r hr _ => (Store.mem_keepIf.mp hr).1) le_rfl
    · exact h
  | _ => exact h

/-! ## A stretch of quiet operations -/

/-- Only quiet operations were called since `w₀`: the daemon, its file, and the rows in flight are as
they were. -/
structure QuietSince (w₀ w : World H) : Prop where
  same : w = w₀.withStore w.store
  pending : ∀ r, r.source = .pending → (r ∈ w.store.rows ↔ r ∈ w₀.store.rows)
  nextId : w₀.store.nextId ≤ w.store.nextId

namespace QuietSince

variable {w₀ : World H}

omit [DecidableEq H] in
theorem refl (w : World H) : QuietSince w w := ⟨rfl, fun _ _ => Iff.rfl, le_rfl⟩

omit [DecidableEq H] in
theorem running (h : QuietSince w₀ w) : w.running = w₀.running := by rw [h.same]

omit [DecidableEq H] in
theorem file (h : QuietSince w₀ w) : w.file = w₀.file := by rw [h.same]

omit [DecidableEq H] in
theorem log (h : QuietSince w₀ w) : w.log = w₀.log := by rw [h.same]

omit [DecidableEq H] in
/-- Quiet operations settle. -/
theorem settled (h : QuietSince w₀ w) : SettledSince kea service w₀ w :=
  ⟨⟨0, by rw [Kea.wrote_zero, ← h.same]⟩, fun r hr hp => (h.pending r hp).mp hr, h.nextId⟩

/-- A record of a settled entry. -/
theorem record (h : QuietSince w₀ w) (d : Fate H) {e : Entry H} (he : e.source ≠ .pending) :
    QuietSince w₀ (w.withStore (d.record w.store e).2) :=
  ⟨by rw [h.same], fun r hr => (pending_record he hr).trans (h.pending r hr),
    h.nextId.trans nextId_le_record⟩

end QuietSince

theorem quiet_does {w₀ : World H} {o : ApiOp H} (ho : o.quiet) (d : Fate H)
    (h : QuietSince w₀ w) : QuietSince w₀ (kea.does d w o).2 := by
  cases o with
  | cmd server service command => cases command <;> first | exact ho.elim | exact h
  | readConfigProof server service capture =>
    simp only [Kea.does]
    split
    · split_ifs
      · obtain heq | ⟨e, he, -, heq⟩ := captured_eq (d := d) (s := w.store) server service _
        · rw [heq]
          exact h
        · rw [heq]
          exact h.record d he
      · exact h
      · exact h
    · exact h
  | record e =>
    have he : e.source ≠ .pending := by
      rw [show e.source = .rendering from ho]
      decide
    have hmark : recordMark e (d.record w.store e).1 = [] := by
      unfold recordMark
      split
      · rw [if_neg he]
      · rfl
    simp only [Kea.does, hmark, List.append_nil]
    exact h.record d he
  | finish => exact ho.elim
  | markDamaged => exact ho.elim
  | discard => exact ho.elim
  | discardPending => exact ho.elim
  | _ => exact h

/-- What holds before a call, and of what the operation does, holds after the call. -/
theorem Kea.host_keeps {P : World H → Prop} {o : ApiOp H} {d : Fate H} (h : P w)
    (hdo : P (kea.does d w o).2) : P (kea.host o d w).2 := by
  unfold Kea.host
  cases d.raises with
  | some e => exact h
  | none => exact hdo

/-- What the operations that a program calls keep, the program keeps. -/
theorem within_ensures {α : Type} {O : ApiOp H → Prop} {P : α → Prop} {K : World H → Prop}
    {p : ApiM H α} (hp : p.Within O P)
    (hkeep : ∀ o d t, O o → K t → K (kea.does d t o).2) (h : K w) :
    kea.Ensures A K p (fun r t => K t ∧ ∀ a, r = .ok a → P a) w :=
  Prog.Within.wp hp (fun o ho c t ht => Kea.host_keeps ht (hkeep o c.1 t ho ht)) h

/-- A program that only settles sends nothing. -/
theorem settles_ensures {α : Type} {p : ApiM H α} (hp : Settles service p) {w₀ : World H}
    (h : SettledSince kea service w₀ w) :
    kea.Ensures A (SettledSince kea service w₀) p (fun _ t => SettledSince kea service w₀ t) w :=
  Prog.wp_mono (fun _ _ ht => ht.1) (within_ensures hp (fun _ d _ ho => settles_does ho d) h)

/-- A program that only settles and returns values in `P`, and what comes after it. -/
theorem settles_within_then {α β : Type} {p : ApiM H α} {f : α → ApiM H β}
    {Q : Except Exc β → World H → Prop} {P : α → Prop} (hp : p.Within (ApiOp.settles service) P)
    {w₀ : World H} (h : SettledSince kea service w₀ w) (hJ : ∀ w', SettledSince kea service w₀ w' → J w')
    (herr : ∀ e w', SettledSince kea service w₀ w' → Q (.error e) w')
    (hok : ∀ a w', P a → SettledSince kea service w₀ w' → kea.Ensures A J (f a) Q w') :
    kea.Ensures A J (p >>= f) Q w := by
  have hends : kea.Ensures A (SettledSince kea service w₀) p
      (fun r t => SettledSince kea service w₀ t ∧ ∀ a, r = .ok a → P a) w :=
    within_ensures hp (fun _ d _ ho => settles_does ho d) h
  refine (Prog.wp_bind _ _ _).mpr (Prog.wp_weaken hJ (Prog.wp_mono ?_ hends))
  rintro (e | a) w' ⟨hw', hP⟩
  · exact herr e w' hw'
  · exact hok a w' (hP a rfl) hw'

/-- A program that only settles, and what comes after it. -/
theorem settles_then {α β : Type} {p : ApiM H α} {f : α → ApiM H β}
    {Q : Except Exc β → World H → Prop} (hp : Settles service p) {w₀ : World H} (h : SettledSince kea service w₀ w)
    (hJ : ∀ w', SettledSince kea service w₀ w' → J w')
    (herr : ∀ e w', SettledSince kea service w₀ w' → Q (.error e) w')
    (hok : ∀ a w', SettledSince kea service w₀ w' → kea.Ensures A J (f a) Q w') :
    kea.Ensures A J (p >>= f) Q w :=
  settles_within_then hp h hJ herr fun a w' _ => hok a w'

omit [DecidableEq H] in
theorem SettledSince.trans {w₀ w₁ : World H} (h : SettledSince kea service w₀ w₁)
    (h' : SettledSince kea service w₁ w) : SettledSince kea service w₀ w := by
  obtain ⟨n, hn⟩ := h'.wrote
  have hwrote := (h.write n).store (s := w.store) h'.pending h'.nextId
  rwa [← hn] at hwrote

/-- A program of quiet operations is quiet. -/
theorem quiet_ensures {α : Type} {p : ApiM H α} (hp : Quiet p) {w₀ : World H}
    (h : QuietSince w₀ w) :
    kea.Ensures A (QuietSince w₀) p (fun _ t => QuietSince w₀ t) w :=
  Prog.wp_mono (fun _ _ ht => ht.1) (within_ensures hp (fun _ d _ ho => quiet_does ho d) h)

/-- A program of quiet operations, and what comes after it. -/
theorem quiet_then {α β : Type} {p : ApiM H α} {f : α → ApiM H β}
    {Q : Except Exc β → World H → Prop} (hp : Quiet p) {w₀ : World H} (h : QuietSince w₀ w)
    (hJ : ∀ w', QuietSince w₀ w' → J w') (herr : ∀ e w', QuietSince w₀ w' → Q (.error e) w')
    (hok : ∀ a w', QuietSince w₀ w' → kea.Ensures A J (f a) Q w') :
    kea.Ensures A J (p >>= f) Q w := by
  refine (Prog.wp_bind _ _ _).mpr (Prog.wp_weaken hJ (Prog.wp_mono ?_ (quiet_ensures hp h)))
  rintro (e | a) w' hw'
  · exact herr e w' hw'
  · exact hok a w' hw'

/-- `config-write` is sent until an answer comes: it is executed some number of times, and at least
once when the answer is yes. -/
theorem sendWrite_ensures {server : Server} (attempts : ℕ) {last : Option (Reply H)} {silent : Bool}
    {Q : Except Exc (Sent H) → World H → Prop} (hlast : last.any Reply.isOk = false)
    (hJ : ∀ n, J (kea.wrote service w n)) (herr : ∀ e n, Q (.error e) (kea.wrote service w n))
    (hok : ∀ (sent : Sent H) n, (sent.ok = true → 0 < n) → Q (.ok sent) (kea.wrote service w n)) :
    kea.Ensures A J (sendWrite server service attempts last silent) Q w := by
  -- the induction counts the executed attempts
  have hgen : ∀ n, kea.Ensures A J (sendWrite server service attempts last silent) Q
      (kea.wrote service w n) := by
    induction attempts generalizing last silent with
    | zero =>
      intro n
      refine hok _ n fun h => ?_
      rw [show (Sent.of last silent).ok = last.any Reply.isOk from rfl, hlast] at h
      cases h
    | succ attempts ih =>
      intro n
      refine (Prog.wp_bind _ _ _).mpr (ask_ensures (hJ n) (fun e => herr e n) fun d _ => ?_)
      have hone : ∀ executed, kea.after (kea.wrote service w n) service executed .configWrite =
          kea.wrote service w (n + if executed then 1 else 0) := by
        intro executed
        rw [← Kea.wrote_add]
        cases executed <;> simp [Kea.after, Kea.wrote]
      simp only [Kea.does, hone, Kea.reply]
      cases d.behaviour with
      | answered => exact ⟨hJ _, hok _ _ fun _ => by simp [Behaviour.executed]⟩
      | lost => exact ⟨hJ _, ih rfl _⟩
      | silent => exact ⟨hJ _, ih rfl _⟩
      | refused =>
        have hne : (if d.code = 0 then 1 else d.code) ≠ 0 := by split_ifs <;> simp_all
        refine ⟨hJ _, ?_⟩
        simpa [Reply.isOk, Reply.answered, hne] using
          hok (.of (some (.kea _ d.text none none)) silent) _ (by simp [Sent.of, Reply.isOk, hne])
  simpa using hgen 0

end JenKea.Api
