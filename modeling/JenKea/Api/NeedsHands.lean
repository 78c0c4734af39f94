import JenKea.Api.Reach

/-!
# A result without hands

`apply` answers not ok in many places, and only some of these answers carry `needs_hands`. This file
proves what the others promise: the daemon runs what it ran before the call, and the call left no
pending row. The writes to the store succeed here; the daemon may do anything with any command.
-/

namespace JenKea.Api

variable {H : Type} {kea : Kea H} {c : Write H} {before : Cfg} {expect h1 : H}
  {planned rowSha : Option H} {pendingId : Option ℕ} {w₀ w : World H}

/-- The daemon runs what it ran at `w₀`, and every pending row was there. -/
structure AsBefore (w₀ w : World H) : Prop where
  running : Json.Same (.obj w.running) (.obj w₀.running)
  pending : ∀ r ∈ w.store.rows, r.source = .pending → r ∈ w₀.store.rows

/-- A result that is not ok and needs no hands left everything as before. -/
def Honest (w₀ : World H) (r : Except Exc (ApiResult H)) (w : World H) : Prop :=
  ∀ x, r = .ok x → x.ok = false → x.needsHands = false → AsBefore w₀ w

/-- Every pending row was there at `w₀`, or is the row of the call. -/
def OnlyOwnRow (w₀ : World H) (pendingId : Option ℕ) (w : World H) : Prop :=
  ∀ r ∈ w.store.rows, r.source = .pending → r ∈ w₀.store.rows ∨ pendingId = some r.id

theorem SettledSince.asBefore (h : SettledSince kea c.service w₀ w) : AsBefore w₀ w :=
  ⟨by rw [Json.Same, h.running], h.pending⟩

theorem SettledSince.honest (h : SettledSince kea c.service w₀ w) (r : Except Exc (ApiResult H)) :
    Honest w₀ r w := fun _ _ _ _ => h.asBefore

theorem Honest.error (e : Exc) : Honest w₀ (.error e) w := nofun

/-- A result with hands promises nothing. -/
theorem Honest.hands {x : ApiResult H} (h : x.needsHands = true) : Honest w₀ (.ok x) w := by
  intro y hy _ hhands
  rw [← Except.ok.inj hy, h] at hhands
  cases hhands

theorem OnlyOwnRow.quiet {w' : World H} (h : OnlyOwnRow w₀ pendingId w) (hq : QuietSince w w') :
    OnlyOwnRow w₀ pendingId w' := fun r hr hp => h r ((hq.pending r hp).mp hr) hp

/-- The store is the same. -/
theorem OnlyOwnRow.of_store {w' : World H} (h : OnlyOwnRow w₀ pendingId w)
    (hs : w'.store = w.store) : OnlyOwnRow w₀ pendingId w' := by
  unfold OnlyOwnRow
  rw [hs]
  exact h

/-- The results of a program are ok, or need hands. -/
abbrev OkOrHands (p : ApiM H (ApiResult H)) : Prop :=
  p.Within (fun _ => True) fun r => r.ok ∨ r.needsHands

/-- What the guards of a call establish: `expect` is the digest of what the daemon ran, and of the
configuration that the change was built from. -/
structure Guarded (kea : Kea H) (c : Write H) (before : Cfg) (expect : H) (w₀ : World H) :
    Prop where
  running : kea.digest (.obj w₀.running) = expect
  before : kea.digest (sectionOf (some before) c.service) = expect

theorem Guarded.same_of_digest (g : Guarded kea c before expect w₀)
    (h : kea.digest (.obj w.running) = expect) : Json.Same (.obj w.running) (.obj w₀.running) :=
  kea.digest_inj (h.trans g.running.symm)

theorem Guarded.same_of_before (g : Guarded kea c before expect w₀)
    (h : Json.Same (.obj w.running) (sectionOf (some before) c.service)) :
    Json.Same (.obj w.running) (.obj w₀.running) :=
  h.trans (kea.digest_inj (g.before.trans g.running.symm))

variable [DecidableEq H]

/-- The writes to the store succeed. -/
def StoreWorks (d : Fate H) : Prop := d.stored = .done

/-- Whatever the environment decides, as long as the store works, `Q` holds at the end. -/
abbrev Kea.Gives {α : Type} (kea : Kea H) (p : ApiM H α) (Q : Except Exc α → World H → Prop)
    (w : World H) : Prop :=
  kea.Ensures StoreWorks (fun _ => True) p Q w

theorem OkOrHands.honest {p : ApiM H (ApiResult H)} (hp : OkOrHands p) :
    kea.Gives p (Honest w₀) w := by
  refine Prog.wp_mono (fun r t ht x hx hok hhands => ?_)
    (Prog.Within.wp hp (fun _ _ _ _ _ => trivial) trivial)
  have := ht.2 x hx
  simp [hok, hhands] at this

/-- The row of the call is dropped. -/
theorem dropPending_gives {Q : Except Exc Unit → World H → Prop} (h : OnlyOwnRow w₀ pendingId w)
    (hraise : ∀ e, Q (.error e) w)
    (hdone : ∀ w', w'.running = w.running →
      (∀ r ∈ w'.store.rows, r.source = .pending → r ∈ w₀.store.rows) → Q (.ok ()) w') :
    kea.Gives (dropPending pendingId) Q w := by
  unfold dropPending
  cases pendingId with
  | none => exact hdone w rfl fun r hr hp => (h r hr hp).resolve_right (by simp)
  | some id =>
    refine (Prog.wp_bind _ _ _).mpr (ask_ensures trivial hraise fun d hd => ⟨trivial, ?_⟩)
    refine hdone _ rfl fun r hr hp => ?_
    have hstored : d.stored = .done := hd
    simp only [Kea.does, Fate.onRow, hstored, Stored.happens, if_true] at hr
    obtain ⟨hr, hid⟩ := Store.mem_keepIf.mp hr
    refine (h r hr hp).resolve_right fun heq => ?_
    rw [Option.some.inj heq] at hid
    simp at hid

theorem dropped_gives (h : OnlyOwnRow w₀ pendingId w)
    (hsame : Json.Same (.obj w.running) (.obj w₀.running)) (r : ApiResult H) :
    kea.Gives (dropped pendingId r) (Honest w₀) w := by
  refine (Prog.wp_bind _ _ _).mpr (dropPending_gives h Honest.error fun w' hrun hrows => ?_)
  exact fun _ _ _ _ => ⟨by rw [Json.Same, hrun]; exact hsame, hrows⟩

theorem droppedUnlessHands_gives (h : OnlyOwnRow w₀ pendingId w) {r : ApiResult H}
    (hsame : r.needsHands = false → Json.Same (.obj w.running) (.obj w₀.running)) :
    kea.Gives (droppedUnlessHands pendingId r) (Honest w₀) w := by
  unfold droppedUnlessHands
  cases hr : r.needsHands with
  | true => exact Honest.hands hr
  | false => exact dropped_gives h (hsame hr) r

/-! ## After the set -/

variable [ToString H]

omit [DecidableEq H] in
theorem applyFinish_hands {got : Cfg} {rawSha : Option H} {note : String} :
    OkOrHands (applyFinish c expect h1 got pendingId rawSha note) := by
  have hfinish : (finishPending c h1 got pendingId).Within (fun _ => True) fun _ => True := by
    unfold finishPending
    split
    · refine within_ask_bind trivial fun finished => ?_
      split_ifs
      · trivial
      · exact within_ask_bind trivial fun _ => trivial
    · trivial
  refine within_bind hfinish fun finished => within_bind ?_ fun note => ?_
  · exact Prog.Within.mono noteRendering_quiet (fun _ _ => trivial) fun _ _ => trivial
  · split_ifs
    · exact .inr rfl
    · exact .inl rfl

omit [ToString H] in
theorem fileReadBack_hands {got : Cfg} {unwritten : String} :
    (fileReadBack c expect h1 planned got unwritten).Within (fun _ => True)
      fun x => ∀ r, x = .inr r → r.needsHands = true := by
  unfold fileReadBack
  split
  · refine within_ask_bind trivial fun read => ?_
    split
    · split_ifs
      · exact nofun
      · rintro r ⟨rfl⟩
        rfl
    · split_ifs
      · rintro r ⟨rfl⟩
        rfl
      · exact nofun
  · split_ifs
    · rintro r ⟨rfl⟩
      rfl
    · exact nofun

theorem applyVerify_hands {unwritten : String} :
    OkOrHands (applyVerify c expect h1 planned pendingId unwritten) := by
  refine within_bind ?_ fun got => ?_
  · exact Prog.Within.mono get_quiet (fun _ _ => trivial) fun _ _ => trivial
  · split
    · exact .inr rfl
    · split_ifs
      · exact .inr rfl
      · refine fileReadBack_hands.bind fun read hread => ?_
        split
        · exact .inr (hread _ rfl)
        · exact applyFinish_hands

/-- A refused `config-write`: only an undo that the daemon proved drops the row. -/
theorem applyRefused_gives (g : Guarded kea c before expect w₀) (h : OnlyOwnRow w₀ pendingId w)
    (sent : Sent H) :
    kea.Gives (applyRefused c before expect h1 pendingId sent) (Honest w₀) w := by
  unfold applyRefused
  refine (Prog.wp_bind _ _ _).mpr (ask_ensures trivial Honest.error fun d _ => ⟨trivial, ?_⟩)
  refine (Prog.wp_bind _ _ _).mpr (undo_ensures (fun _ _ _ => trivial)
    (fun e _ _ _ => Honest.error e) (fun w' _ _ => ?_) fun w' hs _ hback => ?_)
  · simpa using Honest.hands rfl
  · have hsame : Json.Same (.obj w'.running) (.obj w₀.running) :=
      hback.elim g.same_of_digest g.same_of_before
    cases hmaybe : sent.maybe with
    | true => simpa [hmaybe] using Honest.hands rfl
    | false => simpa [hmaybe] using dropped_gives (h.of_store hs) hsame _

theorem applyWrite_gives (g : Guarded kea c before expect w₀) (h : OnlyOwnRow w₀ pendingId w) :
    kea.Gives (applyWrite c before expect h1 planned pendingId) (Honest w₀) w := by
  refine (Prog.wp_bind _ _ _).mpr (sendWrite_ensures writeAttempts rfl (fun _ => trivial)
    (fun e _ => Honest.error e) fun sent n _ => ?_)
  have hwrote : OnlyOwnRow w₀ pendingId (kea.wrote c.service w n) := h.of_store rfl
  dsimp only
  split_ifs
  · exact applyVerify_hands.honest
  · exact applyRefused_gives g hwrote sent
  · exact applyVerify_hands.honest

theorem applyFile_gives (g : Guarded kea c before expect w₀) (h : OnlyOwnRow w₀ pendingId w) :
    kea.Gives (applyFile c before expect h1 planned pendingId) (Honest w₀) w := by
  unfold applyFile
  split_ifs
  · refine quiet_then askTheFile_quiet (.refl w) (fun _ _ => trivial) (fun e _ _ => Honest.error e)
      fun asked w' hq => ?_
    split
    · exact Honest.hands rfl
    · exact applyWrite_gives g (h.quiet hq)
  · exact applyWrite_gives g h

/-! ## The set -/

theorem afterASetFailure_gives (g : Guarded kea c before expect w₀)
    (h : OnlyOwnRow w₀ pendingId w) (reply : Reply H) :
    kea.Gives (afterASetFailure c.server c.service expect reply >>= droppedUnlessHands pendingId)
      (Honest w₀) w := by
  refine (Prog.wp_bind _ _ _).mpr ((Prog.wp_bind _ _ _).mpr
    (hashOf_ensures trivial Honest.error ?_ ?_))
  · exact droppedUnlessHands_gives h nofun
  · dsimp only
    split_ifs with hexpect
    · exact droppedUnlessHands_gives h fun _ => g.same_of_digest hexpect
    · exact droppedUnlessHands_gives h nofun

theorem afterASetWithoutAnAnswer_gives (g : Guarded kea c before expect w₀)
    (h : OnlyOwnRow w₀ pendingId w) :
    kea.Gives (afterASetWithoutAnAnswer c.server c.service c.cfg before expect >>=
      applyAsked c before expect planned pendingId) (Honest w₀) w := by
  refine (Prog.wp_bind _ _ _).mpr ((Prog.wp_bind _ _ _).mpr
    (get_ensures trivial Honest.error (fun why => ?_) ?_))
  · exact droppedUnlessHands_gives h (by rintro ⟨⟩)
  · dsimp only
    split_ifs with hsame
    · refine droppedUnlessHands_gives h fun _ => g.same_of_before ?_
      simpa [sameSection, sectionOf_reported] using hsame
    · exact applyFile_gives g h
    · exact droppedUnlessHands_gives h (by rintro ⟨⟩)

/-- Whatever happened to the set, what comes after it is honest. -/
theorem applySet_gives (g : Guarded kea c before expect w₀) (h : OnlyOwnRow w₀ pendingId w) :
    kea.Gives (applySet c before expect planned pendingId) (Honest w₀) w := by
  unfold applySet
  refine (Prog.wp_bind _ _ _).mpr ((Prog.wp_ofExcept _ _).mpr ?_)
  cases hb : body c.cfg c.service with
  | error e => exact Honest.error e
  | ok b =>
    obtain ⟨sec, -, hsec⟩ := body_ok hb
    have hunknown : ∀ (reply : Reply H) (w' : World H), reply.answered = false →
        w'.store = w.store →
        kea.Gives (applyReplied c before expect planned pendingId reply) (Honest w₀) w' := by
      intro reply w' ha hs
      have hok : reply.isOk = false := by cases reply <;> simp_all [Reply.isOk, Reply.answered]
      simpa [applyReplied, ha, hok] using afterASetWithoutAnAnswer_gives g (h.of_store hs)
    refine (Prog.wp_bind _ _ _).mpr (configSet_ensures hsec trivial Honest.error trivial trivial
      (fun reply hok _ => ?_) (fun reply ha => hunknown reply _ ha rfl)
      (fun reply ha => hunknown reply _ ha rfl) fun reply ha hok => ?_)
    · have hstore : OnlyOwnRow w₀ pendingId (kea.took w sec) := h.of_store rfl
      dsimp only
      unfold applyReplied
      rw [if_pos hok]
      refine quiet_then setDigest_quiet (.refl _) (fun _ _ => trivial) (fun e _ _ => Honest.error e)
        fun digest w' hq => ?_
      cases digest with
      | none => exact Honest.hands rfl
      | some h1 => exact applyFile_gives g (hstore.quiet hq)
    · have hstore : OnlyOwnRow w₀ pendingId (w.missed sec) := h.of_store rfl
      simpa [applyReplied, ha, hok] using afterASetFailure_gives g hstore reply

/-! ## Up to the set -/

/-- When the daemon ran what `expect` is the digest of, so does the configuration that the change was
built from. -/
abbrev BeforeHas (kea : Kea H) (c : Write H) (before : Cfg) (expect : H) (w₀ : World H) : Prop :=
  kea.digest (.obj w₀.running) = expect → kea.digest (sectionOf (some before) c.service) = expect

/-- The compare establishes `Guarded`: the daemon still runs what it ran, and its digest is the one
of the configuration that this change was built from. -/
theorem applyCompared_gives (hbefore : BeforeHas kea c before expect w₀) (h : OnlyOwnRow w₀ pendingId w) (hrunning : w.running = w₀.running) :
    kea.Gives (applyCompared c before expect planned pendingId) (Honest w₀) w := by
  have hsame : Json.Same (.obj w.running) (.obj w₀.running) := by rw [Json.Same, hrunning]
  refine (Prog.wp_bind _ _ _).mpr (hashOf_ensures trivial Honest.error ?_ ?_)
  · exact dropped_gives h hsame _
  · dsimp only
    split_ifs with hexpect
    · exact dropped_gives h hsame _
    · rw [not_not, hrunning] at hexpect
      exact applySet_gives ⟨hexpect, hbefore hexpect⟩ h

theorem applyRecorded_gives (hbefore : BeforeHas kea c before expect w₀) (h : SettledSince kea c.service w₀ w) :
    kea.Gives (applyRecorded c before expect planned rowSha) (Honest w₀) w := by
  unfold applyRecorded
  split
  · exact applyCompared_gives hbefore (fun r hr hp => .inl (h.pending r hr hp)) h.running
  · next sid _ =>
    refine (Prog.wp_bind _ _ _).mpr ((Prog.wp_handle _ _ _).mpr
      (ask_ensures trivial (fun e => h.honest _) fun d hd => ⟨trivial, ?_⟩))
    have hstored : d.stored = .done := hd
    simp only [Kea.does]
    cases hid : (d.record w.store (pendingEntry c sid expect rowSha)).1 with
    | none =>
      -- the store works, so the record was refused and left the store alone
      rw [record_refused hstored hid]
      exact fun _ _ _ _ => ⟨by rw [Json.Same, h.running], h.pending⟩
    | some id =>
      refine applyCompared_gives hbefore (fun r hr hp => ?_) h.running
      exact (mem_record hid hr).imp (fun hr => h.pending r hr hp) fun hid => by rw [hid]

theorem apply_gives (hbefore : ∀ b e, c.beforeCfg = some b → c.expectHash = some e →
      e = kea.digest (sectionOf (some b) c.service)) :
    kea.Gives (apply c) (Honest w) w := by
  refine apply_ensures (fun _ _ => trivial) (fun r t h _ => h.honest r)
    fun expect planned rowSha t h => applyRecorded_gives (fun hrun => ?_) h.settled
  cases hb : c.beforeCfg with
  | none => rw [sectionOf_builtFrom hb, hrun]
  | some b =>
    -- the caller's own configuration, with its digest
    obtain ⟨e, he⟩ := Option.isSome_iff_exists.mp (h.reached.given (by rw [hb]; rfl))
    have hexpect : e = expect := by simpa [he] using h.reached.expect
    rw [builtFrom_eq hb, ← hbefore b e hb he, hexpect]

/-- A call of `apply` that answers not ok and needs no hands leaves the daemon running what it ran
and no pending row of its own: for every server, candidate, and daemon, whatever happens to every
command, as long as the writes to the store succeed and a configuration that the caller read comes
with its digest. -/
theorem apply_without_hands (kea : Kea H) (c : Write H) (running : Cfg) (file : Option (Cfg × H))
    (store : Store H) (fates : ℕ → Fate H)
    (hbefore : ∀ b e, c.beforeCfg = some b → c.expectHash = some e →
      e = kea.digest (sectionOf (some b) c.service))
    (hstore : ∀ n, StoreWorks (fates n)) {r : ApiResult H}
    (hr : ((apply c).run kea.host fates ⟨running, file, store, []⟩).result = .ok r)
    (hok : r.ok = false) (hhands : r.needsHands = false) :
    AsBefore ⟨running, file, store, []⟩
      ((apply c).run kea.host fates ⟨running, file, store, []⟩).state :=
  (Prog.wp_under_sound (apply_gives hbefore) fates hstore).1 r hr hok hhands

/-- A daemon that refuses a set of the empty section. -/
def refusedSet : Write ExactDigest where
  server := { id := some 1, name := "kea1" }
  service := .dhcp4
  cfg := [("Dhcp4", .obj [])]
  expectHash := some (Kea.exact.digest (.obj [("valid-lifetime", .int 3600)]))
  summary := "a change"
  beforeCfg := some [("Dhcp4", .obj [("valid-lifetime", .int 3600)])]

/-- The ninth call is the set. -/
def refusedFates (n : ℕ) : Fate ExactDigest :=
  { behaviour := if n = 8 then .refused else .answered }

theorem apply_without_hands_refusedSet :
    AsBefore ⟨[("valid-lifetime", .int 3600)], none, .empty, []⟩
      ((apply refusedSet).run Kea.exact.host refusedFates
        ⟨[("valid-lifetime", .int 3600)], none, .empty, []⟩).state := by
  refine apply_without_hands Kea.exact refusedSet _ none .empty refusedFates ?_ (fun n => rfl) rfl
    rfl rfl
  rintro b e hb he
  rw [← Option.some.inj hb, ← Option.some.inj he]
  rfl

end JenKea.Api
