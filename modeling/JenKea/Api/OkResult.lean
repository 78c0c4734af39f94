import JenKea.Api.Reach

/-!
# What an ok result says

An ok result of `apply` comes after a `config-set` and a `config-write` that the daemon executed,
with two exceptions. A set that got no answer goes on when the daemon does not run the configuration
from before, as the caller gave it, and runs one that carries the candidate. A write that got no
answer goes on when what runs carries the file, and the file is not the one that the call rests on.
This file proves that there are no others.
-/

namespace JenKea.Api

variable {H : Type} {kea : Kea H} {c : Write H} {before : Cfg} {expect h1 : H}
  {planned rowSha : Option H} {pendingId : Option ℕ} {w₀ w : World H}

/-- The daemon executed a set of the candidate, and runs it. -/
def Took (kea : Kea H) (c : Write H) (w : World H) : Prop :=
  ∃ sec, Json.lookup ((serviceKey c.service).getD "") c.cfg = some sec ∧ .set sec ∈ w.log ∧
    w.running = kea.render sec

/-- The calls that take a set that was lost for one that was executed: the caller's digest is the
daemon's, the caller's configuration is not what the daemon runs, and what the daemon runs carries
the candidate. -/
structure Slips (kea : Kea H) (c : Write H) (running : Cfg) : Prop where
  sends : Sends kea c running
  section_ : (Json.lookup ((serviceKey c.service).getD "") c.cfg).isSome
  before : ∃ b, c.beforeCfg = some b ∧
    ¬ Json.Same (.obj running) (sectionOf (some b) c.service)
  carried : carries (.obj running) (sectionOf (some c.cfg) c.service) = true

/-- The daemon executed a `config-write` after the set was sent, and the file is what it runs. -/
structure Written (kea : Kea H) (c : Write H) (w : World H) : Prop where
  wrote : ∃ sec, [.sent sec, .wrote].Sublist w.log
  file : w.file = some (reported c.service w.running, kea.fileDigest w.running)

/-- The file from before the set passes for the written one: what runs carries it, and it is not the
one that the call rests on. -/
def Passes (c : Write H) (file : Option (Cfg × H)) (planned : Option H) (running : Cfg) : Prop :=
  c.server.hasSsh = true ∧ ∃ f, file = some f ∧
    carries (.obj running) (sectionOf (some f.1) c.service) = true ∧ planned ≠ some f.2

/-- What an ok result says of the daemon and its file, of a call that found the daemon running
`running`, and the file `file` when it sent its set. -/
structure Accepted (kea : Kea H) (c : Write H) (running : Cfg) (file : Option (Cfg × H))
    (planned : Option H) (w : World H) : Prop where
  sends : Sends kea c running
  set : Took kea c w ∨ Slips kea c running ∧ w.running = running
  write : Written kea c w ∨ Passes c file planned w.running

theorem Took.settled {w' : World H} (h : Took kea c w) (hs : SettledSince kea c.service w w') :
    Took kea c w' := by
  obtain ⟨sec, hsec, hset, hrun⟩ := h
  obtain ⟨more, hlog, -⟩ := hs.log
  exact ⟨sec, hsec, hlog ▸ List.mem_append_left _ hset, hs.running.trans hrun⟩

theorem Written.settled {w' : World H} (h : Written kea c w)
    (hs : SettledSince kea c.service w w') : Written kea c w' := by
  obtain ⟨sec, hwrote⟩ := h.wrote
  obtain ⟨more, hlog, -⟩ := hs.log
  refine ⟨⟨sec, hlog ▸ hwrote.trans (List.sublist_append_left _ _)⟩, ?_⟩
  rw [hs.running]
  rcases hs.file with ⟨-, hfile⟩ | hfile
  · exact hfile.trans h.file
  · exact hfile

/-- A `config-write` that was executed after the set was sent. -/
theorem written_of_wrote {sec : Json} {n : ℕ} (hn : 0 < n) (hsent : .sent sec ∈ w.log) :
    Written kea c (kea.wrote c.service w n) := by
  refine ⟨⟨sec, ?_⟩, if_neg (by omega)⟩
  have hlast : [Mark.wrote].Sublist (List.replicate n .wrote) :=
    List.singleton_sublist.mpr (List.mem_replicate.mpr ⟨by omega, rfl⟩)
  exact (List.singleton_sublist.mpr hsent).append hlast

/-- A result that is ok comes with `P`. -/
def OkOnly (P : World H → Prop) (r : Except Exc (ApiResult H)) (w : World H) : Prop :=
  ∀ x, r = .ok x → x.ok = true → P w

theorem OkOnly.error {P : World H → Prop} (e : Exc) : OkOnly P (.error e) w := nofun

theorem Stops.okOnly {P : World H → Prop} {r : Except Exc (ApiResult H)} (h : Stops r) :
    OkOnly P r w := by
  intro x hx hok
  rw [h x hx] at hok
  cases hok

theorem OkOnly.of_not {P : World H → Prop} {x : ApiResult H} (h : x.ok = false) :
    OkOnly P (.ok x) w := Stops.okOnly fun _ hy => Except.ok.inj hy ▸ h

variable [DecidableEq H] [ToString H]

/-- Whatever the environment decides, an ok result comes with `P`. -/
abbrev Kea.OkGives (kea : Kea H) (P : World H → Prop) (p : ApiM H (ApiResult H)) (w : World H) :
    Prop :=
  kea.Ensures (fun _ => True) (fun _ => True) p (OkOnly P) w

/-- A program that is never ok. -/
abbrev NeverOk (p : ApiM H (ApiResult H)) : Prop :=
  p.Within (fun _ => True) fun r => r.ok = false

omit [ToString H] in
theorem NeverOk.gives {P : World H → Prop} {p : ApiM H (ApiResult H)} (h : NeverOk p) :
    kea.OkGives P p w :=
  Prog.wp_mono (fun _ _ ht x hx hok => by rw [ht.2 x hx] at hok; cases hok)
    (within_ensures h (fun _ _ _ _ _ => trivial) trivial)

/-! ## The ways out -/

omit [DecidableEq H] [ToString H] in
theorem dropped_neverOk {x : ApiResult H} (hx : x.ok = false) : NeverOk (dropped pendingId x) :=
  within_bind (Prog.within_true _) fun _ => hx

omit [DecidableEq H] [ToString H] in
theorem droppedUnlessHands_neverOk {x : ApiResult H} (hx : x.ok = false) :
    NeverOk (droppedUnlessHands pendingId x) := by
  unfold droppedUnlessHands
  split_ifs
  · exact hx
  · exact dropped_neverOk hx

omit [ToString H] in
theorem applyRefused_neverOk {sent : Sent H} :
    NeverOk (applyRefused c before expect h1 pendingId sent) := by
  refine within_bind (Prog.within_true _) fun _ => within_bind (Prog.within_true _) fun back => ?_
  split_ifs
  · exact rfl
  · exact dropped_neverOk rfl
  · exact rfl

theorem afterASetFailure_neverOk {reply : Reply H} :
    NeverOk (afterASetFailure c.server c.service expect reply) := by
  refine within_bind (Prog.within_true _) fun now => ?_
  split
  · exact rfl
  · split_ifs <;> exact rfl

/-! ## From the file on -/

/-- What ran stays, and what was marked; and the file is the written one, or passes for it. -/
def FileStands (kea : Kea H) (c : Write H) (planned : Option H) (w t : World H) : Prop :=
  t.running = w.running ∧ w.log <+: t.log ∧ (Written kea c t ∨ Passes c w.file planned w.running)

omit [DecidableEq H] [ToString H] in
theorem SettledSince.log_prefix {service : Service} (h : SettledSince kea service w₀ w) :
    w₀.log <+: w.log := by
  obtain ⟨more, hlog, -⟩ := h.log
  exact ⟨more, hlog.symm⟩

/-- The steps after a `config-write`, of a file that is written. -/
theorem applyVerify_written (h : Written kea c w) {unwritten : String} :
    kea.OkGives (fun t => t.running = w.running ∧ w.log <+: t.log ∧ Written kea c t)
      (applyVerify c expect h1 planned pendingId unwritten) w :=
  Prog.wp_forget (Prog.wp_mono
    (fun _ _ hs _ _ _ => ⟨hs.running, hs.log_prefix, h.settled hs⟩)
    (settles_ensures applyVerify_settles (.refl w)))

/-- The steps after a `config-write` that got no answer: the file is read back. -/
theorem applyVerify_passes {unwritten : String} (hne : unwritten ≠ "") :
    kea.OkGives (fun t => t.running = w.running ∧ w.log <+: t.log ∧
        Passes c w.file planned w.running)
      (applyVerify c expect h1 planned pendingId unwritten) w := by
  have hno : ∀ (x : ApiResult H), x.ok = false → OkOnly (fun t => t.running = w.running ∧
      w.log <+: t.log ∧ Passes c w.file planned w.running) (.ok x) w := fun x => OkOnly.of_not
  refine (Prog.wp_bind _ _ _).mpr (get_ensures trivial OkOnly.error
    (fun why => OkOnly.of_not rfl) ?_)
  dsimp only
  split_ifs
  · exact OkOnly.of_not rfl
  unfold fileReadBack
  refine (Prog.wp_bind _ _ _).mpr ?_
  split
  · next hssh =>
    refine (Prog.wp_bind _ _ _).mpr (ask_ensures trivial OkOnly.error fun d _ => ⟨trivial, ?_⟩)
    simp only [Kea.does]
    split
    · -- a file that cannot be read is not taken for the written one
      exact hno (fileReadBack.notCarried c expect h1 unwritten) rfl
    · next file rawSha hread =>
      split
      · exact hno (fileReadBack.notCarried c expect h1 unwritten) rfl
      · next hcarried =>
        rw [not_or, Bool.not_eq_true', Bool.not_eq_false] at hcarried
        have hfile : w.file = some (file, rawSha) := by
          split at hread
          · exact hread
          · cases hread
        have hpasses : Passes c w.file planned w.running := by
          have hsec : sectionOf (some (reported c.service w.running)) c.service = .obj w.running :=
            sectionOf_reported w.running
          refine ⟨hssh, (file, rawSha), hfile, ?_, fun heq => hcarried.2 ⟨hne, heq⟩⟩
          rw [← hsec]
          exact hcarried.1
        have hfinish : kea.OkGives (fun t => t.running = w.running ∧ w.log <+: t.log ∧
            Passes c w.file planned w.running) (applyFinish c expect h1
              (reported c.service w.running) pendingId (some rawSha) "") w :=
          Prog.wp_forget (Prog.wp_mono
            (fun _ _ hs _ _ _ => ⟨hs.running, hs.log_prefix, hpasses⟩)
            (settles_ensures applyFinish_settles (.refl w)))
        exact hfinish
  · exact hno (unproved "unverified" _ none (some h1)) rfl

theorem applyFile_stands {sec : Json} (hsent : .sent sec ∈ w.log) :
    kea.OkGives (FileStands kea c planned w) (applyFile c before expect h1 planned pendingId) w := by
  have hwrite : ∀ w', QuietSince w w' → kea.OkGives (FileStands kea c planned w)
      (applyWrite c before expect h1 planned pendingId) w' := by
    intro w' hq
    have hlog : w.log <+: w'.log := hq.log ▸ List.prefix_refl _
    have hverify : ∀ n unwritten, (n = 0 → unwritten ≠ "") →
        kea.OkGives (FileStands kea c planned w)
          (applyVerify c expect h1 planned pendingId unwritten) (kea.wrote c.service w' n) := by
      intro n unwritten hne
      rcases Nat.eq_zero_or_pos n with rfl | hn
      · rw [Kea.wrote_zero]
        refine Prog.wp_mono (fun _ t ht x hx hok => ?_) (applyVerify_passes (hne rfl))
        obtain ⟨hrun, hpre, hpasses⟩ := ht x hx hok
        rw [hq.file, hq.running] at hpasses
        exact ⟨hrun.trans hq.running, hlog.trans hpre, .inr hpasses⟩
      · have hwritten : Written kea c (kea.wrote c.service w' n) :=
          written_of_wrote hn (hlog.subset hsent)
        refine Prog.wp_mono (fun _ t ht x hx hok => ?_) (applyVerify_written hwritten)
        obtain ⟨hrun, hpre, hw⟩ := ht x hx hok
        exact ⟨hrun.trans hq.running, (hlog.trans (List.prefix_append _ _)).trans hpre, .inl hw⟩
    refine (Prog.wp_bind _ _ _).mpr (sendWrite_ensures writeAttempts rfl (fun _ => trivial)
      (fun e _ => OkOnly.error e) fun sent n hn => ?_)
    dsimp only
    split_ifs with hok
    · exact hverify n _ fun h0 => absurd (hn hok) (by omega)
    · exact applyRefused_neverOk.gives
    · exact hverify n _ fun _ => by decide
  unfold applyFile
  split_ifs
  · refine quiet_then askTheFile_quiet (.refl w) (fun _ _ => trivial) (fun e _ _ => OkOnly.error e)
      fun asked w' hq => ?_
    split
    · exact OkOnly.of_not rfl
    · exact hwrite w' hq
  · exact hwrite w (.refl w)

/-! ## The set -/

variable {running : Cfg} {file : Option (Cfg × H)}

omit [DecidableEq H] [ToString H] in
theorem FileStands.accepted {t : World H} (h : FileStands kea c planned w t)
    (g : Sends kea c running) (hset : Took kea c w ∨ Slips kea c running ∧ w.running = running) (hfile : w.file = file) :
    Accepted kea c running file planned t := by
  obtain ⟨hrun, hlog, hwrite⟩ := h
  refine ⟨g, ?_, ?_⟩
  · rcases hset with ⟨sec, hsec, hset, htook⟩ | ⟨hslips, hsame⟩
    · exact .inl ⟨sec, hsec, hlog.subset hset, hrun.trans htook⟩
    · exact .inr ⟨hslips, hrun.trans hsame⟩
  · rwa [hrun, ← hfile]

theorem applyFile_accepts {sec : Json} (g : Sends kea c running) (hsent : .sent sec ∈ w.log)
    (hset : Took kea c w ∨ Slips kea c running ∧ w.running = running) (hfile : w.file = file) :
    kea.OkGives (Accepted kea c running file planned)
      (applyFile c before expect h1 planned pendingId) w :=
  Prog.wp_mono (fun _ _ ht x hx hok => (ht x hx hok).accepted g hset hfile) (applyFile_stands hsent)

/-- A set that the daemon did not execute goes on only in a call that slips. -/
theorem afterASetWithoutAnAnswer_accepts (g : Sends kea c running)
    (hbefore : before = builtFrom c running)
    (hcfg : (Json.lookup ((serviceKey c.service).getD "") c.cfg).isSome) {sec : Json}
    (hsent : .sent sec ∈ w.log) (h : Took kea c w ∨ w.running = running) (hfile : w.file = file) :
    kea.OkGives (Accepted kea c running file planned)
      (afterASetWithoutAnAnswer c.server c.service c.cfg before expect >>=
        applyAsked c before expect planned pendingId) w := by
  refine (Prog.wp_bind _ _ _).mpr ((Prog.wp_bind _ _ _).mpr
    (get_ensures trivial OkOnly.error (fun why => ?_) ?_))
  · exact (droppedUnlessHands_neverOk rfl).gives
  · dsimp only
    split_ifs with hsame hcarries
    · exact (droppedUnlessHands_neverOk rfl).gives
    · refine applyFile_accepts g hsent (h.imp_right fun hrun => ⟨?_, hrun⟩) hfile
      rw [sectionOf_reported, hrun] at hcarries
      have hdiffers : ¬ Json.Same (.obj running) (sectionOf (some before) c.service) := by
        simpa [sameSection, sectionOf_reported, hrun] using hsame
      cases hb : c.beforeCfg with
      | none =>
        rw [hbefore, sectionOf_builtFrom hb] at hdiffers
        exact absurd rfl hdiffers
      | some b =>
        rw [hbefore, builtFrom_eq hb] at hdiffers
        exact ⟨g, hcfg, ⟨b, hb, hdiffers⟩, hcarries⟩
    · exact (droppedUnlessHands_neverOk rfl).gives

theorem applySet_accepts (g : Sends kea c running) (hbefore : before = builtFrom c running)
    (hrun : w.running = running) (hfile : w.file = file) :
    kea.OkGives (Accepted kea c running file planned)
      (applySet c before expect planned pendingId) w := by
  unfold applySet
  refine (Prog.wp_bind _ _ _).mpr ((Prog.wp_ofExcept _ _).mpr ?_)
  cases hb : body c.cfg c.service with
  | error e => exact OkOnly.error e
  | ok b =>
    obtain ⟨sec, hcfg, hsec⟩ := body_ok hb
    have htook : Took kea c (kea.took w sec) := ⟨sec, hcfg, by simp [Kea.took], rfl⟩
    have hsent : .sent sec ∈ (kea.took w sec).log := by simp [Kea.took]
    have hsent' : .sent sec ∈ (w.missed sec).log := by simp [World.missed]
    have hunknown : ∀ (reply : Reply H) (w' : World H), reply.answered = false →
        .sent sec ∈ w'.log → Took kea c w' ∨ w'.running = running → w'.file = file →
        kea.OkGives (Accepted kea c running file planned)
          (applyReplied c before expect planned pendingId reply) w' := by
      intro reply w' ha hs hw' hf
      have hok : reply.isOk = false := by cases reply <;> simp_all [Reply.isOk, Reply.answered]
      simpa [applyReplied, ha, hok] using
        afterASetWithoutAnAnswer_accepts g hbefore (by rw [hcfg]; rfl) hs hw' hf
    refine (Prog.wp_bind _ _ _).mpr (configSet_ensures hsec trivial OkOnly.error trivial trivial
      (fun reply hok _ => ?_) (fun reply ha => hunknown reply _ ha hsent (.inl htook) hfile)
      (fun reply ha => hunknown reply _ ha hsent' (.inr hrun) hfile) fun reply ha hok => ?_)
    · dsimp only
      unfold applyReplied
      rw [if_pos hok]
      refine quiet_then setDigest_quiet (.refl _) (fun _ _ => trivial)
        (fun e _ _ => OkOnly.error e) fun digest w' hq => ?_
      cases digest with
      | none => exact OkOnly.of_not rfl
      | some h1 =>
        refine applyFile_accepts g (hq.log ▸ hsent) (.inl ?_) (hq.file.trans hfile)
        exact ⟨sec, hcfg, by rw [hq.log]; simp [Kea.took], hq.running⟩
    · have hnever : NeverOk (afterASetFailure c.server c.service expect reply >>=
          droppedUnlessHands pendingId) :=
        afterASetFailure_neverOk.bind fun _ hx => droppedUnlessHands_neverOk hx
      simpa [applyReplied, ha, hok] using hnever.gives

theorem applyCompared_accepts (g : Reached kea c running expect)
    (hbefore : before = builtFrom c running) (hrun : w.running = running) (hfile : w.file = file) :
    kea.OkGives (Accepted kea c running file planned)
      (applyCompared c before expect planned pendingId) w := by
  refine (Prog.wp_bind _ _ _).mpr (hashOf_ensures trivial OkOnly.error ?_ ?_)
  · exact (dropped_neverOk rfl).gives
  · dsimp only
    split_ifs with hexpect
    · exact (dropped_neverOk rfl).gives
    · rw [not_not, hrun] at hexpect
      exact applySet_accepts (g.sends hexpect) hbefore hrun hfile

theorem applyRecorded_accepts (g : Reached kea c running expect)
    (hbefore : before = builtFrom c running) (hrun : w.running = running) (hfile : w.file = file) :
    kea.OkGives (Accepted kea c running file planned)
      (applyRecorded c before expect planned rowSha) w := by
  unfold applyRecorded
  split
  · exact applyCompared_accepts g hbefore hrun hfile
  · refine (Prog.wp_bind _ _ _).mpr ((Prog.wp_handle _ _ _).mpr
      (ask_ensures trivial (fun e => OkOnly.of_not rfl) fun d _ => ⟨trivial, ?_⟩))
    simp only [Kea.does]
    split
    · exact OkOnly.of_not rfl
    · exact applyCompared_accepts g hbefore hrun hfile

/-- The file that a call finds when it sends its set: the one that was there, or the one that was
written to settle an earlier change. -/
def FoundFile (kea : Kea H) (c : Write H) (running : Cfg) (file found : Option (Cfg × H)) : Prop :=
  found = file ∨
    CanSettle c running ∧ found = some (reported c.service running, kea.fileDigest running)

/-- An ok result of `apply` is accepted, over the file that the call found. -/
theorem apply_accepts :
    kea.OkGives (fun t => ∃ found planned, FoundFile kea c w.running w.file found ∧
        RestsOn c found planned ∧ Accepted kea c w.running found planned t) (apply c) w := by
  refine apply_ensures (fun _ _ => trivial) (fun _ _ _ h => h.okOnly)
    fun expect planned rowSha t h => ?_
  refine Prog.wp_mono (fun _ _ ht x hx hok => ⟨t.file, planned, ?_, h.restsOn, ht x hx hok⟩)
    (applyRecorded_accepts h.reached rfl h.settled.running rfl)
  rcases h.settled.file with ⟨-, hfile⟩ | hfile
  · exact .inl hfile
  · rcases h.written with hlog | hcan
    · -- nothing was written
      obtain ⟨n, hn⟩ := h.settled.wrote
      rcases Nat.eq_zero_or_pos n with rfl | hpos
      · exact .inl (by rw [hn, Kea.wrote_zero])
      · have hlen : t.log.length = w.log.length + n := by rw [hn]; simp [Kea.wrote]
        rw [hlog] at hlen
        omega
    · exact .inr ⟨hcan, hfile⟩

end JenKea.Api
