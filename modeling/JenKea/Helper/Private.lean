import JenKea.Lib.Disk

/-!
# Private files

Every file that the helper writes is a new one of its own, which then takes the place of the old. A call of the
kernel that fails raises an `OSError`.
-/

namespace JenKea.Helper

open DiskRun (finally_ onError suppress)

/-- A name on the host: one that the callers know, or one that the helper drew for a file next to it. -/
inductive Name where
  | live (path : String)
  | temp (path : String) (token : ℕ)
  deriving DecidableEq, Repr

/-- A program of the helper. -/
abbrev Run (α : Type) := DiskRun Name α

abbrev Host := World Name

/-- `os.path.dirname`, or `.`. -/
def dirname (path : String) : String :=
  let head := path.toList.reverse.dropWhile (· ≠ '/')
  let name := String.ofList (if head.all (· = '/') then head else (head.dropWhile (· = '/')).reverse)
  if name = "" then "." else name

/-- `_private_tempfile`: a new file next to the path. -/
def privateTempfile (path : String) : Run Name := do
  let found ← Prog.loop (fun _ () => do
    let token ← DiskRun.token
    let name := Name.temp path token
    match ← Prog.attempt (DiskRun.create name) with
    | .ok () => pure (.inr name)
    | .error e => if e.errno = .exists_ then pure (.inl ()) else throw e) (List.replicate 64 ()) ()
  match found with
  | .inr name => pure name
  | .inl () => throw ⟨.exists_, s!"no unused temp name in {dirname path}"⟩

/-- `_write_all`, and the descriptor closed where that fails. -/
def writeAll (name : Name) (data : List UInt8) : Run Unit :=
  onError (DiskRun.write name data) (DiskRun.close name)

/-- `_finish_private`. -/
def finishPrivate (name : Name) (uid gid : Option ℕ) (mode : ℕ) : Run Unit :=
  finally_ (do
    if uid ≠ none ∨ gid ≠ none then DiskRun.chown name uid gid
    DiskRun.chmod name mode) (DiskRun.close name)

/-- `_install_private`. -/
def installPrivate (path : String) (data : List UInt8) (uid gid : Option ℕ) (mode : ℕ) : Run Unit := do
  let tmp ← privateTempfile path
  onError (do
    writeAll tmp data
    finishPrivate tmp uid gid mode
    DiskRun.replace tmp (.live path)) (suppress (DiskRun.unlink tmp))

/-! ## What they do -/

section Specs

open DiskRun

variable {who : Account} {w : Host}

/-- What a new file holds. -/
def finished (who : Account) (data : List UInt8) (uid gid : Option ℕ) (mode : ℕ) : Stored :=
  { data, uid := uid.getD who.uid, gid := gid.getD who.gid, mode }

theorem privateTempfile_spec {path : String} {R : Except OsError Name → Host → Prop}
    (herror : ∀ e, R (.error e) w)
    (hok : ∀ token, w.disk (.temp path token) = none → R (.ok (.temp path token))
      (w.put (.temp path token) (some (.file ⟨[], who.uid, who.gid, 0o600⟩)))) :
    (privateTempfile path : Run Name).EndsIn who R w := by
  refine ends_bind (Prog.wp_loop (fun _ () t => t = w) ?_ ?_ rfl)
  · rintro - - - t rfl
    refine ends_token fun token => ends_bind (ends_attempt (ends_create ?_ ?_))
    · intro e
      dsimp only
      split_ifs
      · rfl
      · exact herror e
    · exact hok token
  · rintro - t rfl
    exact herror _

/-- The world but for one file. -/
def OffName (name : Name) (w t : Host) : Prop :=
  (∀ other, other ≠ name → t.disk other = w.disk other) ∧ t.stuck = w.stuck

theorem offName_put (name : Name) (entry : Option DiskEntry) (w : Host) : OffName name w (w.put name entry) :=
  ⟨fun _ hne => World.put_ne w entry hne, rfl⟩

theorem OffName.refl (name : Name) (w : Host) : OffName name w w := ⟨fun _ _ => rfl, rfl⟩

theorem OffName.trans {name : Name} {w t u : Host} (h : OffName name w t) (h' : OffName name t u) :
    OffName name w u := ⟨fun other hne => (h'.1 other hne).trans (h.1 other hne), h'.2.trans h.2⟩

variable {name : Name} {stored : Stored} {R : Except OsError Unit → Host → Prop}

theorem writeAll_spec {data : List UInt8} (hfile : w.disk name = some (.file stored))
    (herror : ∀ e t, OffName name w t → R (.error e) t)
    (hok : R (.ok ()) (w.put name (some (.file { stored with data := data })))) :
    (writeAll name data : Run Unit).EndsIn who R w := by
  refine (Prog.wp_handle _ _ _).mpr (ends_write hfile (fun e part => ?_) hok)
  refine ends_bind (ends_close ?_ ?_)
  · exact fun e' => herror e' _ (offName_put ..)
  · exact herror e _ (offName_put ..)

theorem finishPrivate_spec {uid gid : Option ℕ} {mode : ℕ} (hfile : w.disk name = some (.file stored))
    (herror : ∀ e t, OffName name w t → R (.error e) t)
    (hok : ∀ t, OffName name w t → t.disk name = some (.file
      { stored with uid := uid.getD stored.uid, gid := gid.getD stored.gid, mode := mode }) → R (.ok ()) t) :
    (finishPrivate name uid gid mode : Run Unit).EndsIn who R w := by
  -- what is raised or done before the descriptor is closed
  have hbody : EndsIn who (do
      if uid ≠ none ∨ gid ≠ none then DiskRun.chown name uid gid
      DiskRun.chmod name mode : Run Unit) (fun r t => OffName name w t ∧ (r = .ok () → t.disk name = some (.file
        { stored with uid := uid.getD stored.uid, gid := gid.getD stored.gid, mode := mode }))) w := by
    have hmode : ∀ (t : Host) (s : Stored), OffName name w t → t.disk name = some (.file s) →
        s = { stored with uid := uid.getD stored.uid, gid := gid.getD stored.gid } →
        (DiskRun.chmod name mode : Run Unit).EndsIn who (fun r t => OffName name w t ∧
          (r = .ok () → t.disk name = some (.file
            { stored with uid := uid.getD stored.uid, gid := gid.getD stored.gid, mode := mode }))) t := by
      intro t s ht hs hsame
      refine ends_chmod hs (fun e => ⟨ht, nofun⟩) ⟨ht.trans (offName_put ..), fun _ => ?_⟩
      rw [World.put_self, hsame]
    split_ifs with howner
    · refine ends_bind (ends_chown hfile (fun e => ⟨.refl name w, nofun⟩) ?_)
      exact hmode _ _ (offName_put ..) (World.put_self ..) rfl
    · obtain ⟨huid, hgid⟩ : uid = none ∧ gid = none := by
        constructor
        · by_contra h
          exact howner (.inl h)
        · by_contra h
          exact howner (.inr h)
      exact hmode w stored (.refl name w) hfile (by rw [huid, hgid]; rfl)
  refine ends_bind (ends_attempt (ends_mono hbody fun r t ht => ?_))
  refine ends_bind (ends_close (fun e => herror e t ht.1) ?_)
  cases r with
  | ok u => exact hok t ht.1 (ht.2 rfl)
  | error e => exact herror e t ht.1

/-- All that may be left are new files that could not be removed. -/
structure Left (w t : Host) : Prop where
  live : ∀ path, t.disk (.live path) = w.disk (.live path)
  temp : ∀ path token, t.disk (.temp path token) = w.disk (.temp path token) ∨ .temp path token ∈ t.stuck
  stuck : w.stuck ⊆ t.stuck

theorem Left.refl (w : Host) : Left w w := ⟨fun _ => rfl, fun _ _ => .inl rfl, List.Subset.refl _⟩

theorem Left.trans {w t u : Host} (h : Left w t) (h' : Left t u) : Left w u := by
  refine ⟨fun path => (h'.live path).trans (h.live path), fun path token => ?_,
    List.Subset.trans h.stuck h'.stuck⟩
  rcases h'.temp path token with hsame | hstuck
  · rcases h.temp path token with hsame' | hstuck
    · exact .inl (hsame.trans hsame')
    · exact .inr (h'.stuck hstuck)
  · exact .inr hstuck

/-- A new file that is removed leaves nothing. -/
theorem unlink_temp_spec {path : String} {token : ℕ} {t : Host} (hnew : w.disk (.temp path token) = none)
    (ht : OffName (.temp path token) w t) (h : ∀ u, Left w u → R (.ok ()) u) :
    (suppress (DiskRun.unlink (.temp path token)) : Run Unit).EndsIn who R t := by
  obtain ⟨hother, hstuck⟩ := ht
  have hlive : ∀ path', t.disk (.live path') = w.disk (.live path') := fun path' => hother _ nofun
  have htemp : ∀ path' token', Name.temp path' token' ≠ .temp path token →
      t.disk (.temp path' token') = w.disk (.temp path' token') := fun path' token' => hother _
  refine (Prog.wp_handle _ _ _).mpr (ends_unlink (fun e _ => ?_) (fun e hnone => ?_) fun _ => ?_)
  · refine h _ ⟨hlive, fun path' token' => ?_, ?_⟩
    · by_cases hsame : Name.temp path' token' = .temp path token
      · rw [hsame]
        exact .inr List.mem_cons_self
      · exact .inl (htemp path' token' hsame)
    · show w.stuck ⊆ _ :: t.stuck
      rw [hstuck]
      exact List.subset_cons_self _ _
  · refine h _ ⟨hlive, fun path' token' => .inl ?_, hstuck ▸ List.Subset.refl _⟩
    by_cases hsame : Name.temp path' token' = .temp path token
    · rw [hsame, hnone, hnew]
    · exact htemp path' token' hsame
  · refine h _ ⟨fun path' => ?_, fun path' token' => .inl ?_, ?_⟩
    · rw [World.put_ne t none (by nofun : Name.live path' ≠ .temp path token)]
      exact hlive path'
    · by_cases hsame : Name.temp path' token' = .temp path token
      · rw [hsame, World.put_self, hnew]
      · rw [World.put_ne t none hsame]
        exact htemp path' token' hsame
    · rw [World.put_stuck, hstuck]
      exact List.Subset.refl _

/-- The file has the data, its owner and its mode, or all is as it was but for files that could not be removed. -/
theorem installPrivate_spec {path : String} {data : List UInt8} {uid gid : Option ℕ} {mode : ℕ}
    (herror : ∀ e t, Left w t → R (.error e) t)
    (hok : ∀ t, OffName (.live path) w t →
      t.disk (.live path) = some (.file (finished who data uid gid mode)) → R (.ok ()) t) :
    (installPrivate path data uid gid mode : Run Unit).EndsIn who R w := by
  refine ends_bind (privateTempfile_spec (fun e => herror e w (.refl w)) fun token hnew => ?_)
  refine (Prog.wp_handle _ _ _).mpr ?_
  -- a failure has changed the new file alone
  have hfail : ∀ e t, OffName (.temp path token) w t → (do
      suppress (DiskRun.unlink (.temp path token))
      throw e : Run Unit).EndsIn who R t :=
    fun e t ht => ends_bind (unlink_temp_spec hnew ht fun u hu => herror e u hu)
  have hput := offName_put (.temp path token) (some (.file ⟨[], who.uid, who.gid, 0o600⟩)) w
  refine ends_bind (writeAll_spec (World.put_self ..) (fun e t ht => hfail e t (hput.trans ht)) ?_)
  have hwritten := hput.trans (offName_put (.temp path token) (some (.file ⟨data, who.uid, who.gid, 0o600⟩)) _)
  refine ends_bind (finishPrivate_spec (World.put_self ..) (fun e t ht => hfail e t (hwritten.trans ht))
    fun t ht hfile => ?_)
  have hoff := hwritten.trans ht
  refine ends_replace hfile (fun e => hfail e t hoff) fun _ => hok _ ⟨fun other hne => ?_, hoff.2⟩ ?_
  · rw [World.put_ne _ _ hne]
    by_cases hsame : other = .temp path token
    · rw [hsame, World.put_self, hnew]
    · rw [World.put_ne _ _ hsame]
      exact hoff.1 other hsame
  · rw [World.put_self]
    rfl

end Specs

end JenKea.Helper
