import Mathlib
import JenKea.Helper.Private
import JenKea.Lib.Dict

/-!
# Applying and removing a configuration

`opApplyConfig` compares the file with the hash that the caller expects, checks the new content with Kea, keeps the
old content beside it, and puts the new one in its place. What the host says about Kea is in `Facts`.
-/

namespace JenKea.Helper

open Json (Fields)
open DiskRun (finally_ suppress)

/-! ## What the host says -/

/-- `_find_kea`: the daemon's program, and the account that runs it. -/
inductive Kea where
  | absent
  | refused (reason : String)
  | found (binary : String) (user : Option String) (group : Option ℕ)
  deriving DecidableEq, Repr

/-- `_unit_account`: root is `None` there. -/
inductive UnitAccount where
  | root
  | refused (reason : String)
  | named (gid : ℕ)
  deriving DecidableEq, Repr

/-- A run of the daemon's own check. -/
inductive TestRun where
  | raised (text : String)
  | ran (returncode : ℤ) (lines : List String)
  deriving DecidableEq, Repr

/-- What the host says: about the daemon, a path below the TLS root, and the check of some content. -/
structure Facts where
  kea : String → Kea
  present : String → Bool → Bool
  test : String → List UInt8 → TestRun
  unitResolved : String → Bool
  unitAccount : String → UnitAccount

/-! ## Requests and replies -/

/-- `_ALLOWED_SERVICES`. -/
def ALLOWED_SERVICES : List String := ["dhcp4", "dhcp6", "d2"]

/-- `_ALLOWED_CONF_DIRS`. -/
def ALLOWED_CONF_DIRS : List String := ["/etc/kea", "/usr/local/etc/kea"]

/-- `_CONF_BASENAME_RE`. -/
def isConfBasename (name : List Char) : Bool :=
  name.all (fun c => c.isAlphanum && c.toNat < 128 || c = '.' || c = '_' || c = '-') &&
    decide (".conf".toList <:+ name) && 5 < name.length

/-- `_allowed_conf_path`. -/
def allowedConfPath (path : String) : Bool :=
  ALLOWED_CONF_DIRS.any fun directory => decide ((directory ++ "/").toList <+: path.toList) &&
    isConfBasename (path.toList.drop (directory.length + 1))

/-- `_SERVICE_BINARY`. -/
def serviceBinary : String → String
  | "dhcp4" => "kea-dhcp4"
  | "d2" => "kea-dhcp-ddns"
  | _ => "kea-dhcp6"

/-- Why the new content is not accepted. -/
inductive TestFailure where
  | missingBinary (binary : String) (detail : Option String)
  | badTlsPaths
  | tlsMissing (path : String)
  | testError (detail : String)
  deriving DecidableEq, Repr

/-- A reply of `apply-config` and of `remove-config`. -/
inductive Reply where
  | notAllowed
  | symlink (path : String)
  | conflict (sha256 : String)
  | refused (failure : TestFailure)
  | exists_
  | unitAccount (detail : String)
  | applied (backup : Option String) (sha256 : String)
  | removed (removed : Bool)
  deriving DecidableEq, Repr

/-- The service and the path of a payload, where they are allowed. -/
def target (payload : Fields) : Option (String × String) :=
  match Json.valueOf "service" payload, Json.valueOf "path" payload with
  | .str service, .str path =>
    if service ∈ ALLOWED_SERVICES ∧ allowedConfPath path = true then some (service, path) else none
  | _, _ => none

/-! ## The operations -/

/-- What `_open_conf` finds. -/
inductive Conf where
  | absent
  | link
  | file (previous : Stored)

/-- `_open_conf`. -/
def openConf (path : String) : Run Conf := do
  match ← Prog.attempt (DiskRun.openRead (.live path)) with
  | .error e => match e.errno with
    | .loop => pure .link
    | .noEntry => pure .absent
    | _ => throw e
  | .ok () => finally_ (do
      match ← DiskRun.fstat (.live path) with
      | .file st =>
        let data ← DiskRun.read (.live path)
        pure (.file { st with data := data })
      | _ => pure .link) (DiskRun.close (.live path))

/-- Does the line mention the word? -/
def mentions (word line : String) : Bool := decide (word.toList <:+: line.toList)

section

variable (facts : Facts) (dumps : Fields → List UInt8) (sha256 : List UInt8 → String)

/-- The first path of `tls_paths` that is not there, or is no such entry. -/
def tlsFailure : List Json → Option TestFailure
  | [] => none
  | .arr (.str path :: kind) :: entries =>
    let directory := match kind with
      | [] => some false
      | .str "file" :: _ => some false
      | .str "dir" :: _ => some true
      | _ => none
    match directory with
    | none => some .badTlsPaths
    | some directory =>
      if facts.present path directory then tlsFailure entries else some (.tlsMissing path)
  | _ => some .badTlsPaths

/-- What stands against the paths of a payload. -/
def tlsPathsFailure (tlsPaths : Json) : Option TestFailure :=
  match tlsPaths with
  | .arr entries => tlsFailure facts entries
  | paths => if paths.falsy then none else some .badTlsPaths

/-- What stands against the content, where the daemon's program is found. -/
def failureOf (binary : String) (config : Fields) (tlsPaths : Json) : Except OsError (Option TestFailure) :=
  match tlsPathsFailure facts tlsPaths with
  | some failure => .ok (some failure)
  | none => match facts.test binary (dumps config) with
    | .raised text => .error ⟨.other, text⟩
    | .ran returncode lines =>
      if returncode ≠ 0 ∨ lines.any (mentions "ERROR") = true then
        let said := lines.filter fun line => mentions "ERROR" line || mentions "Error" line
        .ok (some (.testError (String.intercalate " | " (said.take 3))))
      else .ok none

/-- `_run_kea_test`: nothing where the content is accepted. -/
def runKeaTest (service path : String) (config : Fields) (tlsPaths : Json) : Run (Option TestFailure) :=
  match facts.kea service with
  | .absent => pure (some (.missingBinary (serviceBinary service) none))
  | .refused reason => pure (some (.missingBinary (serviceBinary service) (some reason)))
  | .found binary user group => do
    let tmp ← privateTempfile path
    finally_ (do
      writeAll tmp (dumps config)
      if user.isSome then finishPrivate tmp (some 0) (some (group.getD 0)) 0o640
      else finishPrivate tmp none none 0o600
      Prog.ofExcept (failureOf facts dumps binary config tlsPaths)) (suppress (DiskRun.unlink tmp))

/-- Is the file not the one that the caller expects? -/
def conflicts (expect : Json) (previous : Option Stored) : Bool :=
  match expect, previous.map fun st => sha256 st.data with
  | .null, _ => false
  | .str "", current => current.isSome
  | .str hash, some current => decide (current ≠ hash)
  | _, _ => true

/-- The owner and mode of a file for an account: root's, or the daemon's group's to read. -/
def ownedBy : UnitAccount → Except String (ℕ × ℕ × ℕ)
  | .refused reason => .error reason
  | .root => .ok (0, 0, 0o600)
  | .named gid => .ok (0, gid, 0o640)

/-- The new content, and the reply that names its hash. -/
def putConfig (path : String) (config : Fields) (backup : Option String) :
    Except String (ℕ × ℕ × ℕ) → Run Reply
  | .error reason => pure (.unitAccount reason)
  | .ok (uid, gid, mode) => do
    installPrivate path (dumps config) (some uid) (some gid) mode
    pure (.applied backup (sha256 (dumps config)))

/-- What `op_apply_config` does under the lock. -/
def applyConfig (payload : Fields) (service path : String) (config : Fields) : Run Reply := do
  let expect := Json.valueOf "expect_sha256" payload
  let tlsPaths := Json.valueOf "tls_paths" payload
  match ← openConf path with
  | .link => pure (.symlink path)
  | .absent =>
    if conflicts sha256 expect none then pure (.conflict "") else
    match ← runKeaTest facts dumps service path config tlsPaths with
    | some failure => pure (.refused failure)
    | none => putConfig dumps sha256 path config none (ownedBy (facts.unitAccount service))
  | .file st =>
    if conflicts sha256 expect (some st) then pure (.conflict (sha256 st.data)) else
    match ← runKeaTest facts dumps service path config tlsPaths with
    | some failure => pure (.refused failure)
    | none =>
      if ((Json.lookup "allow_overwrite" payload).getD (.bool true)).falsy then pure .exists_ else
      let backup := path ++ ".jen_backup"
      installPrivate backup st.data (some st.uid) (some st.gid) (st.mode &&& 0o755)
      let mode := st.mode &&& 0o777
      -- a configuration that anyone can read is tightened
      let owner := if mode &&& 0o007 ≠ 0 ∧ facts.unitResolved service = true then
        ownedBy (facts.unitAccount service) else .ok (st.uid, st.gid, mode)
      putConfig dumps sha256 path config (some backup) owner

/-- `op_apply_config`. -/
def opApplyConfig (payload : Fields) : Run Reply :=
  match target payload, Json.valueOf "config" payload with
  | some (service, path), .obj config => applyConfig facts dumps sha256 payload service path config
  | _, _ => pure .notAllowed

/-- Sixty-four hexadecimal digits, in lower case. -/
def isSha256 (text : String) : Bool :=
  text.length = 64 && text.toList.all fun c => c.isDigit || ('a' ≤ c && c ≤ 'f')

/-- `op_remove_config`. -/
def opRemoveConfig (payload : Fields) : Run Reply :=
  match target payload, Json.valueOf "expect_sha256" payload with
  | some (_, path), .str expect => if isSha256 expect then do
      match ← openConf path with
      | .absent => pure (.removed false)
      | .link => pure (.symlink path)
      | .file st =>
        if sha256 st.data ≠ expect then pure (.conflict (sha256 st.data)) else
        DiskRun.unlink (.live path)
        pure (.removed true)
    else pure .notAllowed
  | _, _ => pure .notAllowed

end

/-! ## What they do -/

section Specs

open DiskRun

variable {facts : Facts} {dumps : Fields → List UInt8} {sha256 : List UInt8 → String} {who : Account}
  {w : Host} {path : String}

theorem openConf_spec {R : Except OsError Conf → Host → Prop} (herror : ∀ e, R (.error e) w)
    (hlink : R (.ok .link) w) (habsent : w.disk (.live path) = none → R (.ok .absent) w)
    (hfile : ∀ st, w.disk (.live path) = some (.file st) → R (.ok (.file st)) w) :
    (openConf path).EndsIn who R w := by
  refine ends_bind (ends_attempt (ends_openRead (fun e he => ?_) fun _ => ?_))
  · dsimp only
    cases herrno : e.errno with
    | loop => exact hlink
    | noEntry =>
      refine habsent ?_
      by_contra h
      exact he h herrno
    | exists_ | other => exact herror e
  · have hclose : ∀ r : Except OsError Conf, R r w →
        (DiskRun.close (.live path) >>= fun _ => Prog.ofExcept r : Run Conf).EndsIn who R w := by
      intro r hr
      refine ends_bind (ends_close (fun e => herror e) ?_)
      cases r with
      | ok conf => exact hr
      | error e => exact hr
    refine ends_bind (ends_attempt (ends_bind (ends_fstat (fun e => hclose _ (herror e)) fun entry hentry => ?_)))
    cases entry with
    | file st => exact ends_bind (ends_read hentry (fun e => hclose _ (herror e)) (hclose _ (hfile st hentry)))
    | link | dir | special => exact hclose _ hlink

/-- The TLS files are there, and the check of Kea passes the content. -/
def Passes (facts : Facts) (dumps : Fields → List UInt8) (service : String) (config : Fields) (tlsPaths : Json) :
    Prop :=
  ∃ binary user group lines, facts.kea service = .found binary user group ∧
    tlsPathsFailure facts tlsPaths = none ∧ facts.test binary (dumps config) = .ran 0 lines ∧
    ∀ line ∈ lines, mentions "ERROR" line = false

theorem passes_of_failureOf {service binary : String} {user : Option String} {group : Option ℕ}
    {config : Fields} {tlsPaths : Json} (hkea : facts.kea service = .found binary user group)
    (h : failureOf facts dumps binary config tlsPaths = .ok none) : Passes facts dumps service config tlsPaths := by
  unfold failureOf at h
  cases htls : tlsPathsFailure facts tlsPaths with
  | some failure =>
    rw [htls] at h
    cases h
  | none =>
    rw [htls] at h
    dsimp only at h
    cases htest : facts.test binary (dumps config) with
    | raised text =>
      rw [htest] at h
      cases h
    | ran returncode lines =>
      rw [htest] at h
      dsimp only at h
      by_cases hbad : returncode ≠ 0 ∨ lines.any (mentions "ERROR") = true
      · rw [if_pos hbad] at h
        cases h
      · rw [not_or, not_not] at hbad
        refine ⟨binary, user, group, lines, hkea, htls, hbad.1 ▸ htest, fun line hline => ?_⟩
        by_contra hmentions
        exact hbad.2 (List.any_eq_true.mpr ⟨line, hline, by simpa using hmentions⟩)

/-- The check leaves nothing but a file of its own that could not be removed. -/
theorem runKeaTest_spec {service : String} {config : Fields} {tlsPaths : Json}
    {R : Except OsError (Option TestFailure) → Host → Prop} (herror : ∀ e t, Left w t → R (.error e) t)
    (hfailure : ∀ failure t, Left w t → R (.ok (some failure)) t)
    (hpass : Passes facts dumps service config tlsPaths → ∀ t, Left w t → R (.ok none) t) :
    (runKeaTest facts dumps service path config tlsPaths).EndsIn who R w := by
  unfold runKeaTest
  cases hkea : facts.kea service with
  | absent => exact hfailure _ w (.refl w)
  | refused reason => exact hfailure _ w (.refl w)
  | found binary user group =>
    refine ends_bind (privateTempfile_spec (fun e => herror e w (.refl w)) fun token hnew => ?_)
    -- whatever comes out, the new file alone is changed before it is removed
    have hremove : ∀ (r : Except OsError (Option TestFailure)) t, OffName (.temp path token) w t →
        (r = .ok none → Passes facts dumps service config tlsPaths) →
        (suppress (DiskRun.unlink (.temp path token)) >>= fun _ => Prog.ofExcept r : Run _).EndsIn who R t := by
      intro r t ht hr
      refine ends_bind (unlink_temp_spec hnew ht fun u hu => ?_)
      match r with
      | .error e => exact herror e u hu
      | .ok (some failure) => exact hfailure failure u hu
      | .ok none => exact hpass (hr rfl) u hu
    have hput := offName_put (.temp path token) (some (.file ⟨[], who.uid, who.gid, 0o600⟩)) w
    have hwritten := hput.trans
      (offName_put (.temp path token) (some (.file ⟨dumps config, who.uid, who.gid, 0o600⟩)) _)
    have hanswer : ∀ t, OffName (.temp path token) w t →
        EndsIn who (Prog.ofExcept (failureOf facts dumps binary config tlsPaths) : Run _)
          (fun r u => (suppress (DiskRun.unlink (.temp path token)) >>= fun _ => Prog.ofExcept r : Run _).EndsIn
            who R u) t := by
      intro t ht
      refine (Prog.wp_ofExcept _ _).mpr (hremove _ t ht fun hnone => ?_)
      exact passes_of_failureOf hkea hnone
    refine ends_bind (ends_attempt (ends_bind (writeAll_spec (World.put_self ..) (fun e t ht => ?_) ?_)))
    · exact hremove _ t (hput.trans ht) nofun
    · dsimp only
      split_ifs with huser
      all_goals
        refine ends_bind (finishPrivate_spec (World.put_self ..) (fun e t ht => ?_) fun t ht _ => ?_)
        · exact hremove _ t (hwritten.trans ht) nofun
        · exact hanswer t (hwritten.trans ht)

/-- The file is the one that the caller expects, who may expect nothing of it. -/
def Expected (sha256 : List UInt8 → String) (expect : Json) (entry : Option DiskEntry) : Prop :=
  expect = .null ∨ (expect = .str "" ∧ entry = none) ∨
    ∃ st, entry = some (.file st) ∧ expect = .str (sha256 st.data)

theorem expected_of_conflicts {expect : Json} {previous : Option Stored}
    (h : conflicts sha256 expect previous = false) : Expected sha256 expect (previous.map DiskEntry.file) := by
  unfold conflicts at h
  split at h
  · exact .inl rfl
  · cases previous with
    | none => exact .inr (.inl ⟨rfl, rfl⟩)
    | some st => cases h
  · next hash current _ hsome =>
    cases previous with
    | none => cases hsome
    | some st =>
      have hcurrent : sha256 st.data = current := Option.some.inj hsome
      refine .inr (.inr ⟨st, rfl, ?_⟩)
      rw [hcurrent, not_not.mp (of_decide_eq_false h)]
  · cases h

/-- What stands at the path and beside it once the content is applied. -/
structure Put (dumps : Fields → List UInt8) (path : String) (config : Fields) (backup : Option String)
    (w u : Host) : Prop where
  live : ∃ st, u.disk (.live path) = some (.file st) ∧ st.data = dumps config
  kept : match w.disk (.live path) with
    | some (.file st) => backup = some (path ++ ".jen_backup") ∧
      ∃ copy, u.disk (.live (path ++ ".jen_backup")) = some (.file copy) ∧
        copy.data = st.data ∧ copy.uid = st.uid ∧ copy.gid = st.gid
    | _ => backup = none

/-- How `apply-config` ends: the live file is replaced by what was expected and checked, or it is as it was. -/
def Applied (facts : Facts) (dumps : Fields → List UInt8) (sha256 : List UInt8 → String) (payload : Fields)
    (service path : String) (config : Fields) (w : Host) : Except OsError Reply → Host → Prop
  | .ok (.applied backup hash), u =>
    Expected sha256 (Json.valueOf "expect_sha256" payload) (w.disk (.live path)) ∧
      Passes facts dumps service config (Json.valueOf "tls_paths" payload) ∧
      hash = sha256 (dumps config) ∧ Put dumps path config backup w u
  | _, u => u.disk (.live path) = w.disk (.live path)

/-- The backup stands beside the file. -/
theorem backup_ne (path : String) : path ++ ".jen_backup" ≠ path := by
  intro h
  have hlength := congrArg String.length h
  rw [String.length_append] at hlength
  exact absurd hlength (by simp)

variable {payload : Fields} {service : String} {config : Fields} {t : Host}

theorem putConfig_spec {backup : Option String} {owner : Except String (ℕ × ℕ × ℕ)}
    (hlive : t.disk (.live path) = w.disk (.live path))
    (hexpected : Expected sha256 (Json.valueOf "expect_sha256" payload) (w.disk (.live path)))
    (hpasses : Passes facts dumps service config (Json.valueOf "tls_paths" payload))
    (hput : ∀ u, OffName (.live path) t u →
      (∃ st, u.disk (.live path) = some (.file st) ∧ st.data = dumps config) → Put dumps path config backup w u) :
    (putConfig dumps sha256 path config backup owner).EndsIn who
      (Applied facts dumps sha256 payload service path config w) t := by
  match owner with
  | .error reason => exact hlive
  | .ok (uid, gid, mode) =>
    refine ends_bind (installPrivate_spec (fun e u hu => ?_) fun u hoff hfile => ?_)
    · exact (hu.live path).trans hlive
    · exact ⟨hexpected, hpasses, rfl, hput u hoff ⟨_, hfile, rfl⟩⟩

theorem applyConfig_spec : (applyConfig facts dumps sha256 payload service path config).EndsIn who
    (Applied facts dumps sha256 payload service path config w) w := by
  have hleft : ∀ t, Left w t → t.disk (.live path) = w.disk (.live path) := fun t ht => ht.live path
  refine ends_bind (openConf_spec (fun e => rfl) rfl (fun hnone => ?_) fun st hst => ?_)
  · dsimp only
    split_ifs with hconflict
    · rfl
    have hexpected : Expected sha256 (Json.valueOf "expect_sha256" payload) (w.disk (.live path)) := by
      rw [hnone]
      exact expected_of_conflicts (Bool.not_eq_true _ ▸ hconflict)
    refine ends_bind (runKeaTest_spec (fun e t ht => hleft t ht) (fun _ t ht => hleft t ht) fun hpasses t ht => ?_)
    refine putConfig_spec (hleft t ht) hexpected hpasses fun u _ hfile => ⟨hfile, ?_⟩
    rw [hnone]
  · dsimp only
    by_cases hconflict : conflicts sha256 (Json.valueOf "expect_sha256" payload) (some st) = true
    · rw [if_pos hconflict]
      rfl
    rw [if_neg hconflict]
    have hexpected : Expected sha256 (Json.valueOf "expect_sha256" payload) (w.disk (.live path)) := by
      rw [hst]
      exact expected_of_conflicts (Bool.not_eq_true _ ▸ hconflict)
    refine ends_bind (runKeaTest_spec (fun e t ht => hleft t ht) (fun _ t ht => hleft t ht) fun hpasses t ht => ?_)
    dsimp only
    by_cases hoverwrite : ((Json.lookup "allow_overwrite" payload).getD (.bool true)).falsy = true
    · rw [if_pos hoverwrite]
      exact hleft t ht
    rw [if_neg hoverwrite]
    -- the backup, and then the file
    refine ends_bind (installPrivate_spec (fun e u hu => (hu.live path).trans (hleft t ht))
      fun u hoff hbackup => ?_)
    have hlive : u.disk (.live path) = w.disk (.live path) :=
      (hoff.1 _ fun heq => backup_ne path (Name.live.inj heq).symm).trans (hleft t ht)
    refine putConfig_spec hlive hexpected hpasses fun v hoff' hfile => ⟨hfile, ?_⟩
    rw [hst]
    refine ⟨rfl, finished who st.data (some st.uid) (some st.gid) (st.mode &&& 0o755), ?_, rfl, rfl, rfl⟩
    rw [hoff'.1 _ fun heq => backup_ne path (Name.live.inj heq)]
    exact hbackup

/-- How `remove-config` ends. -/
def Removed (sha256 : List UInt8 → String) (payload : Fields) (path : String) (w : Host) :
    Except OsError Reply → Host → Prop
  | .ok (.removed true), u => u.disk (.live path) = none ∧
      ∃ st, w.disk (.live path) = some (.file st) ∧
        Json.valueOf "expect_sha256" payload = .str (sha256 st.data)
  | .ok (.removed false), u => u.disk (.live path) = none ∧ w.disk (.live path) = none
  | _, u => u.disk (.live path) = w.disk (.live path)

theorem removeConfig_spec (htarget : target payload = some (service, path)) :
    (opRemoveConfig sha256 payload).EndsIn who (Removed sha256 payload path w) w := by
  unfold opRemoveConfig
  rw [htarget]
  split
  · next heq hexpect =>
    obtain ⟨rfl, rfl⟩ := Prod.mk.inj (Option.some.inj heq)
    split_ifs with hhash
    · refine ends_bind (openConf_spec (fun e => rfl) rfl (fun hnone => ⟨hnone, hnone⟩) fun st hst => ?_)
      dsimp only
      split_ifs with hsame
      · rfl
      · refine ends_bind (ends_unlink (fun e _ => rfl) (fun e _ => rfl) fun _ => ⟨World.put_self .., st, hst, ?_⟩)
        rw [hexpect, not_not.mp hsame]
    · rfl
  · rfl

/-- A live configuration is replaced or removed only where it is the one that the caller expects, and replaced only
by content that passed its check; the reply then names what stands there, with the old content beside it. -/
theorem replaced_only_as_expected (facts : Facts) (dumps : Fields → List UInt8) (sha256 : List UInt8 → String)
    (who : Account) (payload : Fields) (decisions : ℕ → DiskDecision) (w : Host) :
    let applied := (opApplyConfig facts dumps sha256 payload).run (diskOps who) decisions w
    let removed := (opRemoveConfig sha256 payload).run (diskOps who) decisions w
    ((applied.result = .ok .notAllowed ∧ applied.state = w) ∨
      ∃ service path config, target payload = some (service, path) ∧ Json.valueOf "config" payload = .obj config ∧
        Applied facts dumps sha256 payload service path config w applied.result applied.state) ∧
    ((removed.result = .ok .notAllowed ∧ removed.state = w) ∨
      ∃ service path, target payload = some (service, path) ∧
        Removed sha256 payload path w removed.result removed.state) := by
  constructor
  · unfold opApplyConfig
    split
    · next service path config htarget hconfig =>
      exact .inr ⟨service, path, config, htarget, hconfig, (Prog.wp_sound applyConfig_spec decisions).1⟩
    · exact .inl ⟨rfl, rfl⟩
  · cases htarget : target payload with
    | none =>
      have hprogram : opRemoveConfig sha256 payload = pure .notAllowed := by
        unfold opRemoveConfig
        rw [htarget]
      rw [hprogram]
      exact .inl ⟨rfl, rfl⟩
    | some found =>
      obtain ⟨service, path⟩ := found
      exact .inr ⟨service, path, rfl, (Prog.wp_sound (removeConfig_spec htarget) decisions).1⟩

/-- A host where every check passes. -/
def passing : Facts where
  kea _ := .found "/usr/sbin/kea-dhcp4" none none
  present _ _ := true
  test _ _ := .ran 0 []
  unitResolved _ := false
  unitAccount _ := .root

/-- A payload that expects nothing of the file. -/
def unguarded : Fields :=
  [("service", .str "dhcp4"), ("path", .str "/etc/kea/kea-dhcp4.conf"), ("config", .obj [])]

/-- A machine with one byte in every file. -/
def oneByte : Host :=
  ⟨fun | .live _ => some (.file ⟨[0], 0, 0, 0o640⟩) | .temp _ _ => none, []⟩

/-- Without a hash to expect, what stands there is replaced whatever it is. -/
theorem replaced_unguarded : ¬ ∀ (payload : Fields) (decisions : ℕ → DiskDecision) (w : Host) (path : String),
    ((opApplyConfig passing (fun _ => [1]) (fun _ => "") payload).run (diskOps ⟨0, 0⟩) decisions w).state.disk
      (.live path) ≠ w.disk (.live path) →
    ∃ hash, Json.valueOf "expect_sha256" payload = .str hash := by
  intro h
  obtain ⟨hash, hexpect⟩ := h unguarded (fun n => ⟨none, [], n⟩)
    oneByte "/etc/kea/kea-dhcp4.conf" (by decide +kernel)
  cases hexpect

end Specs

end JenKea.Helper
