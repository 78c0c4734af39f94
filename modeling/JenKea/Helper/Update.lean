import JenKea.Lib.Disk
import JenKea.Lib.Digits
import JenKea.Lib.Dict
import Mathlib.Data.List.Basic

/-!
# The helper's update of itself

`opUpdate` verifies a candidate, asks it for its version, puts it in the helper's place, asks again, and puts the
helper back where the answer is another. A helper's own version and build are those that its text declares.
-/

namespace JenKea.Helper

open DiskRun (finally_ suppress)

/-! ## The request and what the host answers -/

/-- The names that an update works on. -/
inductive UpdateName where
  /-- `_SELF_PATH`. -/
  | installed
  | prev
  | tmp (file : String)
  deriving DecidableEq, Repr

/-- A program of the update. -/
abbrev UpdateRun (α : Type) := DiskRun UpdateName α

abbrev UpdateHost := World UpdateName

/-- The candidate and its signature, decoded. -/
structure UpdateRequest where
  candidate : List UInt8
  signature : List UInt8

/-- How `ssh-keygen -Y verify` ends. -/
inductive Verification where
  | raised
  | exited (returncode : ℤ)
  deriving DecidableEq, Repr

/-- What a helper prints for `version`. -/
inductive Printed where
  | notJson
  /-- The JSON is nested too deeply for `json.loads`, which raises `RecursionError`. -/
  | tooDeep
  | json (reply : Json)

/-- How the `version` of a helper ends. -/
inductive ProbeRun where
  | raised (text : String)
  /-- It ends with a code that is not 0. -/
  | exited (returncode : ℤ) (stderr : List String)
  | printed (out : Printed)

/-- What the host answers during an update. -/
structure UpdateFacts where
  keygen : Bool
  /-- The error of `mkdtemp`. -/
  noTmpDir : Option String
  signers : List UInt8
  verification : Verification
  preflight : ProbeRun
  postflight : ProbeRun
  /-- The error of the directory's `fsync`. -/
  notSynced : Option String

/-- A reply of `update`. -/
inductive UpdateReply where
  | notAllowed
  | noSshKeygen
  | badSignature
  | unparseable
  | notNewer (detail : String)
  | symlink (name : UpdateName)
  | notInstalled
  | preflightFailed (detail : String)
  | postflightFailed (detail : String)
  | rollbackFailed (detail : String)
  | updated (version build previousVersion previousBuild : ℕ)
  deriving DecidableEq, Repr

/-! ## What a helper declares and reports -/

/-- The first line that declares the number, and its digits. -/
def declaration (name : String) (candidate : List UInt8) : Option (List Char) :=
  (candidate.splitOn 10).findSome? fun line =>
    let cs := line.map fun b => Char.ofNat b.toNat
    let digits := cs.drop (name.length + 3)
    if (name ++ " = ").toList.isPrefixOf cs && digits ≠ [] && digits.all Char.isDigit then some digits else none

/-- The version and the build that a helper declares. -/
def declared (candidate : List UInt8) : Option (ℕ × ℕ) := do
  let version ← (declaration "HELPER_VERSION" candidate).bind Text.natOf
  let build ← (declaration "HELPER_BUILD" candidate).bind Text.natOf
  return (version, build)

/-- The answer of a probe. -/
structure Probe where
  ok : Bool
  version : Json := .null
  build : Json := .null
  reason : String

/-- The first two hundred characters. -/
def short (text : String) : String := String.ofList (text.toList.take 200)

/-- `_probe_helper_version`, which handles a `ValueError` of `json.loads` and no `RecursionError`. -/
def probeHelperVersion : ProbeRun → Except OsError Probe
  | .raised text => .ok { ok := false, reason := short text }
  | .exited returncode stderr => .ok { ok := false, reason := short (stderr.head?.getD s!"exited {returncode}") }
  | .printed .notJson => .ok { ok := false, reason := "candidate's version op did not print valid JSON" }
  | .printed .tooDeep => .error ⟨.other, "maximum recursion depth exceeded"⟩
  | .printed (.json (.obj reply)) =>
    match Json.valueOf "ok" reply with
    | .bool true => .ok {
        ok := true, version := Json.valueOf "helper_version" reply, build := Json.valueOf "helper_build" reply
        reason := "" }
    | _ => .ok { ok := false, reason := "candidate's version op did not answer ok" }
  | .printed (.json _) => .ok { ok := false, reason := "candidate's version op did not answer ok" }

/-- Does the probe report the version and the build? -/
def Probe.reports (probe : Probe) (version build : ℕ) : Bool :=
  probe.ok && Json.pyEq probe.version (.int version) && Json.pyEq probe.build (.int build)

/-! ## The operation -/

/-- `_UPDATE_MAX_HELPER`. -/
def UPDATE_MAX_HELPER : ℕ := 512 * 1024

/-- `_UPDATE_MAX_SIGNATURE`. -/
def UPDATE_MAX_SIGNATURE : ℕ := 8 * 1024

/-- `os.path.islink`. -/
def isLink (name : UpdateName) : UpdateRun Bool := do
  match ← Prog.attempt (DiskRun.lstat name) with
  | .ok .link => pure true
  | _ => pure false

/-- `os.path.isfile`. -/
def isFile (name : UpdateName) : UpdateRun Bool := do
  match ← Prog.attempt (DiskRun.lstat name) with
  | .ok (.file _) => pure true
  | _ => pure false

/-- A file is written. -/
def writeFile (name : UpdateName) (data : List UInt8) : UpdateRun Unit := do
  DiskRun.openWrite name
  DiskRun.write name data

/-- `shutil.copy2`. -/
def copy2 (src dst : UpdateName) : UpdateRun Unit := do
  DiskRun.openRead src
  let data ← DiskRun.read src
  writeFile dst data
  match ← DiskRun.fstat src with
  | .file st => DiskRun.chmod dst st.mode
  | _ => pure ()

/-- A file is root's, and anyone may run it. -/
def makeExecutable (name : UpdateName) : UpdateRun Unit := do
  DiskRun.chown name (some 0) (some 0)
  DiskRun.chmod name 0o755

/-- What `op_update` does before the helper is replaced: a reply, or the new version and build. -/
def prepare (running : ℕ × ℕ) (facts : UpdateFacts) (request : UpdateRequest) :
    UpdateRun (Except UpdateReply (ℕ × ℕ)) := do
  writeFile (.tmp "candidate.sig") request.signature
  writeFile (.tmp "allowed_signers") facts.signers
  if facts.verification ≠ .exited 0 then return .error .badSignature
  match declaration "HELPER_VERSION" request.candidate, declaration "HELPER_BUILD" request.candidate with
  | some versionDigits, some buildDigits =>
    match Text.natOf versionDigits, Text.natOf buildDigits with
    | some version, some build =>
      if version < running.1 then return .error (.notNewer "protocol-downgrade")
      if build ≤ running.2 then return .error (.notNewer "build-not-newer")
      if ← isLink .installed then return .error (.symlink .installed)
      if !(← isFile .installed) then return .error .notInstalled
      writeFile (.tmp "final") request.candidate
      let pre ← Prog.ofExcept (probeHelperVersion facts.preflight)
      if !pre.reports version build then
        return .error (.preflightFailed
          (Text.orElse pre.reason "the candidate's own version op disagreed with what it declared"))
      if ← isLink .prev then return .error (.symlink .prev)
      copy2 .installed .prev
      makeExecutable .prev
      makeExecutable (.tmp "final")
      return .ok (version, build)
    | _, _ => throw ⟨.other, "Exceeds the limit (4300 digits) for integer string conversion"⟩
  | _, _ => return .error .unparseable

/-- What `op_update` does from there on. -/
def replaceInstalled (running : ℕ × ℕ) (facts : UpdateFacts) (version build : ℕ) : UpdateRun UpdateReply := do
  DiskRun.replace (.tmp "final") .installed
  let post ← Prog.ofExcept (probeHelperVersion facts.postflight)
  if facts.notSynced ≠ none ∨ !post.reports version build then
    let detail := match facts.notSynced with
      | some text => s!"the directory could not be synced after the install: {text}"
      | none => Text.orElse post.reason "the installed candidate's own version op disagreed after install"
    match ← Prog.attempt (DiskRun.replace .prev .installed) with
    | .ok () => pure (.postflightFailed detail)
    | .error e => pure (.rollbackFailed (detail ++ "; restoring the previous helper also failed: " ++ e.text))
  else
    suppress (DiskRun.unlink .prev)
    pure (.updated version build running.1 running.2)

/-- `shutil.rmtree`, whose errors are ignored. -/
def removeTmpDir : UpdateRun Unit := do
  suppress (DiskRun.unlink (.tmp "candidate.sig"))
  suppress (DiskRun.unlink (.tmp "allowed_signers"))
  suppress (DiskRun.unlink (.tmp "final"))

/-- `op_update`, in a helper whose version and build are `running`. -/
def opUpdate (running : ℕ × ℕ) (facts : UpdateFacts) (request : Option UpdateRequest) : UpdateRun UpdateReply :=
  match request with
  | none => pure .notAllowed
  | some request =>
    if request.candidate = [] ∨ UPDATE_MAX_HELPER < request.candidate.length ∨
        UPDATE_MAX_SIGNATURE < request.signature.length then pure .notAllowed
    else if facts.keygen = false then pure .noSshKeygen
    else match facts.noTmpDir with
    | some text => throw ⟨.other, text⟩
    | none => finally_ (do
        match ← prepare running facts request with
        | .error reply => pure reply
        | .ok (version, build) => replaceInstalled running facts version build) removeTmpDir

/-! ## What an update does -/

section Specs

open DiskRun

variable {who : Account} {w t : UpdateHost} {name : UpdateName}

/-- The hosts differ under one name alone. -/
def Elsewhere (name : UpdateName) (w t : UpdateHost) : Prop := ∀ other, other ≠ name → t.disk other = w.disk other

theorem elsewhere_put (name : UpdateName) (entry : Option DiskEntry) (w : UpdateHost) :
    Elsewhere name w (w.put name entry) := fun _ hne => World.put_ne w entry hne

theorem Elsewhere.trans {w t u : UpdateHost} (h : Elsewhere name w t) (h' : Elsewhere name t u) :
    Elsewhere name w u := fun other hne => (h' other hne).trans (h other hne)

/-- A file with some data stands under a name. -/
def Holds (t : UpdateHost) (name : UpdateName) (data : List UInt8) : Prop :=
  ∃ st : Stored, t.disk name = some (.file st) ∧ st.data = data

theorem Holds.of_elsewhere {other : UpdateName} {data : List UInt8} (h : Holds w other data)
    (ht : Elsewhere name w t) (hne : other ≠ name) : Holds t other data := by
  obtain ⟨st, hst, hdata⟩ := h
  exact ⟨st, (ht other hne).trans hst, hdata⟩

theorem isLink_spec {R : Except OsError Bool → UpdateHost → Prop} (h : ∀ answer, R (.ok answer) w) :
    (isLink name).EndsIn who R w := by
  refine ends_bind (ends_attempt (ends_lstat (fun e _ => h false) fun entry _ => ?_))
  cases entry with
  | link => exact h true
  | file | dir | special => exact h false

theorem isFile_spec {R : Except OsError Bool → UpdateHost → Prop} (h : ∀ answer, R (.ok answer) w) :
    (isFile name).EndsIn who R w := by
  refine ends_bind (ends_attempt (ends_lstat (fun e _ => h false) fun entry _ => ?_))
  cases entry with
  | file => exact h true
  | link | dir | special => exact h false

variable {R : Except OsError Unit → UpdateHost → Prop}

theorem writeFile_spec {data : List UInt8} (herror : ∀ e t, Elsewhere name w t → R (.error e) t)
    (hok : ∀ t, Elsewhere name w t → Holds t name data → R (.ok ()) t) :
    (writeFile name data).EndsIn who R w := by
  refine ends_bind (ends_openWrite (fun e => herror e w fun _ _ => rfl) fun stored _ => ?_)
  have hput := elsewhere_put name (some (.file stored)) w
  refine ends_write (World.put_self ..) (fun e part => ?_) ?_
  · exact herror e _ (hput.trans (elsewhere_put _ _ _))
  · exact hok _ (hput.trans (elsewhere_put _ _ _)) ⟨_, World.put_self .., rfl⟩

theorem chmod_spec {data : List UInt8} {mode : ℕ} (hfile : Holds w name data) (herror : ∀ e, R (.error e) w)
    (hok : ∀ t, Elsewhere name w t → Holds t name data → R (.ok ()) t) :
    (DiskRun.chmod name mode : UpdateRun Unit).EndsIn who R w := by
  obtain ⟨st, hst, hdata⟩ := hfile
  exact ends_chmod hst herror (hok _ (elsewhere_put _ _ _) ⟨_, World.put_self .., hdata⟩)

theorem makeExecutable_spec {data : List UInt8} (hfile : Holds w name data)
    (herror : ∀ e t, Elsewhere name w t → R (.error e) t)
    (hok : ∀ t, Elsewhere name w t → Holds t name data → R (.ok ()) t) :
    (makeExecutable name).EndsIn who R w := by
  obtain ⟨st, hst, hdata⟩ := hfile
  refine ends_bind (ends_chown hst (fun e => herror e w fun _ _ => rfl) ?_)
  have hput := elsewhere_put name
    (some (.file { st with uid := (some 0).getD st.uid, gid := (some 0).getD st.gid })) w
  refine chmod_spec ⟨_, World.put_self .., hdata⟩ (fun e => herror e _ hput) fun t ht hholds => ?_
  exact hok t (hput.trans ht) hholds

theorem copy2_spec {src dst : UpdateName} {data : List UInt8} (hne : src ≠ dst) (hsrc : Holds w src data)
    (herror : ∀ e t, Elsewhere dst w t → R (.error e) t)
    (hok : ∀ t, Elsewhere dst w t → Holds t dst data → R (.ok ()) t) : (copy2 src dst).EndsIn who R w := by
  obtain ⟨st, hst, rfl⟩ := hsrc
  have hsame : Elsewhere dst w w := fun _ _ => rfl
  refine ends_bind (ends_openRead (fun e _ => herror e w hsame) fun _ => ?_)
  refine ends_bind (ends_read hst (fun e => herror e w hsame) ?_)
  refine ends_bind (writeFile_spec (fun e t ht => herror e t ht) fun t ht hholds => ?_)
  refine ends_bind (ends_fstat (fun e => herror e t ht) fun entry hentry => ?_)
  obtain rfl : entry = .file st := Option.some.inj (hentry.symm.trans ((ht src hne).trans hst))
  refine chmod_spec hholds (fun e => herror e t ht) fun u hu hholds' => hok u (ht.trans hu) hholds'

theorem removeTmpDir_spec (h : ∀ u, u.disk .installed = w.disk .installed → u.disk .prev = w.disk .prev → R (.ok ()) u) :
    (removeTmpDir).EndsIn who R w := by
  have hone : ∀ (file : String) (t : UpdateHost) (R : Except OsError Unit → UpdateHost → Prop),
      (∀ u, u.disk .installed = t.disk .installed → u.disk .prev = t.disk .prev → R (.ok ()) u) →
      (suppress (DiskRun.unlink (.tmp file)) : UpdateRun Unit).EndsIn who R t := by
    intro file t R hR
    refine (Prog.wp_handle _ _ _).mpr (ends_unlink (fun e _ => ?_) (fun e _ => ?_) fun _ => ?_)
    · exact hR _ rfl rfl
    · exact hR _ rfl rfl
    · exact hR _ (World.put_ne _ _ nofun) (World.put_ne _ _ nofun)
  refine ends_bind (hone _ _ _ fun t hinstalled hprev => ?_)
  refine ends_bind (hone _ _ _ fun u hinstalled' hprev' => ?_)
  refine hone _ _ _ fun v hinstalled'' hprev'' => h v ?_ ?_
  · rw [hinstalled'', hinstalled', hinstalled]
  · rw [hprev'', hprev', hprev]

/-- A reply that leaves the helper as it was. -/
def UpdateReply.leaves : UpdateReply → Bool
  | .updated .. | .rollbackFailed _ => false
  | _ => true

variable {running : ℕ × ℕ} {facts : UpdateFacts} {request : UpdateRequest} {old : List UInt8}

/-- The candidate is ready to replace the helper, which is kept beside it. -/
structure Prepared (running : ℕ × ℕ) (request : UpdateRequest) (old : List UInt8) (version build : ℕ)
    (t : UpdateHost) : Prop where
  version_le : running.1 ≤ version
  build_lt : running.2 < build
  declares : declared request.candidate = some (version, build)
  final : Holds t (.tmp "final") request.candidate
  prev : Holds t .prev old

theorem prepare_spec {R : Except OsError (Except UpdateReply (ℕ × ℕ)) → UpdateHost → Prop}
    (hold : Holds w .installed old)
    (herror : ∀ e t, Holds t .installed old → R (.error e) t)
    (hreply : ∀ reply t, reply.leaves = true → Holds t .installed old → R (.ok (.error reply)) t)
    (hok : ∀ version build t, Holds t .installed old → Prepared running request old version build t →
      R (.ok (.ok (version, build))) t) : (prepare running facts request).EndsIn who R w := by
  unfold prepare
  refine ends_bind (writeFile_spec (fun e u hu => herror e u (hold.of_elsewhere hu (by rintro ⟨⟩))) fun t ht _ => ?_)
  replace hold := hold.of_elsewhere ht (by rintro ⟨⟩)
  refine ends_bind (writeFile_spec (fun e u hu => herror e u (hold.of_elsewhere hu (by rintro ⟨⟩))) fun t ht _ => ?_)
  replace hold := hold.of_elsewhere ht (by rintro ⟨⟩)
  dsimp only
  by_cases hverified : facts.verification ≠ .exited 0
  · rw [if_pos hverified]
    exact hreply _ _ rfl hold
  rw [if_neg hverified]
  split
  · next versionDigits buildDigits hversionDigits hbuildDigits =>
    split
    · next version build hversion hbuild =>
      have hdeclared : declared request.candidate = some (version, build) := by
        unfold declared
        rw [hversionDigits, hbuildDigits]
        show (do
          let version ← Text.natOf versionDigits
          let build ← Text.natOf buildDigits
          return (version, build) : Option (ℕ × ℕ)) = _
        rw [hversion, hbuild]
        rfl
      by_cases hlower : version < running.1
      · rw [if_pos hlower]
        exact hreply _ _ rfl hold
      rw [if_neg hlower]
      by_cases hnewer : build ≤ running.2
      · rw [if_pos hnewer]
        exact hreply _ _ rfl hold
      rw [if_neg hnewer]
      refine ends_bind (isLink_spec fun link => ?_)
      cases link with
      | true => exact hreply _ _ rfl hold
      | false =>
        refine ends_bind (isFile_spec fun file => ?_)
        cases file with
        | false => exact hreply _ _ rfl hold
        | true =>
          refine ends_bind (writeFile_spec (fun e u hu => herror e u (hold.of_elsewhere hu (by rintro ⟨⟩)))
            fun t ht hfinal => ?_)
          replace hold := hold.of_elsewhere ht (by rintro ⟨⟩)
          cases hpre : probeHelperVersion facts.preflight with
          | error e => exact herror e _ hold
          | ok pre =>
            show EndsIn who (if (!pre.reports version build) = true then _ else _) R t
            by_cases hreports : (!pre.reports version build) = true
            · rw [if_pos hreports]
              exact hreply _ _ rfl hold
            rw [if_neg hreports]
            refine ends_bind (isLink_spec fun link => ?_)
            cases link with
            | true => exact hreply _ _ rfl hold
            | false =>
              -- the helper is copied, and both copies are made ready
              refine ends_bind (copy2_spec (by rintro ⟨⟩) hold (fun e u hu => herror e u (hold.of_elsewhere hu (by rintro ⟨⟩)))
                fun t ht hprev => ?_)
              replace hold := hold.of_elsewhere ht (by rintro ⟨⟩)
              replace hfinal := hfinal.of_elsewhere ht (by rintro ⟨⟩)
              refine ends_bind (makeExecutable_spec hprev
                (fun e u hu => herror e u (hold.of_elsewhere hu (by rintro ⟨⟩))) fun t ht hprev => ?_)
              replace hold := hold.of_elsewhere ht (by rintro ⟨⟩)
              replace hfinal := hfinal.of_elsewhere ht (by rintro ⟨⟩)
              refine ends_bind (makeExecutable_spec hfinal
                (fun e u hu => herror e u (hold.of_elsewhere hu (by rintro ⟨⟩))) fun t ht hfinal => ?_)
              exact hok version build t (hold.of_elsewhere ht (by rintro ⟨⟩)) {
                version_le := Nat.not_lt.mp hlower, build_lt := Nat.not_le.mp hnewer
                declares := hdeclared, final := hfinal, prev := hprev.of_elsewhere ht (by rintro ⟨⟩) }
    · exact herror _ _ hold
  · exact hreply _ _ rfl hold

/-- How an update ends: the helper is what it was, or the candidate that has reported what it declares, or the
candidate where the way back failed. -/
def Updated (running : ℕ × ℕ) (facts : UpdateFacts) (request : Option UpdateRequest) (old : List UInt8) :
    Except OsError UpdateReply → UpdateHost → Prop
  | .ok (.updated version build previousVersion previousBuild), t => ∃ r post, request = some r ∧
      Holds t .installed r.candidate ∧ declared r.candidate = some (version, build) ∧
      (previousVersion, previousBuild) = running ∧ previousVersion ≤ version ∧ previousBuild < build ∧
      probeHelperVersion facts.postflight = .ok post ∧ post.reports version build = true
  | .ok (.rollbackFailed _), t => ∃ r version build, request = some r ∧ Holds t .installed r.candidate ∧
      Holds t .prev old ∧ declared r.candidate = some (version, build) ∧ running.1 ≤ version ∧ running.2 < build
  | _, t => Holds t .installed old

theorem updated_of_leaves {reply : UpdateReply} {r : Option UpdateRequest} (h : reply.leaves = true)
    (hold : Holds t .installed old) : Updated running facts r old (.ok reply) t := by
  cases reply with
  | updated | rollbackFailed => cases h
  | _ => exact hold

/-- The end of an update does not depend on the files of its directory. -/
theorem Updated.of_same {result : Except OsError UpdateReply} {r : Option UpdateRequest} {u : UpdateHost}
    (h : Updated running facts r old result t) (hinstalled : u.disk .installed = t.disk .installed)
    (hprev : u.disk .prev = t.disk .prev) : Updated running facts r old result u := by
  have hholds : ∀ data, Holds t .installed data → Holds u .installed data := by
    rintro data ⟨st, hst, hdata⟩
    exact ⟨st, hinstalled.trans hst, hdata⟩
  have hholds' : ∀ data, Holds t .prev data → Holds u .prev data := by
    rintro data ⟨st, hst, hdata⟩
    exact ⟨st, hprev.trans hst, hdata⟩
  match result with
  | .error _ => exact hholds _ h
  | .ok (.updated ..) =>
    obtain ⟨r', post, hr, hnew, hrest⟩ := h
    exact ⟨r', post, hr, hholds _ hnew, hrest⟩
  | .ok (.rollbackFailed _) =>
    obtain ⟨r', version, build, hr, hnew, hkept, hrest⟩ := h
    exact ⟨r', version, build, hr, hholds _ hnew, hholds' _ hkept, hrest⟩
  | .ok .notAllowed | .ok .noSshKeygen | .ok .badSignature | .ok .unparseable | .ok (.notNewer _)
  | .ok (.symlink _) | .ok .notInstalled | .ok (.preflightFailed _) | .ok (.postflightFailed _) =>
    exact hholds _ h

/-- The helper that is asked after the replacement prints no JSON that is nested too deeply. -/
def UpdateFacts.Readable (facts : UpdateFacts) : Prop := facts.postflight ≠ .printed .tooDeep

theorem tooDeep_of_error {run : ProbeRun} {e : OsError} (h : probeHelperVersion run = .error e) :
    run = .printed .tooDeep := by
  unfold probeHelperVersion at h
  split at h
  · cases h
  · cases h
  · cases h
  · rfl
  · split at h <;> cases h
  · cases h

theorem replaceInstalled_spec {version build : ℕ} (hreadable : facts.Readable)
    (hold : Holds w .installed old) (hprepared : Prepared running request old version build w) :
    (replaceInstalled running facts version build).EndsIn who (Updated running facts (some request) old) w := by
  obtain ⟨final, hfinal, hcandidate⟩ := hprepared.final
  obtain ⟨prev, hprev, hkept⟩ := hprepared.prev
  refine ends_bind (ends_replace hfinal (fun e => hold) fun _ => ?_)
  set t := (w.put (.tmp "final") none).put .installed (some (.file final)) with ht
  have hnew : t.disk .installed = some (.file final) := World.put_self ..
  have hprev' : t.disk .prev = some (.file prev) := by
    rw [ht, World.put_ne _ _ (by nofun : UpdateName.prev ≠ .installed),
      World.put_ne _ _ (by nofun : UpdateName.prev ≠ .tmp "final")]
    exact hprev
  cases hpost : probeHelperVersion facts.postflight with
  | error e => exact absurd (tooDeep_of_error hpost) hreadable
  | ok post =>
    show EndsIn who (if facts.notSynced ≠ none ∨ (!post.reports version build) = true then _ else _) _ t
    by_cases hbad : facts.notSynced ≠ none ∨ (!post.reports version build) = true
    · rw [if_pos hbad]
      refine ends_bind (ends_attempt (ends_replace hprev' (fun e => ?_) fun _ => ?_))
      · exact ⟨request, version, build, rfl, ⟨final, hnew, hcandidate⟩, ⟨prev, hprev', hkept⟩,
          hprepared.declares, hprepared.version_le, hprepared.build_lt⟩
      · exact ⟨prev, World.put_self .., hkept⟩
    · rw [if_neg hbad]
      rw [not_or, not_not] at hbad
      have hdone : ∀ u : UpdateHost, u.disk .installed = t.disk .installed →
          Updated running facts (some request) old (.ok (.updated version build running.1 running.2)) u :=
        fun u hu => ⟨request, post, rfl, ⟨final, hu.trans hnew, hcandidate⟩, hprepared.declares, rfl,
          hprepared.version_le, hprepared.build_lt, hpost, by simpa using hbad.2⟩
      refine ends_bind ((Prog.wp_handle _ _ _).mpr (ends_unlink (fun e _ => ?_) (fun e _ => ?_) fun _ => ?_))
      · exact hdone _ rfl
      · exact hdone _ rfl
      · exact hdone _ (World.put_ne _ _ nofun)

theorem opUpdate_spec {request : Option UpdateRequest} (hreadable : facts.Readable) (hold : Holds w .installed old) :
    (opUpdate running facts request).EndsIn who (Updated running facts request old) w := by
  cases request with
  | none => exact hold
  | some request =>
    unfold opUpdate
    dsimp only
    split_ifs with hsize hkeygen
    · exact hold
    · exact hold
    · cases facts.noTmpDir with
      | some text => exact hold
      | none =>
        -- what the directory held is removed however the update ends
        have hremove : ∀ (result : Except OsError UpdateReply) t,
            Updated running facts (some request) old result t →
            EndsIn who (removeTmpDir >>= fun _ => Prog.ofExcept result)
              (Updated running facts (some request) old) t := by
          intro result t h
          refine ends_bind (removeTmpDir_spec fun u hinstalled hprev => ?_)
          exact (Prog.wp_ofExcept _ _).mpr (h.of_same hinstalled hprev)
        refine ends_bind (ends_attempt (ends_bind (prepare_spec hold (fun e t ht => hremove _ t ht)
          (fun reply t hleaves ht => hremove _ t (updated_of_leaves hleaves ht)) fun version build t ht hprepared => ?_)))
        exact ends_mono (replaceInstalled_spec hreadable ht hprepared) fun result u h => hremove result u h

theorem updated_run (who : Account) {request : Option UpdateRequest} (running : ℕ × ℕ) (decisions : ℕ → DiskDecision)
    (hreadable : facts.Readable) (hold : Holds w .installed old) :
    let ended := (opUpdate running facts request).run (diskOps who) decisions w
    Updated running facts request old ended.result ended.state :=
  (Prog.wp_sound (opUpdate_spec hreadable hold) decisions).1

/-! ## Updates one after the other -/

/-- An update that the installed helper is asked for, and what it meets. -/
structure UpdateStep where
  facts : UpdateFacts
  request : Option UpdateRequest
  decisions : ℕ → DiskDecision

/-- The version and the build of the installed helper. -/
def runningOf (w : UpdateHost) : Option (ℕ × ℕ) :=
  match w.disk .installed with
  | some (.file st) => declared st.data
  | _ => none

/-- The installed helper, where there is one, updates itself. -/
def stepUpdate (who : Account) (w : UpdateHost) (s : UpdateStep) : UpdateHost :=
  match runningOf w with
  | none => w
  | some running => ((opUpdate running s.facts s.request).run (diskOps who) s.decisions w).state

def runUpdates (who : Account) (w : UpdateHost) (steps : List UpdateStep) : UpdateHost :=
  steps.foldl (stepUpdate who) w

/-- The installed helper declares a version and a build that are no lower than these. -/
def NotBelow (version build : ℕ) (w : UpdateHost) : Prop :=
  ∃ data running, Holds w .installed data ∧ declared data = some running ∧ version ≤ running.1 ∧ build ≤ running.2

theorem notBelow_step {version build : ℕ} {s : UpdateStep} (hreadable : s.facts.Readable)
    (h : NotBelow version build w) : NotBelow version build (stepUpdate who w s) := by
  obtain ⟨data, running, hdata, hdeclared, hversion, hbuild⟩ := h
  have hrunning : runningOf w = some running := by
    obtain ⟨st, hst, rfl⟩ := hdata
    unfold runningOf
    rw [hst]
    exact hdeclared
  have hstep : stepUpdate who w s =
      ((opUpdate running s.facts s.request).run (diskOps who) s.decisions w).state := by
    unfold stepUpdate
    rw [hrunning]
  obtain ⟨ended, hended, hupdated⟩ : ∃ ended, ended =
      (opUpdate running s.facts s.request).run (diskOps who) s.decisions w ∧
      Updated running s.facts s.request data ended.result ended.state :=
    ⟨_, rfl, updated_run who running s.decisions hreadable hdata⟩
  rw [hstep, ← hended]
  have hkept : Holds ended.state .installed data → NotBelow version build ended.state :=
    fun hheld => ⟨data, running, hheld, hdeclared, hversion, hbuild⟩
  match hresult : ended.result with
  | .ok (.updated v b v' b') =>
    rw [hresult] at hupdated
    obtain ⟨r, post, -, hnew, hdeclared', hprevious, hv, hb, -⟩ := hupdated
    rw [← hprevious] at hversion hbuild
    exact ⟨r.candidate, (v, b), hnew, hdeclared', hversion.trans hv, hbuild.trans hb.le⟩
  | .ok (.rollbackFailed _) =>
    rw [hresult] at hupdated
    obtain ⟨r, v, b, -, hnew, -, hdeclared', hv, hb⟩ := hupdated
    exact ⟨r.candidate, (v, b), hnew, hdeclared', hversion.trans hv, hbuild.trans hb.le⟩
  | .error _ | .ok .notAllowed | .ok .noSshKeygen | .ok .badSignature | .ok .unparseable | .ok (.notNewer _)
  | .ok (.symlink _) | .ok .notInstalled | .ok (.preflightFailed _) | .ok (.postflightFailed _) =>
    rw [hresult] at hupdated
    exact hkept hupdated

theorem notBelow_run {version build : ℕ} {steps : List UpdateStep} (hreadable : ∀ s ∈ steps, s.facts.Readable)
    (h : NotBelow version build w) : NotBelow version build (runUpdates who w steps) := by
  induction steps generalizing w with
  | nil => exact h
  | cons s steps ih =>
    have hstep : NotBelow version build (stepUpdate who w s) := notBelow_step (hreadable s List.mem_cons_self) h
    exact ih (fun s' hs' => hreadable s' (List.mem_cons_of_mem _ hs')) hstep

/-- In every sequence of updates in which no helper prints JSON that is nested too deeply once it is installed, no
version and no build goes down, and each update ends as `Updated` says. -/
theorem updates_kept (who : Account) (w : UpdateHost) {old : List UInt8} {version build : ℕ}
    (steps : List UpdateStep) (hold : Holds w .installed old) (hdeclared : declared old = some (version, build))
    (hreadable : ∀ s ∈ steps, s.facts.Readable) :
    ∀ before, before <+: steps → ∃ data running, Holds (runUpdates who w before) .installed data ∧
      declared data = some running ∧ version ≤ running.1 ∧ build ≤ running.2 ∧
      ∀ s, before ++ [s] <+: steps →
        let ended := (opUpdate running s.facts s.request).run (diskOps who) s.decisions (runUpdates who w before)
        Updated running s.facts s.request data ended.result ended.state := by
  intro before hbefore
  obtain ⟨data, running, hdata, hrunning, hversion, hbuild⟩ : NotBelow version build (runUpdates who w before) :=
    notBelow_run (fun s hs => hreadable s (hbefore.subset hs)) ⟨old, (version, build), hold, hdeclared, le_rfl, le_rfl⟩
  refine ⟨data, running, hdata, hrunning, hversion, hbuild, fun s hs => ?_⟩
  have hsafe : s.facts.Readable := hreadable s (hs.subset (List.mem_append_right _ (List.mem_singleton_self s)))
  exact updated_run who running s.decisions hsafe hdata

/-- The text of a helper of version 7. -/
def helperText (build : ℕ) : List UInt8 :=
  ("HELPER_VERSION = 7\nHELPER_BUILD = " ++ String.ofList (Nat.toDigits 10 build) ++ "\n").toList.map fun c =>
    UInt8.ofNat c.toNat

/-- A host where build 22 is installed. -/
def installedHost : UpdateHost :=
  ⟨fun | .installed => some (.file ⟨helperText 22, 0, 0, 0o755⟩) | _ => none, []⟩

/-- The answer of build 23 to `version`. -/
def answers23 : ProbeRun :=
  .printed (.json (.obj [("ok", .bool true), ("helper_version", .int 7), ("helper_build", .int 23)]))

/-- An update to build 23, which answers the second probe in some way. -/
def updateTo23 (postflight : ProbeRun) : UpdateStep where
  facts := {
    keygen := true, noTmpDir := none, signers := [], verification := .exited 0
    preflight := answers23, postflight := postflight, notSynced := none }
  request := some { candidate := helperText 23, signature := [] }
  decisions _ := ⟨none, [], 0⟩

theorem updates_kept_sample : ∃ data running,
    Holds (runUpdates ⟨0, 0⟩ installedHost [updateTo23 answers23]) .installed data ∧
      declared data = some running ∧ 7 ≤ running.1 ∧ 22 ≤ running.2 := by
  have hold : Holds installedHost .installed (helperText 22) := ⟨_, rfl, rfl⟩
  have hdeclared : declared (helperText 22) = some (7, 22) := by decide +kernel
  have hreadable : ∀ s ∈ [updateTo23 answers23], s.facts.Readable := by
    intro s hs
    rw [List.mem_singleton.mp hs]
    nofun
  obtain ⟨data, running, hdata, hrunning, hversion, hbuild, -⟩ := updates_kept ⟨0, 0⟩ installedHost
    [updateTo23 answers23] hold hdeclared hreadable [updateTo23 answers23] (List.prefix_refl _)
  exact ⟨data, running, hdata, hrunning, hversion, hbuild⟩

/-- A helper whose second answer is nested too deeply stays installed, though the reply is no `ok`. -/
theorem left_installed : ¬ ∀ (running : ℕ × ℕ) (s : UpdateStep) (w : UpdateHost) (old : List UInt8),
    Holds w .installed old →
    let ended := (opUpdate running s.facts s.request).run (diskOps ⟨0, 0⟩) s.decisions w
    Holds ended.state .installed old ∨ (∃ v b v' b', ended.result = .ok (.updated v b v' b')) ∨
      ∃ detail, ended.result = .ok (.rollbackFailed detail) := by
  intro h
  have hold : Holds installedHost .installed (helperText 22) := ⟨_, rfl, rfl⟩
  have hended := h (7, 22) (updateTo23 (.printed .tooDeep)) installedHost (helperText 22) hold
  have hresult : ((opUpdate (7, 22) (updateTo23 (.printed .tooDeep)).facts
      (updateTo23 (.printed .tooDeep)).request).run (diskOps ⟨0, 0⟩) (updateTo23 (.printed .tooDeep)).decisions
      installedHost).result = .error ⟨.other, "maximum recursion depth exceeded"⟩ := by decide +kernel
  have hstate : ((opUpdate (7, 22) (updateTo23 (.printed .tooDeep)).facts
      (updateTo23 (.printed .tooDeep)).request).run (diskOps ⟨0, 0⟩) (updateTo23 (.printed .tooDeep)).decisions
      installedHost).state.disk .installed = some (.file ⟨helperText 23, 0, 0, 0o755⟩) := by decide +kernel
  rcases hended with ⟨st, hst, hdata⟩ | ⟨v, b, v', b', hupdated⟩ | ⟨detail, hfailed⟩
  · have hentry : some (DiskEntry.file st) = some (.file ⟨helperText 23, 0, 0, 0o755⟩) := hst.symm.trans hstate
    have hsame : st.data = helperText 23 := congrArg Stored.data (DiskEntry.file.inj (Option.some.inj hentry))
    exact absurd (hsame.symm.trans hdata) (by decide +kernel)
  · cases hresult.symm.trans hupdated
  · cases hresult.symm.trans hfailed

end Specs

end JenKea.Helper
