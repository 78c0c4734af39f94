import JenKea.Lib.Prog
import JenKea.Server

/-!
# The change set

`_run_change_unlocked` of `jen/services/kea_changeset.py` pushes one configuration change to every
Kea server that is a write target: it reads and mutates each one (Plan), tests every result
(Preflight), writes the file targets and then the API targets (Commit), restarts the file targets
(Restart), and records the change on Jen's own side (Finalize). A failure after the first write
puts back what was written.

The function here is a program over `ChangeI`, the operations of `kea_host` and `kea_api_config`
that it calls. Each may raise; `safe` is the source's `_safe`. A configuration is a value of an
arbitrary type `γ`, since a change set only passes configurations on.
-/

namespace JenKea.ChangeSet

open Text

/-- An exception: its class and its text. -/
structure Exc where
  /-- The name of its class. -/
  kind : String
  /-- Its text. -/
  text : String
  deriving DecidableEq, Repr

/-- The result of an operation on a host or over the API. -/
structure HostResult where
  /-- Whether the operation did what it was asked. -/
  ok : Bool
  /-- Why it did not. -/
  code : String := "ok"
  /-- The sentence for a person. -/
  detail : Option String := none
  /-- The digest of what the operation wrote. -/
  sha256 : Option String := none
  /-- The operation may have changed the server and cannot say. -/
  needsHands : Bool := false
  /-- `missingbinary`: the binary that was looked for. -/
  binary : String := ""
  /-- `missingbinary`: why a binary that is there is not run. -/
  reason : String := ""
  /-- `missingbinary`: the build of a helper that says no reason. -/
  oldHelperBuild : Option ℤ := none
  deriving DecidableEq, Repr

/-- What a read answers: the configuration and its digest, the reasons of a read that failed, and
the notes for the operator. -/
structure ReadAnswer (γ : Type) where
  cfg : Option γ
  sha : Option String := none
  errors : List String := []
  notes : List String := []

/-- What `kea_api_config.file_proof` answers, as far as a change set reads it. -/
structure Proof where
  ok : Bool
  why : String := ""
  sha256 : Option String := none

/-- How a line for the operator is shown. -/
inductive Level where
  | success
  | warning
  | error
  deriving DecidableEq, Repr

/-- A line for the operator. -/
abbrev Line : Type := Level × String

/-- The status of a change set. -/
inductive Status where
  | ok
  | nothing
  | noservers
  | aborted
  | rolledBack
  | rollbackFailed
  deriving DecidableEq, Repr

/-- What a change set returns. -/
structure ChangeSetResult where
  status : Status
  /-- The last code seen. -/
  lastCode : String
  lines : List Line := []
  /-- The servers whose restart failed. -/
  restartFailures : List String := []
  /-- The servers that a person has to look at. -/
  needsHands : List String := []
  /-- The servers that a run with status `ok` changed. -/
  covered : List String := []
  /-- `needsHands` by key; a server without an id is `none` where the source lists its id. -/
  needsHandsIds : List (Option Key) := []
  coveredIds : List Key := []
  /-- The targets whose revert failed. -/
  stillNewIds : List Key := []
  deriving DecidableEq, Repr

/-- One server that will receive, or did receive, the mutated configuration. -/
structure Target (γ : Type) where
  server : Server
  name : String
  /-- The configuration that was read; `none` for a host without a file. -/
  beforeCfg : Option γ
  /-- The digest that the write is guarded by. -/
  beforeSha : Option String
  afterCfg : γ
  appliedSha : Option String := none
  allowOverwrite : Bool := true
  tlsPaths : List (String × String) := []
  revertFailed : Bool := false
  transport : Transport := .file
  /-- The digest of the file that the Plan proved. -/
  plannedSha : Option String := none
  /-- Which element of the list of targets this one is. -/
  pos : ℕ := 0

/-- What identifies a target in the bookkeeping. -/
def Target.key {γ : Type} (t : Target γ) : Key :=
  match t.server.id with
  | some n => .id n
  | none => .name t.name

/-- The arguments of a write of a host's file. -/
structure FileWrite (γ : Type) where
  server : Server
  service : Service
  cfg : γ
  tlsPaths : List (String × String) := []
  allowOverwrite : Bool := true
  expectSha256 : Option String
  summary : String
  source : String := "jen"
  helperOnly : Bool := false

/-- The operations of `kea_host` and `kea_api_config` that return a result. -/
inductive HostOp (γ : Type) : Type
  | apiTest (server : Server) (service : Service) (cfg : γ)
  | testConfig (server : Server) (service : Service) (cfg : γ)
      (tlsPaths : List (String × String)) (helperOnly : Bool)
  | apiApply (server : Server) (service : Service) (cfg : γ) (expectHash : Option String)
      (summary : String) (beforeCfg : Option γ) (plannedSha : Option String)
  | applyConfig (write : FileWrite γ)
  | apiRevert (server : Server) (service : Service) (cfg : Option γ)
      (expectHash : Option String) (summary : String) (beforeCfg : Option γ)
  | removeConfig (server : Server) (service : Service) (expectSha256 : Option String)
  | serviceAction (server : Server) (service : Service) (action : String)
  | recordDaemonAfterFileChange (server : Server) (service : Service) (summary : String)

/-- The operations that a change set calls, of `kea_api_config`, `investigation_logging`,
`kea_host`, and `events`, and the caller's own `finalize`. -/
inductive ChangeOp (γ : Type) : Type
  | refreshIfStale (server : Server) (service : Service)
  | probeGate (server : Server)
  | refusalSentence (server : Server)
  | restoreWindow (server : Server)
  | apiRead (server : Server) (service : Service)
  | recordUnreadable (server : Server) (service : Service)
  | pendingBlock (server : Server) (service : Service)
  | fileProof (server : Server) (service : Service)
  | readConfigVersioned (server : Server) (service : Service) (wantErrors : Bool)
  | onHost (op : HostOp γ)
  | finalize (result : ChangeSetResult)
  | emit (kind server detail : String)

/-- What each operation returns when it does not raise. -/
@[reducible] def ChangeOp.Result {γ : Type} : ChangeOp γ → Type
  | .refreshIfStale .. | .finalize .. | .emit .. => Unit
  | .probeGate .. | .refusalSentence .. | .restoreWindow .. => String
  | .recordUnreadable .. | .pendingBlock .. => String
  | .apiRead .. | .readConfigVersioned .. => ReadAnswer γ
  | .fileProof .. => Proof
  | .onHost .. => HostResult

/-- The interface of a change set: each operation answers or raises. -/
@[reducible] def ChangeI (γ : Type) : Interface where
  Op := ChangeOp γ
  Ans o := Except Exc o.Result

/-- A program of the change set. -/
abbrev ChangeM (γ α : Type) : Type := Prog (ChangeI γ) Exc α

variable {γ : Type}

/-- One call; what it raises, the program raises. -/
def ask (o : ChangeOp γ) : ChangeM γ o.Result := .call o Prog.ofExcept

/-- The result that an exception stands for. -/
def Exc.result (e : Exc) : HostResult :=
  { ok := false, code := "error", detail := some s!"{e.kind}: {e.text}" }

/-- `_safe`: one operation, whose exception is a result that is not ok. -/
def safe (o : HostOp γ) : ChangeM γ HostResult := (ask (.onHost o)).handle fun e => .done e.result

/-- The arguments of a change, and what the module reads of its surroundings. -/
structure Change (γ : Type) where
  service : Service
  mutateFn : Option γ → Except Exc (γ × String)
  summary : String
  servers : List Server
  expectedShaFor : Option (Server → Except Exc (Option String)) := none
  restart : Bool := true
  skipCodes : List String := ["notfound", "nochange"]
  codeMessages : String → Option String := fun _ => none
  conflictPhrase : String → String :=
    fun name => s!"the config on {name} changed since you started"
  daemonLabel : String := "Kea"
  tlsPaths : List (String × String) := []
  candidateFor : Option (Server → Option γ → Except Exc (γ × String)) := none
  absentIsExpected : Bool := false
  tlsPathsFor : Option (Server → Except Exc (List (String × String))) := none
  /-- Whether the caller gave a `finalize`. -/
  hasFinalize : Bool := false
  helperOnly : Bool := false
  transport : Option Transport := none
  /-- The whole seconds that the change waited for another one. -/
  waited : ℕ := 0
  /-- `shares_endpoint`: another configured server names the same Kea endpoint. -/
  sharesEndpoint : Server → Bool := fun _ => false
  /-- `_gate_for_reader`: the gate's sentence, as the signed-in reader may see it. -/
  gateForReader : String → String := id
  /-- The name of the file that Jen looks for on a server. -/
  confName : Server → String := fun _ => "kea-dhcp4.conf"

/-! ## Sentences -/

/-- `_tail`: the last 300 characters. -/
def tail (text : Option String) : String :=
  let stripped := strip (text.getD "")
  if stripped.length ≤ 300 then stripped
  else "…" ++ String.ofList (stripped.toList.drop (stripped.length - 300))

/-- `_by_hand`. -/
def byHand (names : List String) : String :=
  s!"{commaJoin names} need attention: check the config on the host, restore the last good one " ++
    "from Servers → Config history, and restart Kea there by hand."

/-- `_by_hand_for`: the file targets and the API targets, each with its own way back. -/
def byHandFor (targets : List (Target γ)) : String :=
  let files := (targets.filter (·.transport ≠ .api)).map (·.name)
  let apis := (targets.filter (·.transport = .api)).map (·.name)
  let apiPart := s!"{commaJoin apis} need attention: ask the daemon what it runs, config-set " ++
    "the previous revision from Servers → Config history, or restart Kea on that host."
  if files = [] then if apis = [] then "" else apiPart
  else if apis = [] then byHand files
  else byHand files ++ " " ++ apiPart

/-- `_conflict_line`: the conflict line of one target. -/
def conflictLine (c : Change γ) (t : Target γ) : String :=
  let note := if c.sharesEndpoint t.server then " (two servers name one Kea endpoint)" else ""
  s!"❌ {t.name}: {c.conflictPhrase t.name}{note}"

/-- `missing_binary_text` with its advice. -/
def missingBinaryText (res : HostResult) : String :=
  let binary := orElse res.binary "the Kea binary"
  let reason := strip res.reason
  if reason ≠ "" then
    s!"{binary} is present but the helper will not run it: {reason} — update the helper (build " ++
      "10 or later) / fix the ownership"
  else
    let old := match res.oldHelperBuild with
      | some build => " (or, on a Kea installed from ISC's packages, this helper - build " ++
          s!"{build} - cannot run it: builds before 10 refuse a daemon binary owned by its " ++
          "service account; update the helper from Settings → Kea → SSH)"
      | none => ""
    s!"{binary} is not installed on this server{old} — install it and try again"

/-- `_failure_line`: the phrase of a test or a write that is not ok and not a conflict. -/
def failureLine (name : String) (res : HostResult) (daemonLabel : String) : String :=
  let detail := res.detail.getD "None"
  if res.code = "missingbinary" then s!"❌ {name}: {missingBinaryText res}."
  else if res.code = "investigation-on" then
    s!"❌ {name}: {detail} (nothing was written to {name})"
  else if res.code = "testerror" then
    s!"❌ {name}: config validation failed — {daemonLabel} NOT restarted, original config " ++
      s!"preserved. Error: {detail}"
  else s!"❌ {name}: {res.detail.getD res.code}"

/-- The line of a test or a write that is not ok. -/
def refusedLine (c : Change γ) (t : Target γ) (res : HostResult) : Line :=
  if res.code = "conflict" then (.error, conflictLine c t)
  else (.error, failureLine t.name res c.daemonLabel)

/-! ## Phase 1: plan -/

/-- What the Plan has so far. -/
structure Planned (γ : Type) where
  targets : List (Target γ) := []
  lines : List Line := []
  lastCode : String := "ok"

/-- The end of a change set before any write. -/
def aborted (code : String) (lines : List Line) : ChangeSetResult :=
  { status := .aborted, lastCode := code, lines := lines }

/-- An abort that names the server for a person. -/
def abortedForHands (code : String) (lines : List Line) (name : String) (server : Server) :
    ChangeSetResult :=
  { status := .aborted, lastCode := code, lines := lines, needsHands := [name],
    needsHandsIds := [server.id.map Key.id] }

/-- `except Exception` of the Plan: the exception's text is the line, and the change set ends. -/
def excepted {α : Type} (name : String) (lines : List Line) (e : Exc) :
    ChangeM γ (α ⊕ ChangeSetResult) :=
  .done (.inr (aborted "error" (lines ++ [(.error, s!"❌ {name}: {e.text}")])))

/-- What the Plan read of one server: the configuration, its digest, and the digest of the file
that was proved. -/
structure Seen (γ : Type) where
  cfg : Option γ
  sha : Option String
  plannedSha : Option String := none
  lines : List Line

/-- The host's restore window, which only a change of the DHCPv4 service asks for. -/
def windowOf (c : Change γ) (server : Server) : ChangeM γ String :=
  if c.service = .dhcp4 then ask (.restoreWindow server) else pure ""

/-- The Plan's questions to an API target up to its read. -/
def readApi (c : Change γ) (server : Server) (name : String) (lines : List Line) :
    ChangeM γ (ReadAnswer γ ⊕ ChangeSetResult) := do
  ask (.refreshIfStale server c.service)
  let gated ← ask (.probeGate server)
  if gated ≠ "" then
    let lines := lines ++ [(.error, s!"❌ {name}: {c.gateForReader gated}")]
    let refused ← ask (.refusalSentence server)
    return .inr (if refused ≠ "" then abortedForHands "needs-hands" lines name server
      else aborted "needs-probe" lines)
  let window ← windowOf c server
  if window ≠ "" then
    let line := s!"❌ {name}: {window} (nothing was written to any server)"
    return .inr (aborted "investigation-on" (lines ++ [(.error, line)]))
  return .inl (← ask (.apiRead server c.service))

/-- `_unloaded_edit`: for an API target with SSH, the file must be one the daemon has loaded. -/
def unloadedEdit (c : Change γ) (server : Server) : ChangeM γ (String × Option String) :=
  if ¬ server.hasSsh ∨ serviceKey c.service = none then pure ("", none)
  else do
    let proof ← ask (.fileProof server c.service)
    if ¬ proof.ok then return (proof.why, none)
    return ("", proof.sha256)

/-- The Plan's questions to an API target after its read. -/
def proveApi (c : Change γ) (server : Server) (name : String) (r : ReadAnswer γ)
    (lines : List Line) : ChangeM γ (Seen γ ⊕ ChangeSetResult) := do
  match r.cfg with
  | none =>
    let why := r.errors.headD "the daemon did not answer"
    return .inr (aborted "error" (lines ++ [(.error, s!"❌ {name}: {why}")]))
  | some cfg =>
    let unreadable ← ask (.recordUnreadable server c.service)
    if unreadable ≠ "" then
      return .inr (aborted "unreadable" (lines ++ [(.error, s!"❌ {name}: {unreadable}")]))
    let unresolved ← ask (.pendingBlock server c.service)
    if unresolved ≠ "" then
      let lines := lines ++ [(.error, s!"❌ {name}: {unresolved}")]
      return .inr (abortedForHands "needs-hands" lines name server)
    let (unloaded, plannedSha) ← unloadedEdit c server
    if unloaded ≠ "" then
      return .inr (aborted "error" (lines ++ [(.error, s!"❌ {name}: {unloaded}")]))
    return .inl ⟨some cfg, r.sha, plannedSha, lines⟩

/-- The Plan's read of a file target. -/
def readFile (c : Change γ) (server : Server) (name : String) (lines : List Line) :
    ChangeM γ (Seen γ ⊕ ChangeSetResult) := do
  let r ← ask (.readConfigVersioned server c.service c.absentIsExpected)
  match r.cfg with
  | some cfg => return .inl ⟨some cfg, r.sha, none, lines⟩
  | none =>
    match c.absentIsExpected, r.errors with
    -- The host answered and has no file, the expected state of a target to author.
    | true, [] => return .inl ⟨none, some "", none, lines⟩
    | true, why :: _ =>
      let line := s!"❌ {name}: its config could not be read ({why})"
      return .inr (aborted "error" (lines ++ [(.error, line)]))
    | false, _ =>
      let line := s!"❌ {name}: {c.confName server} not found on this server"
      return .inr (aborted "notfound-conf" (lines ++ [(.error, line)]))

/-- The Plan's read of one server over its transport. -/
def readServer (c : Change γ) (server : Server) (kind : Transport) (name : String)
    (lines : List Line) : ChangeM γ (Seen γ ⊕ ChangeSetResult) :=
  if kind = .api then do
    match ← (readApi c server name lines).handle (excepted name lines) with
    | .inr r => return .inr r
    | .inl r =>
      let lines := lines ++ r.notes.map fun note => (.warning, s!"ℹ️ {name}: {note}")
      (proveApi c server name r lines).handle (excepted name lines)
  else (readFile c server name lines).handle (excepted name lines)

/-- `candidate_for(server, cfg) if candidate_for else mutate_fn(cfg)`. -/
def Change.mutate (c : Change γ) (server : Server) (cfg : Option γ) : Except Exc (γ × String) :=
  match c.candidateFor with
  | some candidate => candidate server cfg
  | none => c.mutateFn cfg

/-- Whether a digest is blank, in the source's sense of falsy. -/
def blank (sha : Option String) : Bool := sha.getD "" = ""

/-- The digest that the write of a target is guarded by: `expected_sha_for(server)`, or the digest
that was read. -/
def Change.expectedSha (c : Change γ) (server : Server) (kind : Transport) (seen : Seen γ) :
    Except Exc (Option String) := do
  let expected ← (c.expectedShaFor.map (· server)).getD (.ok seen.sha)
  -- A blank form digest never turns the only compare of the API path into no compare.
  return if kind = .api ∧ blank expected then seen.sha else expected

/-- The certificate files that the write of a target reads. -/
def Change.tlsPathsOf (c : Change γ) (server : Server) (kind : Transport) :
    Except Exc (List (String × String)) :=
  if kind = .api then .ok [] else (c.tlsPathsFor.map (· server)).getD (.ok c.tlsPaths)

/-- The target that a server with a candidate becomes, the `pos`-th of the run. -/
def newTarget (c : Change γ) (server : Server) (kind : Transport) (name : String) (seen : Seen γ)
    (afterCfg : γ) (pos : ℕ) : Except Exc (Target γ) := do
  let expected ← c.expectedSha server kind seen
  let tlsPaths ← c.tlsPathsOf server kind
  return { server, name, beforeCfg := seen.cfg, beforeSha := expected, afterCfg,
           allowOverwrite := seen.cfg.isSome, tlsPaths, transport := kind,
           plannedSha := if kind = .api then seen.plannedSha else none, pos }

/-- The Plan's verdict on one server that was read: a target, a skip, or the end. -/
def judge (c : Change γ) (server : Server) (kind : Transport) (name : String) (seen : Seen γ)
    (acc : Planned γ) : Except Exc (Planned γ ⊕ ChangeSetResult) := do
  let (afterCfg, code) ← c.mutate server seen.cfg
  let phrase := (c.codeMessages code).getD code
  if code = "ok" then
    let target ← newTarget c server kind name seen afterCfg acc.targets.length
    return .inl ⟨acc.targets ++ [target], seen.lines, code⟩
  else if code ∈ c.skipCodes then
    return .inl ⟨acc.targets, seen.lines ++ [(.success, s!"ℹ️ {name}: {phrase}")], code⟩
  else return .inr (aborted code (seen.lines ++ [(.error, s!"❌ {name}: {phrase}")]))

/-- The Plan of one server. -/
def planServer (c : Change γ) (planned : Server × Transport) (acc : Planned γ) :
    ChangeM γ (Planned γ ⊕ ChangeSetResult) := do
  let (server, kind) := planned
  let name := server.label
  match ← readServer c server kind name acc.lines with
  | .inr r => return .inr r
  | .inl seen =>
    (Prog.ofExcept (judge c server kind name seen acc)).handle (excepted name seen.lines)

/-- The servers that a run plans, each with its transport. -/
def Change.planned (c : Change γ) : List (Server × Transport) :=
  (c.servers.map fun s => (s, transportForRun s c.service c.transport)).filter (·.2 ≠ .off)

/-- The line of a server that is read-only by its own setting. -/
def readOnlyLine (server : Server) : Line :=
  let name := orElse server.name (orElse server.sshHost "?")
  (.success, s!"ℹ️ {name}: read-only - Jen never changes its configuration")

/-- The lines of the servers that are read-only by their own setting. -/
def Change.readOnlyLines (c : Change γ) : List Line :=
  (c.servers.filter fun s => transportForRun s c.service c.transport = .off ∧
    strip s.configTransport = "off").map readOnlyLine

/-- The line of a change that waited for another one. -/
def Change.waitedLines (c : Change γ) : List Line :=
  if c.waited ≥ 1 then [(.success, s!"ℹ️ waited {c.waited} s for another change")] else []

/-! ## Phase 2: preflight -/

/-- The test of one target, over its transport. -/
def testTarget (c : Change γ) (t : Target γ) : ChangeM γ HostResult :=
  if t.transport = .api then safe (.apiTest t.server c.service t.afterCfg)
  else safe (.testConfig t.server c.service t.afterCfg t.tlsPaths c.helperOnly)

/-- The preflight of one target: whether one failed so far, and the lines. -/
def preflight (c : Change γ) (t : Target γ) (acc : Bool × List Line) :
    ChangeM γ (Bool × List Line) := do
  let res ← testTarget c t
  if res.ok then return acc
  return (true, acc.2 ++ [refusedLine c t res])

/-! ## Phase 3: commit -/

/-- The write of one target, over its transport. -/
def writeTarget (c : Change γ) (t : Target γ) : ChangeM γ HostResult :=
  if t.transport = .api then
    safe (.apiApply t.server c.service t.afterCfg t.beforeSha c.summary t.beforeCfg t.plannedSha)
  else
    safe (.applyConfig
      { server := t.server, service := c.service, cfg := t.afterCfg, tlsPaths := t.tlsPaths,
        allowOverwrite := t.allowOverwrite, expectSha256 := t.beforeSha, summary := c.summary,
        helperOnly := c.helperOnly })

/-- The commit of one target: it joins the committed ones, or the loop ends with it. -/
def commit (c : Change γ) (t : Target γ) (committed : List (Target γ)) :
    ChangeM γ (List (Target γ) ⊕ (List (Target γ) × Target γ × HostResult)) := do
  let res ← writeTarget c t
  if res.ok then return .inl (committed ++ [{ t with appliedSha := res.sha256 }])
  return .inr (committed, t, res)

/-- `_restore_target`: put one committed target back as it was. -/
def restoreTarget (c : Change γ) (t : Target γ) : ChangeM γ HostResult :=
  if t.transport = .api then
    safe (.apiRevert t.server c.service t.beforeCfg t.appliedSha s!"rollback: {c.summary}"
      (some t.afterCfg))
  else match t.beforeCfg with
    | none => safe (.removeConfig t.server c.service t.appliedSha)
    | some cfg =>
      safe (.applyConfig
        { server := t.server, service := c.service, cfg, expectSha256 := t.appliedSha,
          summary := s!"rollback: {c.summary}", source := "rollback",
          helperOnly := c.helperOnly })

/-- A restart of one target's daemon. -/
def restartTarget (c : Change γ) (t : Target γ) : ChangeM γ HostResult :=
  safe (.serviceAction t.server c.service "restart")

/-- The line of a target whose daemon did not restart on the previous configuration. -/
def stuckLine (c : Change γ) (t : Target γ) (again : HostResult) : Line :=
  (.error, s!"❌ {t.name}: previous config restored but {c.daemonLabel} did not restart on it " ++
    s!"({tail again.detail})")

/-- What the rollback of a failed commit has so far: the targets whose revert failed, those whose
daemon did not restart, and the lines. -/
structure Undone (γ : Type) where
  revertFailed : List (Target γ) := []
  restartStuck : List (Target γ) := []
  lines : List Line := []

/-- The rollback of one committed target after a failed commit. -/
def undoCommitted (c : Change γ) (done : Target γ) (acc : Undone γ) : ChangeM γ (Undone γ) := do
  let res ← restoreTarget c done
  if ¬ res.ok then return { acc with revertFailed := acc.revertFailed ++ [done] }
  if c.restart ∧ done.transport = .file then
    let again ← restartTarget c done
    if again.ok then return acc
    return { acc with restartStuck := acc.restartStuck ++ [done],
                      lines := acc.lines ++ [stuckLine c done again] }
  return acc

/-- The lines of a failed rollback after a failed commit. -/
def rollbackFailedLines (t : Target γ) (committed : List (Target γ)) (acc : Undone γ)
    (unproved : List (Target γ)) : List Line :=
  let failedKeys := acc.revertFailed.map Target.key
  let stillNew := acc.revertFailed.map (·.name)
  let rolledBack := (committed.filter (·.key ∉ failedKeys)).map (·.name)
  let rolledBackNames := orElse (commaJoin rolledBack) "(none)"
  let untouched := if unproved.isEmpty then s!"{t.name} was never changed"
    else s!"{t.name} may carry the change (below)"
  (if acc.revertFailed.isEmpty then [] else
    [(.error, s!"🛑 ROLLBACK FAILED — {commaJoin stillNew} still have the NEW config (their " ++
      s!"rollback failed); {rolledBackNames} were rolled back to the old " ++
      s!"config; {untouched}. Fix by hand: Servers → Config history → restore.")]) ++
  (if acc.restartStuck.isEmpty then [] else
    [(.error, "🛑 ROLLBACK FAILED — " ++ byHandFor acc.restartStuck)]) ++
  (if unproved.isEmpty then [] else
    [(.error, "🛑 ROLLBACK FAILED — " ++ byHandFor unproved)])

/-- The end of a commit that failed at `t`, once every committed target was reverted: `aborted`
when nothing is left for a person. -/
def commitFailedResult (committed : List (Target γ)) (t : Target γ) (res : HostResult)
    (acc : Undone γ) : ChangeSetResult :=
  -- An API write whose outcome the daemon's own answer could not prove may carry the change.
  let unproved := if res.needsHands then [t] else []
  let needs := acc.revertFailed ++ acc.restartStuck ++ unproved
  if needs ≠ [] then
    { status := .rollbackFailed, lastCode := res.code,
      lines := acc.lines ++ rollbackFailedLines t committed acc unproved,
      needsHands := needs.map (·.name), needsHandsIds := needs.map fun d => some d.key,
      stillNewIds := acc.revertFailed.map Target.key }
  else
    let names := commaJoin (committed.map (·.name))
    let reverted := if committed.isEmpty then [] else
      [(.error, s!"↩️ reverted {committed.length} server(s) that had already been updated: {names}")]
    aborted res.code (acc.lines ++ reverted)

/-- The end of a commit that failed at `t`: every committed target is reverted. -/
def commitFailed (c : Change γ) (lines : List Line) (committed : List (Target γ)) (t : Target γ)
    (res : HostResult) : ChangeM γ ChangeSetResult := do
  let acc ← Prog.fold (undoCommitted c) committed.reverse { lines := lines ++ [refusedLine c t res] }
  return commitFailedResult committed t res acc

/-! ## Phases 4 and 5: restart and finalize -/

/-- What `_put_everything_back` has so far: the targets that are stuck, and the lines. -/
structure PutBack (γ : Type) where
  stuck : List (Target γ) := []
  lines : List Line := []

/-- `_put_everything_back`, for one target. -/
def putBack (c : Change γ) (restart : Bool) (t : Target γ) (acc : PutBack γ) :
    ChangeM γ (PutBack γ) := do
  let res ← restoreTarget c t
  if ¬ res.ok then
    let line := s!"❌ {t.name}: could not put the previous config back ({tail res.detail})"
    return ⟨acc.stuck ++ [{ t with revertFailed := true }], acc.lines ++ [(.error, line)]⟩
  if ¬ restart ∨ t.transport ≠ .file then return acc
  let again ← restartTarget c t
  if again.ok then return acc
  return ⟨acc.stuck ++ [t], acc.lines ++ [stuckLine c t again]⟩

/-- `_put_everything_back`: every target, in reverse order. -/
def putEverythingBack (c : Change γ) (targets : List (Target γ)) (lines : List Line)
    (restart : Bool) : ChangeM γ (PutBack γ) :=
  Prog.fold (putBack c restart) targets.reverse { lines := lines }

/-- `is` or `are`, for the number of targets. -/
def isOrAre (targets : List (Target γ)) : String := if targets.length = 1 then "is" else "are"

/-- The end of a change that was put back: `rolledBack` when nothing is stuck. -/
def putBackResult (code : String) (back : PutBack γ) (failures stuckFailures : List String)
    (rolledBackLine : String) : ChangeSetResult :=
  if back.stuck ≠ [] then
    { status := .rollbackFailed, lastCode := code,
      lines := back.lines ++ [(.error, "🛑 ROLLBACK FAILED — " ++ byHandFor back.stuck)],
      restartFailures := stuckFailures, needsHands := back.stuck.map (·.name),
      needsHandsIds := back.stuck.map fun s => some s.key,
      stillNewIds := (back.stuck.filter (·.revertFailed)).map Target.key }
  else
    { status := .rolledBack, lastCode := code, lines := back.lines ++ [(.error, rolledBackLine)],
      restartFailures := failures }

/-- The restart of one target, recorded under its key. -/
def restartOne (c : Change γ) (t : Target γ) (acc : List (Key × HostResult)) :
    ChangeM γ (List (Key × HostResult)) := do
  return acc ++ [(t.key, ← restartTarget c t)]

/-- What a dict of restarts holds for a key: the last entry. -/
def restartOf (restarts : List (Key × HostResult)) (k : Key) : HostResult :=
  ((restarts.reverse.find? (·.1 = k)).map (·.2)).getD { ok := false }

/-- Phase 4: restart every file target; when one fails, everything is put back. `none` goes on. -/
def restartPhase (c : Change γ) (targets : List (Target γ)) (lines : List Line) :
    ChangeM γ (Option ChangeSetResult) := do
  let restartable := targets.filter (·.transport = .file)
  if c.restart ∧ restartable ≠ [] then
    let restarts ← Prog.fold (restartOne c) restartable []
    let failed := restartable.filter fun t => ¬ (restartOf restarts t.key).ok
    if failed.isEmpty then return none
    let failedLines := failed.map fun t => (.error, s!"❌ {t.name}: {c.daemonLabel} did NOT " ++
      s!"restart on the new config ({tail (restartOf restarts t.key).detail})")
    let back ← putEverythingBack c targets (lines ++ failedLines) true
    let names := failed.map (·.name)
    return some (putBackResult "restart-failed" back names names
      (s!"↩️ rolled back: {commaJoin (targets.map (·.name))} {isOrAre targets} on the previous " ++
        s!"config and {c.daemonLabel} restarted; the change was NOT applied."))
  return none

/-- The result that a run with every target changed returns, and hands to `finalize`. -/
def applied (targets : List (Target γ)) (lines : List Line) : ChangeSetResult :=
  { status := .ok, lastCode := "ok", lines := lines, covered := targets.map (·.name),
    coveredIds := targets.map Target.key }

/-- Phase 5: what Jen does locally because of the change; when it raises, everything is put
back. `none` goes on. -/
def finalizePhase (c : Change γ) (targets : List (Target γ)) (lines : List Line) :
    ChangeM γ (Option ChangeSetResult) :=
  if c.hasFinalize then
    (do ask (.finalize (applied targets lines)); return none : ChangeM γ _).handle fun e => do
      let line := s!"❌ Jen could not record this change on its own side ({e.kind}); every " ++
        "server is being put back as it was."
      let back ← putEverythingBack c targets (lines ++ [(.error, line)]) c.restart
      return some (putBackResult "finalize-failed" back (targets.map (·.name)) []
        (s!"↩️ rolled back: {commaJoin (targets.map (·.name))} {isOrAre targets} on the previous " ++
          "config; the change was NOT applied."))
  else return none

/-- What is reported of one target once the change stands. -/
def announce (c : Change γ) (t : Target γ) (lines : List Line) : ChangeM γ (List Line) := do
  ask (.emit "config.applied" t.name c.summary)
  if t.transport = .api then
    return lines ++ [(.success, s!"✅ {t.name}: {c.summary}, over the API, no restart")]
  let restarted := if c.restart then s!", {c.daemonLabel} restarted" else ""
  -- A file write onto a server whose transport is the API: record what its daemon runs now.
  if declaredTransport t.server = .api ∧ c.restart then
    let _ ← safe (.recordDaemonAfterFileChange t.server c.service c.summary)
    return lines ++ [(.success, s!"✅ {t.name}: {c.summary}{restarted}")]
  return lines ++ [(.success, s!"✅ {t.name}: {c.summary}{restarted}")]

/-! ## The run -/

/-- The targets with what the commit recorded of each. -/
def withApplied (targets committed : List (Target γ)) : List (Target γ) :=
  targets.map fun t => (committed.find? (·.pos = t.pos)).getD t

/-- The order of the commit: file targets first, then API targets. -/
def commitOrder (targets : List (Target γ)) : List (Target γ) :=
  targets.filter (·.transport ≠ .api) ++ targets.filter (·.transport = .api)

/-- The phases after a commit in which every write answered ok. -/
def afterCommit (c : Change γ) (targets : List (Target γ)) (lines : List Line) :
    ChangeM γ ChangeSetResult := do
  match ← restartPhase c targets lines with
  | some r => return r
  | none =>
    match ← finalizePhase c targets lines with
    | some r => return r
    | none => return applied targets (← Prog.fold (announce c) targets lines)

/-- The phases after the Plan. -/
def afterPlan (c : Change γ) (plan : Planned γ) : ChangeM γ ChangeSetResult := do
  let (failed, lines) ← Prog.fold (preflight c) plan.targets (false, plan.lines)
  if failed then
    return aborted "testerror" (lines ++ [(.error, "ℹ️ nothing was changed on any server")])
  match ← Prog.loop (commit c) (commitOrder plan.targets) [] with
  | .inr (committed, t, res) => commitFailed c lines committed t res
  | .inl committed => afterCommit c (withApplied plan.targets committed) lines

/-- `_run_change_unlocked`. -/
def runChangeUnlocked (c : Change γ) : ChangeM γ ChangeSetResult := do
  let lines := c.readOnlyLines
  if c.planned = [] then
    return { status := .noservers, lastCode := "noservers", lines := lines }
  match ← Prog.loop (planServer c) c.planned { lines := c.waitedLines ++ lines } with
  | .inr r => return r
  | .inl plan =>
    if plan.targets.isEmpty then
      return { status := .nothing, lastCode := plan.lastCode, lines := plan.lines }
    afterPlan c plan

end JenKea.ChangeSet
