import JenKea.Api.Pending

/-!
# Writing a configuration over the API

`apply` of `kea_api_config.py`, the nine steps in their order: the gates, the guard of the API path,
the pending record, the compare of the daemon's digest, `config-set`, `config-write`, the read that
verifies, the file that is read back, and the record that is finished. Each step is a definition of
its own that ends the call or goes on with the next one.
-/

namespace JenKea.Api

open Text

variable {H : Type}

/-- What a call of `apply` is for. -/
inductive Purpose where
  | jen
  | restore
  | rollback
  deriving DecidableEq, Repr

/-- The source of the row that a call records. -/
def Purpose.source : Purpose → Source
  | .jen => .jen
  | .restore => .restore
  | .rollback => .rollback

/-- The arguments of `apply`. -/
structure Write (H : Type) where
  server : Server
  service : Service
  cfg : Cfg
  /-- The digest that was read with the configuration this change was built from. -/
  expectHash : Option H
  summary : String
  purpose : Purpose := .jen
  /-- That configuration. -/
  beforeCfg : Option Cfg := none
  /-- The digest of the file that the Plan proved. -/
  plannedSha : Option H := none
  /-- The Plan asked for the facts already. -/
  refreshed : Bool := false

/-- `WRITE_ATTEMPTS`. -/
def writeAttempts : ℕ := 3

/-- A result that is not ok. -/
def refused (code detail : String) : ApiResult H := { ok := false, code := code, detail := detail }

/-- `_unproved`: a result that is not ok, and needs hands. -/
def unproved (code detail : String) (before after : Option H) : ApiResult H :=
  { ok := false, code := code, detail := detail, needsHands := true, beforeHash := before,
    afterHash := after }

/-- How a digest that may be missing is printed. -/
def digestText [ToString H] (digest : Option H) : String := (digest.map toString).getD "None"

section Steps

variable [DecidableEq H] [ToString H]

/-- `_canonical(a) == _canonical(b)`, of the sections of a service. -/
def sameSection (service : Service) (a b : Cfg) : Bool :=
  (sectionOf (some a) service).canonical = (sectionOf (some b) service).canonical

/-- What `_undo` makes of the daemon's answer: it runs the previous configuration, or one with the
digest that it had. -/
def provedBack (service : Service) (before : Cfg) (beforeHash : H) :
    Except String (Cfg × H) → Bool
  | .ok (cfg, digest) => digest = beforeHash ∨ sameSection service cfg before
  | .error _ => false

/-- `_undo`: the previous configuration is put back, and the daemon's answer proves it. -/
def undo (server : Server) (service : Service) (before : Cfg) (beforeHash : H) :
    ApiM H Bool := do
  let sec ← Prog.ofExcept (body before service)
  let reply ← ask (.cmd server service (.configSet sec))
  -- a refusal is believed; a reply that is missing is asked about
  if !reply.isOk ∧ reply.answered then return false
  let got ← get server service
  return provedBack service before beforeHash got

/-- `_after_a_set_failure`: Kea refused `config-set`, and is asked what it runs. -/
def afterASetFailure (server : Server) (service : Service) (expect : H) (reply : Reply H) :
    ApiM H (ApiResult H) := do
  let now ← hashOf server service
  match now with
  | none =>
    return unproved "noanswer" (s!"{server.label} refused the change and then did not answer; " ++
      "the daemon may have stopped serving - a restart reloads its file, which this change " ++
      "never touched") none none
  | some now =>
    if now = expect then
      return refused "set-failed" (orElse reply.text "config-set was refused")
    return unproved "unverified" (s!"{server.label} refused the change but now runs a " ++
      s!"configuration with digest {now}, not the {expect} it had; the daemon may have stopped " ++
      "serving - a restart reloads its file, which this change never touched") expect now

/-- `_after_a_set_without_an_answer`: only the daemon can say whose configuration it runs. It
goes on with a digest, or ends the call. -/
def afterASetWithoutAnAnswer (server : Server) (service : Service) (cfg before : Cfg)
    (expect : H) : ApiM H (H ⊕ ApiResult H) := do
  let got ← get server service
  match got with
  | .error why =>
    return .inr (unproved "noanswer" (s!"{server.label} did not answer the change or the " ++
      s!"question that followed it ({why}); the daemon may or may not carry it") none none)
  | .ok (got, digest) =>
    if sameSection service got before then
      return .inr (refused "set-failed"
        "config-set got no answer and the daemon still runs the previous configuration")
    if carries (sectionOf (some got) service) (sectionOf (some cfg) service) then
      return .inl digest
    return .inr (unproved "unverified" (s!"{server.label} did not answer config-set and now runs " ++
      s!"a configuration that is neither the change nor the one before it (digest {digest}, " ++
      s!"before {expect})") expect digest)

/-- `_drop_pending`: the pending row of the call goes. -/
def dropPending (pendingId : Option ℕ) : ApiM H Unit :=
  match pendingId with
  | none => return ()
  | some id => do
    let _ ← ask (.discard id)
    return ()

/-- The end of a call that drops its record. -/
def dropped (pendingId : Option ℕ) (r : ApiResult H) : ApiM H (ApiResult H) := do
  dropPending pendingId
  return r

/-- The end of a call that drops its record unless hands are needed. -/
def droppedUnlessHands (pendingId : Option ℕ) (r : ApiResult H) : ApiM H (ApiResult H) :=
  if r.needsHands then return r else dropped pendingId r

/-! ## From the write on -/

/-- A step's part of the note. -/
def joinNotes (a b : String) : String := (if a = "" then "" else a ++ "; ") ++ b

/-- The rendering is recorded when its digest was read; the sentence says when it could not be. -/
def noteRendering (c : Write H) (got : Cfg) (rawSha : Option H) (note : String) :
    ApiM H String :=
  match rawSha, c.server.id with
  | some raw, some _ => do
    let purpose := c.purpose.source.toText
    let recorded ← recordRenderingAfterWrite c.server c.service
      (orElse c.summary s!"{purpose} {c.service}") (some (got, raw))
    return if recorded then note else joinNotes note (renderingNotRecorded c.server)
  | _, _ => return note

/-- The pending row is finished, and every older one is superseded. -/
def finishPending (c : Write H) (h1 : H) (got : Cfg) (pendingId : Option ℕ) : ApiM H Bool :=
  match pendingId, c.server.id with
  | some id, some sid => do
    let finished ← ask (.finish id c.purpose.source (some h1) got)
    if !finished then return false
    ask (.discardPending sid c.service)
    return true
  | _, _ => return true

/-- Step (9): the record is finished. -/
def applyFinish (c : Write H) (expect h1 : H) (got : Cfg) (pendingId : Option ℕ)
    (rawSha : Option H) (note : String) : ApiM H (ApiResult H) := do
  let finished ← finishPending c h1 got pendingId
  let note ← noteRendering c got rawSha note
  if !finished then
    return unproved "unverified" ("the change is live and its file written, but its record could " ++
      "not be finished; the next change, or Settle it now, finishes it by content") expect h1
  return { ok := true, code := "ok", sha256 := some h1, note := note }

/-- What step (8) found: the digest of the file and a note, or the result that ends the call. -/
def fileReadBack (c : Write H) (expect h1 : H) (planned : Option H) (got : Cfg)
    (unwritten : String) : ApiM H ((Option H × String) ⊕ ApiResult H) :=
  if c.server.hasSsh then do
    let read ← ask (.readConfigVersioned c.server c.service)
    match read with
    | none =>
      if unwritten = "" then
        return .inl (none, s!"the file on {c.server.label} could not be read back; Config " ++
          "history carries what the daemon runs")
      return .inr (notCarried c expect h1 unwritten)
    | some (file, rawSha) =>
      if !fileInDaemon (some file) (some got) c.service ∨
          (unwritten ≠ "" ∧ planned = some rawSha) then
        return .inr (notCarried c expect h1 unwritten)
      return .inl (some rawSha, "")
  else if unwritten ≠ "" then
    return .inr (unproved "unverified" s!"{c.server.label}: {unwritten}" none (some h1))
  else return .inl (none, "")
where
  /-- A file that does not carry what the daemon runs. -/
  notCarried (c : Write H) (expect h1 : H) (unwritten : String) : ApiResult H :=
    let why := if unwritten = "" then "" else s!" ({unwritten})"
    unproved "unverified"
      (s!"the file on {c.server.label} does not carry what the daemon runs" ++ why) expect h1

/-- Steps (7) and (8): the daemon confirms the digest, and the file is read back. -/
def applyVerify (c : Write H) (expect h1 : H) (planned : Option H) (pendingId : Option ℕ)
    (unwritten : String) : ApiM H (ApiResult H) := do
  let got ← get c.server c.service
  match got with
  | .error why => return unconfirmed why none
  | .ok (got, digest) =>
    if digest ≠ h1 then
      return unconfirmed s!"its digest is {digest}, not the {h1} the set returned" (some digest)
    let read ← fileReadBack c expect h1 planned got unwritten
    match read with
    | .inr r => return r
    | .inl (rawSha, note) => applyFinish c expect h1 got pendingId rawSha note
where
  /-- A change that the daemon did not confirm. -/
  unconfirmed (why : String) (digest : Option H) : ApiResult H :=
    unproved "unverified" (s!"{c.server.label} did not confirm the change ({why}); the daemon's " ++
      "own answer is the record and nothing was undone") expect digest

/-- A `config-write` that Kea refused: the set is undone. -/
def applyRefused (c : Write H) (before : Cfg) (expect h1 : H) (pendingId : Option ℕ)
    (sent : Sent H) : ApiM H (ApiResult H) := do
  ask (.rememberRefusal c.server sent.text)
  let provedBack ← undo c.server c.service before expect
  let why := orElse sent.text "config-write was refused"
  if provedBack ∧ sent.maybe then
    return unproved "write-failed" (s!"{why}; an earlier attempt got no answer and may have " ++
      "written the file, so it may carry a change the daemon no longer runs") none h1
  if provedBack then dropped pendingId (refused "write-failed" why)
  else return unproved "write-failed" (s!"{why}; the change could not be proved undone - the " ++
    "daemon may run it without the file carrying it") none h1

/-- Step (6), the write. -/
def applyWrite (c : Write H) (before : Cfg) (expect h1 : H) (planned : Option H)
    (pendingId : Option ℕ) : ApiM H (ApiResult H) := do
  let sent ← sendWrite c.server c.service writeAttempts none false
  if sent.ok then applyVerify c expect h1 planned pendingId ""
  else if sent.reply.any Reply.answered then applyRefused c before expect h1 pendingId sent
  else applyVerify c expect h1 planned pendingId "the file may not carry this change"

/-- Step (6), the question that comes before the write: the file is still the one that the Plan
proved, or Jen's own rendering. -/
def applyFile (c : Write H) (before : Cfg) (expect h1 : H) (planned : Option H)
    (pendingId : Option ℕ) : ApiM H (ApiResult H) :=
  if c.server.hasSsh then do
    let asked ← askTheFile c.server c.service planned false
    match asked with
    | .error why =>
      return unproved "unverified" (s!"live in the daemon on {c.server.label}, not yet in its " ++
        s!"file: {why}; the record of the change stays") expect h1
    | .ok _ => applyWrite c before expect h1 planned pendingId
  else applyWrite c before expect h1 planned pendingId

/-! ## Up to the set -/

/-- The digest of a set that Kea accepted. -/
def setDigest (server : Server) (service : Service) (reply : Reply H) : ApiM H (Option H) :=
  match reply.digest with
  | some h1 => return some h1
  | none => hashOf server service

/-- A set that Kea accepted goes on with its digest. -/
def applyTook (c : Write H) (before : Cfg) (expect : H) (planned : Option H)
    (pendingId : Option ℕ) : Option H → ApiM H (ApiResult H)
  | none =>
    return unproved "unverified" (s!"{c.server.label} accepted the change but returned no " ++
      "digest; it may be live") none none
  | some h1 => applyFile c before expect h1 planned pendingId

/-- A set without an answer goes on, or ends the call, as the daemon says. -/
def applyAsked (c : Write H) (before : Cfg) (expect : H) (planned : Option H)
    (pendingId : Option ℕ) : H ⊕ ApiResult H → ApiM H (ApiResult H)
  | .inl h1 => applyFile c before expect h1 planned pendingId
  | .inr stop => droppedUnlessHands pendingId stop

/-- Step (5), after the reply to `config-set`. -/
def applyReplied (c : Write H) (before : Cfg) (expect : H) (planned : Option H)
    (pendingId : Option ℕ) (reply : Reply H) : ApiM H (ApiResult H) :=
  if reply.isOk then do
    let digest ← setDigest c.server c.service reply
    applyTook c before expect planned pendingId digest
  else if reply.answered then do
    let outcome ← afterASetFailure c.server c.service expect reply
    droppedUnlessHands pendingId outcome
  else do
    let asked ← afterASetWithoutAnAnswer c.server c.service c.cfg before expect
    applyAsked c before expect planned pendingId asked

/-- Step (5): `config-set`. -/
def applySet (c : Write H) (before : Cfg) (expect : H) (planned : Option H)
    (pendingId : Option ℕ) : ApiM H (ApiResult H) := do
  let sec ← Prog.ofExcept (body c.cfg c.service)
  let reply ← ask (.cmd c.server c.service (.configSet sec))
  applyReplied c before expect planned pendingId reply

/-- Step (4): the daemon still runs what this change was built from. -/
def applyCompared (c : Write H) (before : Cfg) (expect : H) (planned : Option H)
    (pendingId : Option ℕ) : ApiM H (ApiResult H) := do
  let now ← hashOf c.server c.service
  match now with
  | none =>
    dropped pendingId (refused "noanswer"
      s!"{c.server.label} did not answer the digest question; nothing was sent")
  | some now =>
    if now ≠ expect then
      dropped pendingId { ok := false, code := "conflict", detail := changed now,
                          beforeHash := some expect, afterHash := some now }
    else applySet c before expect planned pendingId
where
  /-- A daemon that runs something else. -/
  changed (now : H) : String :=
    s!"the daemon on {c.server.label} runs digest {now}, not the {expect} this change was built " ++
      "from"

/-- The pending row of a call. -/
def pendingEntry (c : Write H) (sid : ℤ) (expect : H) (rowSha : Option H) : Entry H :=
  { serverId := sid, service := c.service, sha256 := some expect, hashKind := .kea,
    config := some (.obj c.cfg), summary := c.summary, source := .pending, fileSha256 := rowSha }

/-- Step (3): the pending record, without which nothing is sent. -/
def applyRecorded (c : Write H) (before : Cfg) (expect : H) (planned rowSha : Option H) :
    ApiM H (ApiResult H) :=
  match c.server.id with
  | none => applyCompared c before expect planned none
  | some sid => do
    let pendingId ← (ask (.record (pendingEntry c sid expect rowSha))).handle fun _ => .done none
    match pendingId with
    | none =>
      return refused "unreadable" ("the record of this change could not be written to Config " ++
        "history; nothing was sent - the database refused the row, or an earlier change on this " ++
        "server is still on record")
    | some id => applyCompared c before expect planned (some id)

/-- The file that the pending row names: the planned one, or, of a rollback, the one that is there
now. Only a digest of 64 characters fits the column. -/
def rowShaOf (c : Write H) (planned : Option H) : ApiM H (Option H) := do
  let sha ← fileNow
  return sha.filter fun sha => (toString sha).length = 64
where
  /-- The digest before the column is asked. -/
  fileNow : ApiM H (Option H) :=
    if !c.server.hasSsh then return none
    else match planned with
      | some sha => return some sha
      | none =>
        if c.purpose = .rollback then do
          let read ← ask (.readConfigVersioned c.server c.service)
          return read.map Prod.snd
        else return none

/-- The file that a call rests on: the one of the caller's Plan, or, where there is no Plan, the one
that is proved now. A rollback rests on none. -/
def plannedOf (c : Write H) : ApiM H (Except String (Option H)) :=
  if c.plannedSha = none ∧ c.purpose ≠ .rollback ∧ c.server.hasSsh then do
    let asked ← askTheFile c.server c.service none false
    return asked.map Proof.sha256
  else return .ok c.plannedSha

/-- What an earlier change on record means for a call: the result that ends it. -/
def blockedBy (c : Write H) : ApiM H (Option (ApiResult H)) :=
  if c.purpose = .restore then do
    let earlier ← stalePending c.server c.service
    match earlier with
    | .live => return some (unproved "unverified" (s!"settle the unresolved change on " ++
        s!"{c.server.label} first - Settle it now on its Write mode card") none none)
    | .unprovable => return some (unproved "unverified" (s!"an earlier change on " ++
        s!"{c.server.label} is live and its file cannot be proved: " ++
        noPlannedSentence c.server) none none)
    | .unknown => return some (unproved "unverified" (s!"an earlier change on {c.server.label} " ++
        "is unresolved and the daemon did not answer, so a restore cannot be placed over it")
        none none)
    | .nothing | .stale => return none
  else do
    let blocked ← pendingBlock c.server c.service
    return if blocked = "" then none else some (unproved "unverified" blocked none none)

/-- Steps (2) and (3), over the configuration that this change was built from and its digest. -/
def applyOver (c : Write H) (before : Cfg) (expect : H) : ApiM H (ApiResult H) := do
  let guarded ← Prog.ofExcept (apiOnlyGuard c.service (some before) c.cfg)
  if guarded ≠ "" then return refused "guard" guarded
  let unreadable ← recordUnreadable c.server c.service
  if unreadable ≠ "" then return refused "unreadable" unreadable
  let blocked ← blockedBy c
  match blocked with
  | some r => return r
  | none =>
    let planned ← plannedOf c
    match planned with
    | .error why => return refused "guard" why
    | .ok planned =>
      let rowSha ← rowShaOf c planned
      applyRecorded c before expect planned rowSha

/-- The configuration that this change was built from, as the caller read it or as it is read now,
and the digest that the change is guarded by. -/
def beforeOf (c : Write H) : ApiM H (Except String (Cfg × Option H)) :=
  match c.beforeCfg with
  | some before => return .ok (before, c.expectHash)
  | none => do
    let got ← get c.server c.service
    return got.map fun (cfg, digest) => (cfg, c.expectHash.or (some digest))

/-- The host's restore window; a rollback is never a new write over it. -/
def windowOf (c : Write H) : ApiM H String :=
  if c.purpose ≠ .rollback ∧ c.service = .dhcp4 then ask (.restoreWindow c.server) else return ""

/-- The facts are read again, unless the Plan asked already. -/
def refreshFacts (c : Write H) : ApiM H Unit :=
  if c.refreshed then return () else ask (.refreshIfStale c.server c.service)

/-- `apply`: a configuration is written to a daemon over its own API. -/
def apply (c : Write H) : ApiM H (ApiResult H) := do
  if serviceKey c.service = none then
    return refused "noservice" s!"{c.service} is not configured over the API in this release"
  let refusal ← ask (.guardKeaWrite c.server c.cfg c.service)
  if refusal ≠ "" then return refused "guard" refusal
  let window ← windowOf c
  if window ≠ "" then return refused "investigation-on" window
  refreshFacts c
  let gated ← ask (.probeGate c.server c.purpose.source)
  if gated ≠ "" then return refused "guard" gated
  let before ← beforeOf c
  match before with
  | .error why =>
    return refused "noanswer"
      s!"the running configuration of {c.server.label} could not be read ({why})"
  | .ok (_, none) =>
    return refused "conflict" "no digest to compare against - read the daemon first"
  | .ok (before, some expect) => applyOver c before expect

/-- `revert`: `apply` as a rollback. -/
def revert (server : Server) (service : Service) (cfg : Cfg) (expectHash : Option H)
    (summary : String) (beforeCfg : Option Cfg) : ApiM H (ApiResult H) :=
  apply { server := server, service := service, cfg := cfg, expectHash := expectHash,
          summary := summary, purpose := .rollback, beforeCfg := beforeCfg }

end Steps

end JenKea.Api
