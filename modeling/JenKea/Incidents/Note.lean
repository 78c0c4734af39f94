import JenKea.ChangeSet.Model
import JenKea.Lib.Dict

/-!
# The recovery note

The note of `jen/services/kea_changeset.py` that the Servers page shows: a list of incidents, stored as
JSON in one row of the settings. Five functions write it (`record_outcome`, `record_attention`,
`resolve_attention`, `acknowledge_recovery`, `dismiss_rollback_notes`), each in one locked transaction
that reads the row strictly and writes nothing when it is not a note.

`isIso` is `datetime.fromisoformat`: whether a text is a time. `done` says whether the database completes
a transaction; one that it does not complete leaves the row as it is.
-/

namespace JenKea.Incidents

open Json ChangeSet Text

/-! ## Incidents -/

/-- `_MAX_INCIDENTS`. -/
def maxIncidents : ℕ := 20

/-- `_INCIDENTS_HARD_CEILING`. -/
def incidentsHardCeiling : ℕ := 200

/-- `ATTENTION_KIND`. -/
def attentionKind : String := "attention"

/-- `ATTENTION_CATEGORIES`. -/
def attentionCategories : List (String × String) :=
  [
    ("remote-unknown",
      "Jen could not read what the daemon's control sockets were before the change, so it " ++
        "could not put them back."),
    ("restored-restart-unverified",
      "The daemon's config file is back as it was, but Jen did not restart the daemon on " ++
        "it, so it may still be running the change."),
    ("restart-failed",
      "The previous config was put back but the daemon did not restart on it, so it may be " ++
        "stopped or running the change."),
    ("tls-not-restored",
      "The certificate Jen installed for the control socket could not be put back, so a " ++
        "restored socket may meet a certificate issued for another address."),
    ("tls-local-stale",
      "The certificate on the Kea host is the one it had, but Jen's own copy of it may not " ++
        "be the one on the host: its expiry warning and the next recovery read that copy."),
    ("restored-endpoint-unreachable",
      "The daemon's sockets and certificate were put back and it was restarted, but the " ++
        "endpoint Jen uses did not answer as the right daemon afterward."),
    ("probe-pending",
      "The new control socket was added but has not answered Jen yet. It stays in the " ++
        "daemon's config and Jen's settings are unchanged; run the setup again to probe it."),
    ("aborted",
      "The recovery could not be applied, so the daemon may still carry the failed change."),
    ("tls-superseded",
      "A server that is not dialed over https now may still run a certificate from a CA " ++
        "Jen has since replaced. When it is dialed over https again, remove its direct " ++
        "socket and set it up again."),
    ("record-forgotten",
      "Jen's record of a certificate was forgotten on the operator's word while the daemon " ++
        "may still present it; its expiry is not watched. A later setup of the socket, or " ++
        "its removal, ends this."),
    ("config-api-unverified",
      "A configuration Jen wrote over the daemon's own API (a change, a restored revision, " ++
        "or an import) was not confirmed by the daemon's own answer, or the daemon took it " ++
        "and its file was not written, so the daemon may or may not be running it, and its " ++
        "file may or may not carry it. Ask the daemon. If it runs the change and the file " ++
        "waits, an edit on the host the daemon never loaded is the way out of it: restart " ++
        "Kea there (or reload its configuration), then Settle it now on the server's Write " ++
        "mode card; after a write Kea itself REFUSED, restore the revision you want from " ++
        "Config history."),
    ("config-restart-failed",
      "A config Jen wrote to the Kea host (a restored revision, or an import) is on disk, " ++
        "but the daemon did not restart on it, so it may be stopped or still running the " ++
        "config it had before. A restart that works ends this."),
    ("rotation-pending",
      "A CA rotation changed what this server's daemon depends on and has not finished " ++
        "recording it. Health names it; the next Rotate, or Forget stale records, finishes " ++
        "it from Jen's files - it is not acknowledged away.")]

/-- `_OUTCOME_STATUSES`. -/
def outcomeStatuses : List String := ["rolled_back", "rollback_failed"]

/-- `_OUTCOME_OPTIONAL_LISTS`. -/
def outcomeOptionalLists : List String := ["needs_hands", "needs_hands_ids", "lines", "failed_restart"]

/-- `entry.get(key) == text`. -/
def reads (key text : String) (entry : Fields) : Bool := lookup key entry == some (.str text)

/-- `entry.get(key) in texts`. -/
def readsOneOf (key : String) (texts : List String) (entry : Fields) : Bool :=
  texts.any fun text => reads key text entry

/-- `isinstance(entry.get(key), str)`. -/
def isText (key : String) (entry : Fields) : Bool :=
  match lookup key entry with
  | some (.str _) => true
  | _ => false

/-- `_is_server_id`: an integer, or a text that is not blank. -/
def isServerId : Option Json → Bool
  | some (.int _) => true
  | some (.str s) => strip s != ""
  | _ => false

/-- `_is_timestamp`. -/
def isTimestamp (isIso : String → Bool) : Option Json → Bool
  | some (.str s) => isIso (strip s)
  | _ => false

/-- The entry has a list under the key, or nothing. -/
def isListOrAbsent (entry : Fields) (key : String) : Bool :=
  match lookup key entry with
  | none => true
  | some (.arr _) => true
  | some _ => false

/-- The entry is an unproved recovery. -/
def isAttention (entry : Fields) : Bool := reads "kind" attentionKind entry

/-- `recognized_incident`, of a dictionary. -/
def recognizedIncident (isIso : String → Bool) (entry : Fields) : Bool :=
  if isAttention entry then
    readsOneOf "category" (attentionCategories.map Prod.fst) entry &&
      readsOneOf "service" ["dhcp4", "dhcp6", "d2"] entry && isServerId (lookup "server_id" entry) &&
      isText "summary" entry && isTimestamp isIso (lookup "at" entry)
  else
    readsOneOf "status" outcomeStatuses entry && isText "service" entry &&
      isTimestamp isIso (lookup "at" entry) && outcomeOptionalLists.all (isListOrAbsent entry)

/-! ## The stored note -/

/-- What the row of the settings holds: nothing, the text of a JSON value, or a text that is none. -/
inductive Stored where
  | blank
  | json (v : Json)
  | unreadable
  deriving DecidableEq

/-- The recognized incidents of a list, where every element is one. -/
def recognizedAll (isIso : String → Bool) : List Json → Option (List Fields)
  | [] => some []
  | .obj entry :: listed =>
    if recognizedIncident isIso entry then (recognizedAll isIso listed).map (entry :: ·) else none
  | _ :: _ => none

/-- `_incidents_of`, strict: the incidents of a stored note. `none` stands for `MalformedNote`. -/
def incidentsOf (isIso : String → Bool) : Stored → Option (List Fields)
  | .blank => some []
  | .json (.obj data) =>
    match lookup "incidents" data with
    | some (.arr listed) => recognizedAll isIso listed
    | some _ => none
    | none =>
      -- the single note of an earlier version
      if (lookup "status" data).any (fun v => !v.falsy) && recognizedIncident isIso data then
        some [data]
      else none
  | .json _ => none
  | .unreadable => none

/-- `_with_attention`: the note with its incidents changed, and whether the transaction was completed.
`fn` returns `none` to leave the note alone. -/
def withAttention (isIso : String → Bool) (done : Bool) (fn : List Fields → Option (List Fields))
    (note : Stored) : Stored × Bool :=
  if ¬ done then (note, false)
  else
    match incidentsOf isIso note with
    | none => (note, false)
    | some incidents =>
      match fn incidents with
      | none => (note, true)
      | some [] => (.blank, true)
      | some new => (.json (.obj [("incidents", .arr (new.map .obj))]), true)

/-! ## Outcomes -/

/-- `str(x)` of an id: an integer, a text, or `None`. -/
def idText : Json → String
  | .int n => toString n
  | .str s => s
  | .bool true => "True"
  | .bool false => "False"
  | .null => "None"
  | _ => ""

/-- The list under a key. -/
def listOf (key : String) (entry : Fields) : List Json :=
  match lookup key entry with
  | some (.arr xs) => xs
  | _ => []

/-- `_incident_servers`: the servers of an incident, by their ids or else by their names. -/
def incidentServers (incident : Fields) : List String :=
  let servers := if listOf "needs_hands_ids" incident = [] then listOf "needs_hands" incident
    else listOf "needs_hands_ids" incident
  (servers.map idText).insertionSort (· ≤ ·)

/-- What identifies a target, in JSON. -/
def keyJson : Option Key → Json
  | some (.id n) => .int n
  | some (.name s) => .str s
  | none => .null

/-- `_incident_cleared`: whether a clean run resolves an incident. -/
def incidentCleared (isIso : String → Bool) (result : ChangeSetResult) (service : String)
    (incident : Fields) : Bool :=
  if ¬ recognizedIncident isIso incident then false
  else if isAttention incident then false
  else if ¬ reads "status" "rollback_failed" incident then true
  else if ¬ reads "service" service incident then false
  else
    let needsIds := listOf "needs_hands_ids" incident
    let coveredIds := result.coveredIds.map fun k => keyJson (some k)
    if needsIds ≠ [] ∧ coveredIds ≠ [] then
      needsIds.all fun id => coveredIds.any fun k => id.pyEq k
    else
      (listOf "needs_hands" incident).all fun name => result.covered.any fun n => name.pyEq (.str n)

/-- The status of an outcome. -/
def statusText : Status → String
  | .rolledBack => "rolled_back"
  | .rollbackFailed => "rollback_failed"
  | .ok => "ok"
  | .nothing => "nothing"
  | .noservers => "noservers"
  | .aborted => "aborted"

/-- The incident of an outcome. -/
def outcomeIncident (result : ChangeSetResult) (service summary at_ : String) : Fields :=
  [("status", .str (statusText result.status)),
    ("service", .str service),
    ("summary", .str summary),
    ("at", .str at_),
    ("failed_restart", .arr (result.restartFailures.map .str)),
    ("needs_hands", .arr (result.needsHands.map .str)),
    ("needs_hands_ids", .arr (result.needsHandsIds.map keyJson)),
    ("lines", .arr (((result.lines.filter fun l => l.1 = .error).map fun l => Json.str l.2).reverse.take
      6).reverse)]

/-- An incident that may give way to newer ones: neither a failed rollback nor an unproved recovery. -/
def mayDrop (incident : Fields) : Bool :=
  !reads "status" "rollback_failed" incident && !isAttention incident

/-- The first incidents that may be dropped, one after the other, taken out `n` times. -/
def dropSoft : ℕ → List Fields → List Fields
  | 0, incidents => incidents
  | n + 1, incidents =>
    if incidents.any mayDrop then dropSoft n (incidents.eraseP mayDrop) else incidents

/-- The incidents under both caps. -/
def capped (incidents : List Fields) : List Fields :=
  let incidents := dropSoft (incidents.length - maxIncidents) incidents
  incidents.drop (incidents.length - incidentsHardCeiling)

/-- The trouble that an incident is the same as: its status, service, and servers. -/
def sameTrouble (incident other : Fields) : Bool :=
  lookup "status" other == lookup "status" incident &&
    lookup "service" other == lookup "service" incident &&
    incidentServers other == incidentServers incident

/-- `record_outcome`, and whether the note could be updated. -/
def recordOutcome (isIso : String → Bool) (done : Bool) (result : ChangeSetResult)
    (service summary at_ : String) (note : Stored) : Stored × Bool :=
  match result.status with
  | .rolledBack | .rollbackFailed =>
    let incident := outcomeIncident result service summary at_
    withAttention isIso done
      (fun incidents => some (capped ((incidents.filter fun i => !sameTrouble incident i) ++ [incident])))
      note
  | .ok =>
    withAttention isIso done (fun incidents =>
      let left := incidents.filter fun i => !incidentCleared isIso result service i
      if left.length ≠ incidents.length then some left else none) note
  | _ => (note, true)

/-! ## Unproved recoveries -/

/-- The arguments of `record_attention`. -/
structure Attention where
  serverId : Json
  service : String
  operation : String
  category : String
  at_ : String
  serverName : String := ""
  detail : String := ""
  caFingerprint : String := ""

/-- The incident of an unproved recovery. -/
def Attention.incident (a : Attention) : Fields :=
  [("kind", .str attentionKind),
    ("status", .str a.category),
    ("category", .str a.category),
    ("service", .str a.service),
    ("server_id", a.serverId),
    ("server_name", .str a.serverName),
    ("summary", .str a.operation),
    ("detail", .str (orElse a.detail ((attentionCategories.lookup a.category).getD ""))),
    ("at", .str a.at_),
    ("needs_hands", .arr []),
    ("needs_hands_ids", .arr []),
    ("lines", .arr [])] ++
  if a.caFingerprint = "" then [] else [("ca_fingerprint", .str a.caFingerprint)]

/-- `_same_server`: the ids are compared as texts. -/
def sameServer (incident : Fields) (serverId : Json) : Bool :=
  idText ((lookup "server_id" incident).getD .null) == idText serverId

/-- The incident of the same category, service, and server. -/
def Attention.same (a : Attention) (incident : Fields) : Bool :=
  isAttention incident && reads "category" a.category incident && reads "service" a.service incident &&
    sameServer incident a.serverId

/-- The CA that an incident was written under, or the empty text. -/
def caFingerprint (incident : Fields) : Json :=
  match lookup "ca_fingerprint" incident with
  | some v => if v.falsy then .str "" else v
  | none => .str ""

/-- The incident is the note of a rotation, written under another CA. -/
def Attention.otherGeneration (a : Attention) (incident : Fields) : Bool :=
  a.same incident && a.category == "rotation-pending" &&
    !(Incidents.caFingerprint incident == .str "" ||
      Incidents.caFingerprint incident == .str a.caFingerprint)

/-- `record_attention`, and whether the incident was stored. A category that is none raises, and writes
nothing. -/
def recordAttention (isIso : String → Bool) (done : Bool) (a : Attention) (note : Stored) :
    Stored × Bool :=
  if (attentionCategories.lookup a.category).isNone then (note, false)
  else if ¬ recognizedIncident isIso a.incident then (note, false)
  else
    let (new, stored) := withAttention isIso done (fun incidents =>
      if incidents.any a.otherGeneration then none
      else some ((incidents.filter fun i => !a.same i) ++ [a.incident])) note
    (new, stored && !((incidentsOf isIso note).getD []).any a.otherGeneration)

/-- The note without the incidents that match, left alone where none does, and how many there were. -/
def clearMatching (isIso : String → Bool) (done : Bool) (matching : Fields → Bool) (note : Stored) :
    (Stored × Bool) × ℕ :=
  (withAttention isIso done (fun incidents =>
    let left := incidents.filter fun i => !matching i
    if incidents.length - left.length ≠ 0 then some left else none) note,
    ((incidentsOf isIso note).getD []).countP matching)

/-- `resolve_attention`, and how many incidents it cleared. -/
def resolveAttention (isIso : String → Bool) (done : Bool) (serverId : Json) (service : String)
    (categories : Option (List String)) (note : Stored) : Stored × ℕ :=
  let ((new, stored), cleared) := clearMatching isIso done (fun i =>
    isAttention i && reads "service" service i && sameServer i serverId &&
      categories.all fun cs => readsOneOf "category" cs i) note
  (new, if stored then cleared else 0)

/-- `acknowledge_recovery`, and how many incidents it cleared, or `none` when the note could not be
written. -/
def acknowledgeRecovery (isIso : String → Bool) (done : Bool) (serverId : Option Json)
    (service category : Option String) (note : Stored) : Stored × Option ℕ :=
  let ((new, stored), cleared) := clearMatching isIso done (fun i =>
    isAttention i && !reads "category" "rotation-pending" i && serverId.all (sameServer i) &&
      service.all (fun s => reads "service" s i) && category.all fun c => reads "category" c i) note
  (new, if stored then some cleared else none)

/-- `dismiss_rollback_notes`. -/
def dismissRollbackNotes (isIso : String → Bool) (done : Bool) (note : Stored) : Stored × Bool :=
  withAttention isIso done (fun incidents => some (incidents.filter isAttention)) note

end JenKea.Incidents
