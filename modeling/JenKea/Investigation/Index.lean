import JenKea.ChangeSet.Model
import JenKea.Investigation.Logger
import JenKea.Lib.Prog

/-!
# The index of investigation logging

What `jen/services/investigation_logging.py` keeps of each server whose logger it put at DEBUG: what it
last wrote into the configuration file, what it last saw the daemon do, and what it still owes. The
sentences that the module only shows are left out.
-/

namespace JenKea.Investigation

open Json ChangeSet Text

/-! ## Servers and time -/

/-- A server, with the settings that say which Kea it is. -/
structure KeaServer extends Server where
  sshUser : String := ""
  keaConf : String := ""
  deriving DecidableEq

/-- The id of a server, as the index spells it. -/
def KeaServer.sid (s : KeaServer) : String := idText s.id

/-- `DEFAULT_KEA_CONF`. -/
def defaultKeaConf : String := "/etc/kea/kea-dhcp4.conf"

/-- `normalized_identity`. -/
def KeaServer.identity (s : KeaServer) : List String :=
  [strip s.sshHost, strip s.sshUser, orElse (strip s.keaConf) defaultKeaConf, strip s.apiUrl]

/-- How a time is read and written: `_parse_until` and `_iso`. A time is a number of microseconds. -/
structure Clock where
  parse : Json → Option ℤ
  iso : ℤ → String

/-! ## Entries -/

/-- What Jen last wrote into the configuration file. -/
inductive FileState where
  | debug
  | restored
  deriving DecidableEq, Repr

/-- What the daemon was last seen doing. -/
inductive DaemonState where
  | debug
  | restored
  | other
  | unknown
  deriving DecidableEq, Repr

/-- The step that is owed to the daemon. -/
inductive Pending where
  | reload
  | restart
  deriving DecidableEq, Repr

/-- An entry of the index. -/
structure Entry where
  name : String
  deadline : String
  sshHost : String := ""
  keaConf : String := ""
  file : FileState := .debug
  daemon : DaemonState := .debug
  pending : Option Pending := none
  restore : Option Json := none
  armed : Bool := false
  hostTimer : String := ""
  hostError : Option String := none
  hostConflict : Option Json := none
  hostRestoredAt : Option String := none
  hostNeedsHand : Bool := false
  timerDown : Option ℕ := none
  removed : Bool := false
  markerInvalid : Bool := false
  contradiction : Bool := false
  restarted : Bool := false
  restoreRestarted : Bool := false
  reloadTries : ℕ := 0
  deriving DecidableEq

/-- `RELOAD_TRIES`. -/
def reloadTriesMax : ℕ := 3

/-- `_valid_entry`, of an entry whose fields have their types. -/
def Entry.valid (clock : Clock) (e : Entry) : Bool :=
  (clock.parse (.str e.deadline)).isSome && e.restore.all (fun r => restoreProblem r == "") &&
    e.reloadTries ≤ reloadTriesMax + 1

/-- `_entry_for`. -/
def entryFor (s : KeaServer) (deadline : String) : Entry :=
  { name := s.label, deadline, sshHost := s.sshHost, keaConf := s.keaConf, daemon := .unknown }

/-- `_entry_matches`: the server is the Kea that the entry was made for. -/
def entryMatches (e : Entry) (s : KeaServer) : Bool :=
  if e.sshHost ≠ "" ∧ e.sshHost ≠ s.sshHost then false
  else e.keaConf = "" || e.keaConf = orElse s.keaConf defaultKeaConf

/-- `_still_running`. -/
def stillRunning (held : Option Entry) : Bool :=
  held.any fun e => !e.removed &&
    (e.daemon == .debug || (e.daemon == .other && e.file == .debug))

/-! ## The index -/

/-- The entries by server id, in the order of a dictionary. -/
abbrev Servers : Type := List (String × Entry)

/-- `d[k] = v`. -/
def Servers.put (sid : String) (e : Entry) : Servers → Servers
  | [] => [(sid, e)]
  | (k, e') :: servers => if k = sid then (sid, e) :: servers else (k, e') :: put sid e servers

/-- `d.pop(k, None)`. -/
def Servers.pop (sid : String) (servers : Servers) : Servers := servers.filter fun x => x.1 != sid

/-- What the row of the settings holds: the entries, or a text that is no index. -/
inductive Stored where
  | servers (entries : Servers)
  | unreadable

/-- `_record`. -/
structure Record where
  servers : Servers
  damaged : Bool := false
  unavailable : Bool := false

/-- `_record`, of what the row holds: an entry that is not valid makes the whole index unreadable. -/
def recordOf (clock : Clock) (loaded : Bool) : Stored → Record
  | .servers entries =>
    if ¬ loaded then { servers := [], damaged := true, unavailable := true }
    else if entries.all fun x => x.2.valid clock then { servers := entries }
    else { servers := [], damaged := true }
  | .unreadable => { servers := [], damaged := true, unavailable := !loaded }

/-- An entry that the record holds is changed in place; one that it does not hold is not its own. -/
def Record.hold (record : Record) (sid : String) (e : Entry) : Record :=
  if (record.servers.lookup sid).isSome then
    { record with servers := record.servers.put sid e }
  else record

/-! ## The daemon's logger -/

/-- What `daemon_logger` reads of a running daemon. -/
structure DaemonLogger where
  present : Bool
  severity : Json := .null
  debuglevel : Json := .null
  marker : Option Fields := none

/-- `daemon_logger`, of the arguments that `config-get` answered with. -/
def daemonLogger (reply : Option Json) : Option DaemonLogger :=
  match reply with
  | some (.obj arguments) =>
    match lookup "Dhcp4" arguments with
    | some (.obj sec) =>
      let loggers : Option (List Json) :=
        match lookup "loggers" sec with
        | none | some .null => some []
        | some (.arr loggers) => some loggers
        | some _ => none
      loggers.map fun loggers =>
        match loggerEntry loggers with
        | none => { present := false }
        | some entry =>
          let marker : Option Fields :=
            match lookup "user-context" entry with
            | some (.obj context) =>
              match lookup investigationKey context with
              | some (.obj marker) => some marker
              | _ => none
            | _ => none
          { present := true
            severity := (lookup "severity" entry).getD .null
            debuglevel := (lookup "debuglevel" entry).getD .null
            marker }
    | _ => none
  | _ => none

/-- `str(x or "").upper()`: a severity that is no text is like none. -/
def upperText : Json → String
  | .str s => s.toUpper
  | _ => ""

/-- `_at_investigation_level`. -/
def atInvestigationLevel (seen : DaemonLogger) : Bool :=
  upperText seen.severity == investigationSeverity &&
    seen.debuglevel.pyEq (.int investigationDebuglevel)

/-- The `restore` object records that Jen created the logger. -/
def recordsCreated (restore : Option Json) : Bool :=
  match restore with
  | some (.obj fields) => lookup "created" fields == some (.bool true)
  | _ => false

/-- `_is_original`. -/
def isOriginal (seen : DaemonLogger) (restore : Option Json) : Bool :=
  if seen.marker.isSome then false
  else if recordsCreated restore then !seen.present
  else
    match restore with
    | some (.obj fields) =>
      if ¬ seen.present then false
      else if restoreProblem (.obj fields) ≠ "" then !atInvestigationLevel seen
      else
        let severity := (lookup "severity" fields).getD absent
        let level := (lookup "debuglevel" fields).getD absent
        (if severity = absent then upperText seen.severity != investigationSeverity
          else upperText seen.severity == upperText severity) &&
        (if level = absent then !seen.debuglevel.pyEq (.int investigationDebuglevel)
          else seen.debuglevel.pyEq level)
    | _ => if ¬ seen.present then true else !atInvestigationLevel seen

/-- The classification of `observe_from`. -/
def classify (seen : Option DaemonLogger) (restore : Option Json) : DaemonState :=
  match seen with
  | none => .unknown
  | some seen =>
    if seen.marker.isSome && atInvestigationLevel seen then .debug
    else if isOriginal seen restore then .restored
    else .other

/-- `observe_from`. -/
def observeFrom (e : Entry) (seen : Option DaemonLogger) : Entry :=
  { e with daemon := classify seen e.restore }

/-! ## The edits of the file -/

/-- The edit of a change: the logger is put at DEBUG, or put back. -/
inductive Edit where
  | set (deadline : String)
  | clear (now : Option ℤ)

/-- `until` can be read, and is after the time. -/
def Clock.ahead (clock : Clock) (now : ℤ) (until_ : Json) : Bool :=
  (clock.parse until_).any fun due => now < due

/-- The configuration after an edit. -/
def Edit.run (clock : Clock) : Edit → Fields → Fields × Code
  | .set deadline, cfg => setInvestigationLogging cfg deadline
  | .clear now, cfg => clearInvestigationLogging cfg (now.map clock.ahead)

/-- `investigation_marker`. -/
def investigationMarker (cfg : Fields) : Option Fields :=
  match markerOf cfg with
  | some (.obj marker) => some marker
  | _ => none

/-- The `restore` object of a marker, where it can be trusted. -/
def trustedRestore (marker : Fields) : Option Json :=
  match lookup "restore" marker with
  | some restore => if restoreProblem restore = "" then some restore else none
  | none => none

/-- What a write comes to once its candidate is built: it is written, refused, or put back. -/
inductive Written where
  | written
  | refused (code : String)
  | rolledBack (code : String)
  | rollbackFailed (code : String)

/-- How `apply_change` goes for one server: it ends before it reads the file, or reads it. -/
inductive ChangeAnswer where
  | noservers
  | aborted (code : String)
  | read (cfg : Fields) (after : Written)

/-- The status and the last code of a change. -/
def ChangeAnswer.result (clock : Clock) (edit : Edit) : ChangeAnswer → Status × String
  | .noservers => (.noservers, "noservers")
  | .aborted code => (.aborted, code)
  | .read cfg after =>
    match (edit.run clock cfg).2 with
    | .ok =>
      match after with
      | .written => (.ok, "ok")
      | .refused code => (.aborted, code)
      | .rolledBack code => (.rolledBack, code)
      | .rollbackFailed code => (.rollbackFailed, code)
    | .nochange => (.nothing, "nochange")
    | .unsupported => (.aborted, "unsupported")
    | .markerInvalid => (.aborted, "marker-invalid")
    | .nothing => (.nothing, "nothing")

/-- The configuration that a change read. -/
def ChangeAnswer.cfg : ChangeAnswer → Option Fields
  | .read cfg _ => some cfg
  | _ => none

end JenKea.Investigation
