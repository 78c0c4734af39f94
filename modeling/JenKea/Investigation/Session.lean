import JenKea.Investigation.Index

/-!
# Sessions of investigation logging

`turn_on`, `turn_off` and `sweep` of `jen/services/investigation_logging.py`, as programs over what they
ask of the Kea host, of the daemon, and of Jen's database. An entry is a dictionary that the record holds,
so a change of it is a change of the record (`Record.hold`) before it is stored.
-/

namespace JenKea.Investigation

open Json ChangeSet Text

/-! ## The operations -/

/-- What the module asks of the settings, of the daemon's API, of the change set, and of the host. -/
inductive InvOp : Type
  | enabled
  | settingsLoaded
  | setting
  | keepDamaged
  | save (servers : Servers)
  | now
  | listCommands (s : KeaServer)
  | configGet (s : KeaServer) (waitS : ℕ)
  | configReload (s : KeaServer)
  | recordDaemon (s : KeaServer)
  | applyChange (s : KeaServer) (edit : Edit) (restart : Bool)
  | readConfig (s : KeaServer)
  | restart (s : KeaServer)
  | helperBuild (s : KeaServer)
  | hostStatus (s : KeaServer)
  | hostArm (s : KeaServer) (deadline : String) (restore : Json)
  | hostDisarm (s : KeaServer)
  | hostTimer (s : KeaServer)

/-- What each operation answers. The commands, and the configuration that runs, are `none` when Kea's API
does not answer; a file is `none` when its read raises, and then `some none` when there is nothing to
read. -/
@[reducible] def InvOp.Result : InvOp → Type
  | .enabled | .settingsLoaded | .keepDamaged | .save _ => Bool
  | .setting => Stored
  | .now => ℤ
  | .listCommands _ => Option (List String)
  | .configGet .. => Option Json
  | .configReload _ | .restart _ => Bool
  | .recordDaemon _ | .hostTimer _ => Unit
  | .applyChange .. => ChangeAnswer
  | .readConfig _ => Option (Option Fields)
  | .helperBuild _ | .hostStatus _ | .hostArm .. | .hostDisarm _ => Fields

/-- The interface of the module. -/
@[reducible] def InvI : Interface where
  Op := InvOp
  Ans o := o.Result

/-- A program of the module. -/
abbrev InvM (α : Type) : Type := Prog InvI Empty α

/-- One call. -/
def ask (o : InvOp) : InvM o.Result := .call o .done

/-- What an act comes to. -/
structure Outcome where
  ok : Bool
  /-- The host put the logger back. -/
  hosted : Bool := false
  deriving DecidableEq

/-- `reply.get(key)`, by its truth. -/
def truthy (key : String) (reply : Fields) : Bool := (lookup key reply).any fun v => !v.falsy

/-- A value of a reply, in a sentence. -/
def valueText : Json → String
  | .str s => s
  | .int n => toString n
  | _ => ""

/-- `reply.get(key) or other`, in a sentence. -/
def textOr (key other : String) (reply : Fields) : String :=
  if truthy key reply then valueText ((lookup key reply).getD .null) else other

/-- The first 300 characters. -/
def clipped (text : String) : String := String.ofList (text.toList.take 300)

/-- The `reply` says `detail`, or else `code`. -/
def detailOf (reply : Fields) : String :=
  textOr "detail" (valueText ((lookup "code" reply).getD .null)) reply

/-! ## The record -/

/-- `_record`. -/
def readRecord (clock : Clock) : InvM Record := do
  let stored ← ask .setting
  let loaded ← ask .settingsLoaded
  return recordOf clock loaded stored

/-- The copy that `_save` keeps of a damaged index; there is none to keep of another. -/
def keepDamaged (record : Record) : InvM Bool :=
  if record.damaged then ask .keepDamaged else pure true

/-- `_save`, and whether the index was stored. -/
def save (record : Record) : InvM (Record × Bool) := do
  if record.unavailable then return (record, false)
  if ¬ (← keepDamaged record) then return (record, false)
  let stored ← ask (.save record.servers)
  return ({ record with damaged := record.damaged && !stored }, stored)

/-- `_put`, and whether the entry was stored. -/
def put (record : Record) (sid : String) (e : Entry) : InvM (Record × Bool) :=
  if record.damaged then pure (record, false)
  else save { record with servers := record.servers.put sid e }

/-- `_drop`, and whether the entry is gone. -/
def drop (record : Record) (sid : String) : InvM (Record × Bool) := do
  match record.servers.lookup sid with
  | none => return (record, true)
  | some gone =>
    let popped := record.servers.pop sid
    if record.damaged then return ({ record with servers := popped.put sid gone }, false)
    let (after, stored) ← save { record with servers := popped }
    if stored then return (after, true)
    return ({ after with servers := popped.put sid gone }, false)

/-! ## The daemon and the file -/

/-- The answer of `_reload_support`. -/
inductive Support where
  | yes
  | no
  | unknown
  deriving DecidableEq

/-- `_reload_support`. -/
def reloadSupport (s : KeaServer) : InvM Support := do
  match ← ask (.listCommands s) with
  | none => return .unknown
  | some commands => return if commands.contains "config-reload" then .yes else .no

/-- `observe`: the entry with what the running daemon shows, within a time to wait for its answer. -/
def observe (s : KeaServer) (e : Entry) (waitS : ℕ := 0) : InvM Entry := do
  let reply ← ask (.configGet s waitS)
  return observeFrom e (daemonLogger reply)

/-- `OBSERVE_AFTER_RESTART_S`. -/
def observeAfterRestartS : ℕ := 8

/-- `OBSERVE_AFTER_HUP_S`. -/
def observeAfterHupS : ℕ := 6

/-- `_settled`: `observe`, once more for each second that the daemon still shows DEBUG. -/
def settled (s : KeaServer) : ℕ → Entry → InvM Entry
  | 0, e => observe s e
  | n + 1, e => do
    let e ← observe s e
    if e.daemon = .debug then settled s n e else return e

/-- `_change`: the edit of one server's file, by a change set that also restarts a daemon without
`config-reload`. With `refuseUnknown`, nothing is written when Kea's API does not answer. -/
def change (s : KeaServer) (edit : Edit) (refuseUnknown allowRestart : Bool) :
    InvM (Option ChangeAnswer × Support) := do
  let support ← reloadSupport s
  if support = .unknown ∧ refuseUnknown then return (none, support)
  let answer ← ask (.applyChange s edit (support ≠ .yes && allowRestart))
  return (some answer, support)

/-- What made the daemon take its file. -/
inductive Mode where
  | none
  | reload
  | restart
  deriving DecidableEq

/-- The restart of `_daemon_step`. -/
def restartStep (s : KeaServer) : InvM (Option Mode) := do
  if ← ask (.restart s) then
    ask (.recordDaemon s)
    return some .restart
  return none

/-- `verify`: the daemon is looked at, where the caller can. -/
def lookWhen (verify : Bool) (s : KeaServer) (e : Entry) : InvM Entry :=
  if verify then observe s e else pure e

/-- `_daemon_step`: what made the daemon take its file, where it did. With `verify`, the daemon is looked
at before a reload that was refused becomes a restart. -/
def daemonStep (s : KeaServer) (e : Entry) (useReload allowRestart verify : Bool) :
    InvM (Entry × Option Mode) := do
  if useReload then
    if ← ask (.configReload s) then
      ask (.recordDaemon s)
      return (e, some .reload)
    let seen ← lookWhen verify s e
    if verify ∧ seen.daemon = .restored then
      ask (.recordDaemon s)
      return (seen, some .reload)
    if allowRestart then return (seen, ← restartStep s)
    return (seen, none)
  return (e, ← restartStep s)

/-- `_revert_file`: whether the file is back. -/
def revertFile (clock : Clock) (s : KeaServer) : InvM Bool := do
  let answer ← ask (.applyChange s (.clear none) false)
  ask (.recordDaemon s)
  let status := (answer.result clock (.clear none)).1
  return status = .ok || status = .nothing

/-! ## Putting the logger back -/

/-- `_left_alone`. -/
def leftAlone (record : Record) (sid : String) (e : Entry) : InvM (Record × Outcome) := do
  let (record, _) ← put record sid { e with pending := none }
  return (record, { ok := false })

/-- `_finish`: the daemon was looked at; the entry is dropped where it was seen restored. -/
def finish (s : KeaServer) (record : Record) (e : Entry) : InvM (Record × Outcome) := do
  if e.contradiction then leftAlone record s.sid e
  else if e.daemon = .restored then
    let (record, gone) ← drop (record.hold s.sid e) s.sid
    if gone then return (record, { ok := true })
    return (record.hold s.sid { e with pending := none }, { ok := true })
  else
    let pending := if e.daemon = .other then none else e.pending.or (some .reload)
    let (record, _) ← put record s.sid { e with pending := pending }
    return (record, { ok := false })

/-- The step of `_daemon_phase`: a reload, or the one restart. -/
def phaseStep (s : KeaServer) (e : Entry) (reloads fresh : Bool) : InvM (Entry × Option Mode) := do
  if reloads then
    let (e, mode) ← daemonStep s { e with reloadTries := e.reloadTries + 1 } true
      (fresh && !e.restarted) true
    return ({ e with restarted := e.restarted || mode = some .restart }, mode)
  -- the one restart is spent whether or not it works
  let (e, mode) ← daemonStep s e false true false
  return ({ e with restarted := true }, mode)

/-- `_daemon_phase`: a number of reloads, then one restart, then nothing. -/
def daemonPhase (s : KeaServer) (record : Record) (e : Entry) (fresh : Bool) :
    InvM (Record × Outcome) := do
  let support ← reloadSupport s
  let reloads := e.pending ≠ some .restart ∧ support = .yes ∧ e.reloadTries < reloadTriesMax
  if ¬ reloads ∧ e.restarted then
    let (record, _) ← put record s.sid { e with pending := none }
    return (record, { ok := false })
  let (e, mode) ← phaseStep s e reloads fresh
  let e ← observe s e (if mode = some .restart then observeAfterRestartS else 0)
  if mode.isSome then finish s record e
  else
    let pending := if support = .yes then .reload else .restart
    let (record, _) ← put record s.sid { e with pending := some pending }
    return (record, { ok := false })

/-- `_abandon_host_arm`. -/
def abandonHostArm (s : KeaServer) : InvM Unit := do
  let _ ← ask (.hostDisarm s)
  return ()

/-- The host answers that it put the logger back. -/
def putBackByHost (reply : Fields) : Bool :=
  truthy "ok" reply && !(reads "how" "nothing" reply && !truthy "restored" reply)
where
  /-- `reply.get(key) == text`. -/
  reads (key text : String) (reply : Fields) : Bool := lookup key reply == some (.str text)

/-- How the host put the logger back. -/
def howOf (reply : Fields) : String := textOr "how" "reload" reply

/-- What is said of a host that did not put the logger back. -/
def hostRefusal (reply : Fields) : String :=
  if ¬ truthy "ok" reply then
    s!"the Kea host could not restore the log level itself ({detailOf reply}); Jen tries it from here."
  else
    "the Kea host holds no session to restore (" ++ textOr "detail" "not armed" reply ++
      "); Jen tries it from here."

/-- `_restore_via_host`: the host puts the logger back, or the entry says why it did not. -/
def restoreViaHost (clock : Clock) (s : KeaServer) (record : Record) (e : Entry) :
    InvM ((Record × Entry) ⊕ (Record × Outcome)) := do
  let reply ← ask (.hostDisarm s)
  if ¬ putBackByHost reply then
    let e := { e with hostError := some (clipped (hostRefusal reply)) }
    return .inl (record.hold s.sid e, e)
  let now ← ask .now
  let e := { e with hostError := none, file := .restored, pending := some .reload, armed := false,
                    hostRestoredAt := some (clock.iso now) }
  let e := if howOf reply = "restart" then { e with restarted := true, restoreRestarted := true }
    else e
  let (record, _) ← put record s.sid e
  let e ← settled s (if howOf reply ≠ "nothing" then observeAfterHupS else 0) e
  ask (.recordDaemon s)
  if e.daemon = .debug then return .inr (← daemonPhase s record e true)
  return .inr (← finish s record e)

/-- The rest of `_restore_core` once the file is written. -/
def restoreWritten (s : KeaServer) (record : Record) (e : Entry) (captured : Option Json)
    (folded : Bool) : InvM (Record × Outcome) := do
  let e := { e with restore := e.restore.or captured }
  if folded then
    let e := { e with file := .restored, pending := none, restarted := true,
                      restoreRestarted := true }
    let e ← observe s e observeAfterRestartS
    finish s (record.hold s.sid e) e
  else
    let e := { e with file := .restored, pending := some .reload }
    let (record, _) ← put record s.sid e
    daemonPhase s record e true

/-- The rest of `_restore_core` where there was nothing to write: the daemon is looked at first. -/
def restoreNothing (s : KeaServer) (record : Record) (e : Entry) (now : Option ℤ) :
    InvM (Record × Outcome) := do
  let before := e.daemon
  let e := { e with file := .restored }
  if e.contradiction then leftAlone record s.sid e
  else
    let e ← observe s e
    if e.daemon = .restored then finish s record e
    else if e.daemon = .other then leftAlone record s.sid e
    else
      let e := { e with pending := e.pending.or (some .reload) }
      let (record, _) ← put record s.sid e
      if e.daemon = .unknown ∧ before ≠ .debug ∧ now.isSome then return (record, { ok := false })
      daemonPhase s record e false

/-- `_restore_core` after the host: Jen's own write of the file. -/
def restoreFile (clock : Clock) (s : KeaServer) (record : Record) (held : Option Entry)
    (now : Option ℤ) : InvM (Record × Outcome) := do
  let allowRestart := now.isNone || !(held.any Entry.restoreRestarted)
  let edit := Edit.clear now
  let (answer, support) ← change s edit false allowRestart
  let answer := answer.getD .noservers
  let folded := support ≠ .yes && allowRestart
  let (status, code) := answer.result clock edit
  if status = .aborted ∧ code = "marker-invalid" then
    let e ← fresh held
    let (record, _) ← put record s.sid { e with markerInvalid := true }
    return (record, { ok := false })
  else if status = .ok then
    let e ← fresh held
    let captured := answer.cfg.bind fun cfg => (investigationMarker cfg).bind trustedRestore
    restoreWritten s record e captured folded
  else if status = .nothing then
    match held with
    | none => return (record, { ok := true })
    | some e => restoreNothing s record e now
  else
    match held with
    | none => return (record, { ok := false })
    | some e =>
      let e := if folded ∧ code = "restart-failed" then
        { e with restarted := true, restoreRestarted := true } else e
      let (record, _) ← put record s.sid e
      return (record, { ok := false })
where
  /-- The entry, or a new one that is due now. -/
  fresh (held : Option Entry) : InvM Entry := do
    match held with
    | some e => return e
    | none =>
      let at_ ← match now with
        | some now => pure now
        | none => ask .now
      return entryFor s (clock.iso at_)

/-- `_restore_core`. -/
def restoreCore (clock : Clock) (s : KeaServer) (record : Record) (now : Option ℤ) :
    InvM (Record × Outcome) := do
  match record.servers.lookup s.sid with
  | none => restoreFile clock s record none now
  | some e =>
    if e.armed then
      match ← restoreViaHost clock s record e with
      | .inr (record, outcome) => return (record, { outcome with hosted := true })
      | .inl (record, e) => restoreFile clock s record (some e) now
    else restoreFile clock s record (some e) now

/-- `_restore`. -/
def restore (clock : Clock) (s : KeaServer) (record : Record) (now : Option ℤ) :
    InvM (Record × Outcome) := do
  let wasArmed := (record.servers.lookup s.sid).any Entry.armed
  let (record, outcome) ← restoreCore clock s record now
  if outcome.ok ∧ wasArmed ∧ ¬ outcome.hosted then abandonHostArm s
  return (record, outcome)

/-! ## Turning logging off -/

/-- `turn_off`. -/
def turnOff (clock : Clock) (s : KeaServer) : InvM Outcome := do
  let record ← readRecord clock
  if record.damaged then return { ok := false }
  if (record.servers.lookup s.sid).any fun held => !entryMatches held s then return { ok := false }
  let (_, outcome) ← restore clock s record none
  return outcome

/-! ## Turning logging on -/

/-- `INVESTIGATION_MIN_HELPER_BUILD`. -/
def minHelperBuild : ℤ := 18

/-- `DURATIONS`, in minutes. -/
def durations : List ℕ := [5, 15, 60]

/-- A minute, in the unit of time. -/
def minute : ℤ := 60000000

/-- `reply.get(key) == text`. -/
def answers (key text : String) (reply : Fields) : Bool := lookup key reply == some (.str text)

/-- The helper's build can put the logger back. -/
def isRecent (info : Fields) : Bool :=
  match lookup "build" info with
  | some (.int build) => minHelperBuild ≤ build
  | _ => false

/-- `helper_gate`: whether it refuses. -/
def helperGate (s : KeaServer) (held : Option Entry) : InvM Bool := do
  let info ← ask (.helperBuild s)
  if ¬ answers "code" "ok" info then return true
  if ¬ isRecent info then return true
  let status ← ask (.hostStatus s)
  if answers "code" "bad-state" status then return true
  if truthy "ok" status ∧ truthy "armed" status then
    let own := held.any fun e => e.restore.isSome && lookup "restore" status == e.restore
    return !own
  return false

/-- `conflict_sentence`. -/
def conflictSentence (existing : Fields) : String :=
  if truthy "unreadable" existing then
    "the Kea host has an investigation-session state file it cannot read; Jen will not overwrite " ++
      "it - look at the investigation state file in the helper's directory under /var/lib on that " ++
      "host (or remove it once you know it is stale)"
  else
    "the Kea host reports an unresolved investigation session Jen does not recognize (armed " ++
      textOr "armed_at" "at an unknown time" existing ++ ", until " ++
      textOr "until" "an unknown time" existing ++ "); Jen will not overwrite it - it restores " ++
      "itself at its deadline, or run `sudo jen-kea-helper --self-restore --now` on that host"

/-- What an arm of the host comes to. -/
inductive Armed where
  | armed
  /-- It is not armed; whether it wrote its state, what it holds that is not this session, and what is
  said of it. -/
  | refused (written : Bool) (conflict : Option Json) (line : String)

/-- `_arm_host`. -/
def armHost (s : KeaServer) (e : Entry) (deadline : String) : InvM (Entry × Armed) := do
  match e.restore with
  | some (.obj restore) =>
    if restoreProblem (.obj restore) ≠ "" then
      return (e, .refused false none noRestore)
    let reply ← ask (.hostArm s deadline (.obj restore))
    if ¬ truthy "ok" reply then
      if answers "code" "armed" reply then
        let existing := match lookup "existing" reply with
          | some (.obj existing) => existing
          | _ => []
        return (e, .refused false (some (.obj existing)) (conflictSentence existing))
      return (e, .refused false none s!"the Kea host could not arm its self-restore: {detailOf reply}")
    if ¬ answers "timer" "systemd" reply then
      let why := textOr "detail" "no systemd timer could be started" reply
      return (e, .refused true none s!"the Kea host cannot restore the log level by itself ({why}), and Jen will not turn on a level only it can put back")
    return ({ e with armed := true, hostTimer := "systemd", hostError := none,
                     hostConflict := none }, .armed)
  | _ => return (e, .refused false none noRestore)
where
  noRestore : String := "the marker Jen just wrote carries no restore object to arm the host with"

/-- `_did_not_take`. -/
def didNotTake (clock : Clock) (s : KeaServer) (record : Record) (e : Entry)
    (contradiction : Bool) (held : Option Entry) (armed : Bool) : InvM (Record × Outcome) := do
  let restored ← revertFile clock s
  if restored then
    let e ← observe s { e with file := .restored }
    if contradiction then
      let e := { e with daemon := .other, contradiction := true, pending := none }
      let (record, _) ← put record s.sid e
      return (record, { ok := false })
    else if e.daemon = .restored ∧ stillRunning held then
      match held with
      | none => return (record, { ok := false })
      | some held =>
        -- the session that was on before stays as it was
        let kept := if armed then { held with deadline := e.deadline } else held
        let (record, _) ← put record s.sid kept
        return (record, { ok := false })
    else if e.daemon = .restored then
      let (record, gone) ← drop record s.sid
      if gone then
        if armed then abandonHostArm s
        return (record, { ok := false })
      let (record, _) ← put record s.sid e
      return (record, { ok := false })
    else
      let pending := if e.daemon = .other then none else some .reload
      let (record, _) ← put record s.sid { e with pending := pending }
      return (record, { ok := false })
  else
    let e ← observe s e
    let e := { e with pending := some .reload }
    let e := if contradiction then { e with daemon := .other, contradiction := true } else e
    let (record, _) ← put record s.sid e
    return (record, { ok := false })

/-- `_undo_activation`. -/
def undoActivation (clock : Clock) (s : KeaServer) (record : Record) : InvM (Record × Outcome) := do
  let (record, _) ← restore clock s record none
  return (record, { ok := false })

/-- The end of `turn_on` where the change set restarted the daemon on the file. -/
def afterRestart (clock : Clock) (s : KeaServer) (record : Record) (e : Entry)
    (held : Option Entry) : InvM (Record × Outcome) := do
  let e ← observe s { e with restarted := true } observeAfterRestartS
  if e.daemon = .restored ∨ e.daemon = .other then
    didNotTake clock s record e (e.daemon = .restored) held true
  else
    let pending := if e.daemon = .debug then none else some .reload
    let (record, stored) ← put record s.sid { e with pending := pending }
    if stored then return (record, { ok := true })
    undoActivation clock s record

/-- The end of `turn_on` where the daemon is asked to read the file again. -/
def afterWrite (clock : Clock) (s : KeaServer) (record : Record) (e : Entry)
    (held : Option Entry) : InvM (Record × Outcome) := do
  let e := { e with daemon := .unknown, pending := some .reload }
  let (record, stored) ← put record s.sid e
  -- a daemon whose entry is not stored is not asked
  if ¬ stored then
    let _ ← revertFile clock s
    return (record, { ok := false })
  let (e, mode) ← daemonStep s e true false false
  if mode.isSome then
    let e ← observe s e
    if e.daemon = .debug then
      let (record, stored) ← put record s.sid { e with pending := none }
      if stored then return (record, { ok := true })
      undoActivation clock s record
    else if e.daemon = .unknown then
      let (record, _) ← put record s.sid { e with pending := none }
      return (record, { ok := true })
    else didNotTake clock s record e (e.daemon = .restored) held true
  else didNotTake clock s record e false held true

/-- The end of `turn_on` once the file carries the marker. -/
def afterMarked (clock : Clock) (s : KeaServer) (record : Record) (e : Entry)
    (held : Option Entry) (deadline : String) (reloads : Bool) : InvM (Record × Outcome) := do
  let (e, answer) ← armHost s e deadline
  match answer with
  | .refused written _ _ =>
    if written then abandonHostArm s
    didNotTake clock s record e false held false
  | .armed =>
    if reloads then afterWrite clock s record e held else afterRestart clock s record e held

/-- `turn_on` once nothing stands against it. -/
def activate (clock : Clock) (s : KeaServer) (record : Record) (held : Option Entry)
    (deadline : String) : InvM (Record × Outcome) := do
  let edit := Edit.set deadline
  let (answer, support) ← change s edit true true
  match answer with
  | none => return (record, { ok := false })
  | some answer =>
    -- the marker that the candidate carries says what the logger was
    let captured := do
      let cfg ← answer.cfg
      let (new, code) := edit.run clock cfg
      let marker ← if code = .ok then investigationMarker new else none
      lookup "restore" marker
    let e := { entryFor s deadline with restore := captured }
    let (status, _) := answer.result clock edit
    if status = .rollbackFailed then
      let e := { e with daemon := .unknown, pending := some .restart }
      let (record, _) ← put record s.sid e
      return (record, { ok := false })
    else if status ≠ .ok then return (record, { ok := false })
    else afterMarked clock s record e held deadline (support = .yes)

/-- An earlier session of the server stands against a new one. -/
def Entry.standsAgainst (held : Entry) (s : KeaServer) : Bool :=
  !entryMatches held s || held.contradiction || held.markerInvalid || held.file == .restored

/-- `turn_on`. `kea` are the servers that Jen has. -/
def turnOn (clock : Clock) (kea : List KeaServer) (s : KeaServer) (minutes : ℕ) :
    InvM Outcome := do
  if ¬ (← ask .enabled) then return { ok := false }
  if minutes ∉ durations then return { ok := false }
  let record ← readRecord clock
  if record.damaged then return { ok := false }
  if ¬ (kea.find? fun k => k.sid = s.sid).any fun k => k.identity = s.identity then
    return { ok := false }
  if record.servers.any fun x => x.1 != s.sid then return { ok := false }
  let held := record.servers.lookup s.sid
  if held.any fun held => held.standsAgainst s then return { ok := false }
  if ← helperGate s held then return { ok := false }
  let now ← ask .now
  let until_ := now + minutes * minute
  let running := held.bind fun held => clock.parse (.str held.deadline)
  -- a session is only extended
  let parsed := clock.parse (.str (clock.iso until_))
  if running.any fun running => parsed.any fun parsed => parsed < running then return { ok := false }
  let (_, outcome) ← activate clock s record held (clock.iso until_)
  return outcome

/-! ## The sweep -/

/-- The servers that have an SSH host, by id: `{str(s.get("id")): s for s in _ssh_servers()}`. -/
def knownServers (kea : List KeaServer) : List (String × KeaServer) :=
  (kea.filter fun s => s.hasSsh).foldl
    (fun known s => if (known.lookup s.sid).isSome then
      known.map fun x => if x.1 = s.sid then (s.sid, s) else x
    else known ++ [(s.sid, s)]) []

/-- `_file_carries_marker`; `none` when the file cannot be read. -/
def fileCarriesMarker (s : KeaServer) : InvM (Option Bool) := do
  match ← ask (.readConfig s) with
  | some (some cfg) => return if cfg.isEmpty then none else some (investigationMarker cfg).isSome
  | _ => return none

/-- `_candidate_ready`: a deadline that cannot be read is now. -/
def candidateReady (clock : Clock) (now : ℤ) (e : Entry) : Option Entry :=
  let e := if (clock.parse (.str e.deadline)).isNone then { e with deadline := clock.iso now } else e
  if e.valid clock then some e else none

/-- `str(marker.get("until") or _iso(now))`. -/
def deadlineOf (clock : Clock) (now : ℤ) (marker : Fields) : String :=
  textOr "until" (clock.iso now) marker

/-- The entry of a server whose file carries a marker, as its daemon was seen. -/
def candidateOfFile (clock : Clock) (s : KeaServer) (now : ℤ) (cfg : Fields)
    (seen : DaemonLogger) : Option Entry :=
  let marker := (investigationMarker cfg).getD []
  let damaged := validateInvestigationMarker cfg ≠ ""
  let e := entryFor s (deadlineOf clock now marker)
  let e := if damaged then { e with markerInvalid := true }
    else { e with restore := trustedRestore marker }
  let e := observeFrom e (some seen)
  candidateReady clock now { e with pending := if e.daemon = .debug then none else some .reload }

/-- The entry of a server whose file is clean and whose daemon runs at DEBUG. -/
def entryOfDaemon (clock : Clock) (s : KeaServer) (now : ℤ) (marker : Fields) : Entry :=
  { entryFor s (deadlineOf clock now marker) with
    file := .restored, daemon := .debug, pending := some .reload, restore := trustedRestore marker }

/-- The marker of a daemon that runs at DEBUG. -/
def DaemonLogger.debugMarker (seen : DaemonLogger) : Option Fields :=
  if atInvestigationLevel seen then seen.marker else none

/-- `_recovery_candidates`, for one server: its entry where it has one, or `none` when its file or its
daemon cannot be examined. -/
def recoveryCandidate (clock : Clock) (now : ℤ) (s : KeaServer) : InvM (Option (Option Entry)) := do
  match ← ask (.readConfig s) with
  | some (some cfg) =>
    if cfg.isEmpty then return none
    match daemonLogger (← ask (.configGet s 0)) with
    | none => return none
    | some seen =>
      if (investigationMarker cfg).isSome ∨ validateInvestigationMarker cfg ≠ "" then
        return (candidateOfFile clock s now cfg seen).map some
      match seen.debugMarker with
      | none => return some none
      | some marker => return (candidateReady clock now (entryOfDaemon clock s now marker)).map some
  | _ => return none

/-- The candidates so far with that of one more server; none where a server cannot be examined. -/
def addCandidate (clock : Clock) (now : ℤ) (x : String × KeaServer) (found : Option Servers) :
    InvM (Option Servers) := do
  let candidate ← recoveryCandidate clock now x.2
  return match found, candidate with
    | some found, some (some e) => some (found ++ [(x.1, e)])
    | some found, some none => some found
    | _, _ => none

/-- `_recover`: an unreadable index is written anew when every server was examined. -/
def recover (clock : Clock) (kea : List KeaServer) (record : Record) (now : ℤ) : InvM Unit := do
  if record.unavailable ∨ knownServers kea = [] then return ()
  match ← Prog.fold (addCandidate clock now) (knownServers kea) (some []) with
  | none => return ()
  | some found =>
    if kea.any fun s => !s.hasSsh then return ()
    let _ ← save { servers := found, damaged := true }
    return ()

/-- What `_host_phase` makes of one report of the host: the entry, whether the host's restore is done,
and whether the entry is to be armed again. -/
inductive Report where
  | keep (e : Entry)
  | restored (e : Entry) (recorded : Bool)
  | timerDown (e : Entry)
  | rearm (e : Entry)

/-- The line of a session of the host that runs. -/
def sessionLine (status : Fields) : String :=
  let lastError := textOr "last_error" "" status
  let timerError := textOr "timer_error" "" status
  let line :=
    if lastError ≠ "" ∧ timerError ≠ "" then
      s!"{timerError}; the last restore attempt failed: {lastError}"
    else if lastError ≠ "" then
      s!"the Kea host's restore failed and is retried every minute: {lastError}"
    else timerError
  if line ≠ "" ∧ lastError ≠ "" ∧ truthy "socket_note" status then
    line ++ " (the host could not ask Kea directly: " ++ textOr "socket_note" "" status ++ ")"
  else line

/-- The host's report on an entry. -/
def reportOf (clock : Clock) (now : ℤ) (status : Fields) (e : Entry) : Report :=
  let due := clock.parse (.str e.deadline)
  if ¬ truthy "ok" status then
    let unreadable := s!"the Kea host's report could not be read: {detailOf status}"
    if answers "code" "missing" status ∨ answers "code" "old" status then
      .keep { e with hostError := some (clipped unreadable), armed := false }
    else if answers "code" "bad-state" status then
      let conflict : Fields :=
        [("unreadable", .bool true), ("detail", (lookup "detail" status).getD .null)]
      .keep { e with hostError := some (clipped (conflictSentence conflict)), armed := false,
                     hostConflict := some (.obj conflict) }
    else .keep { e with hostError := some (clipped unreadable) }
  else
    let mine := due.isSome && clock.parse (.str (textOr "until" "" status)) == due &&
      (e.restore.isNone || lookup "restore" status == e.restore)
    if truthy "restored_at" status ∧ mine then
      let at_ := textOr "restored_at" "" status
      .restored { e with hostRestoredAt := some at_, hostError := none, hostConflict := none }
        (e.hostRestoredAt != some at_)
    else if truthy "armed" status ∧ mine then
      let e := { e with armed := true, hostConflict := none,
                        hostTimer := if e.hostTimer = "" then "systemd" else e.hostTimer,
                        hostError := if sessionLine status = "" then none
                          else some (clipped (sessionLine status)),
                        hostNeedsHand := truthy "needs_hand" status }
      if lookup "timer_active" status = some (.bool false) then
        .timerDown { e with timerDown := some (e.timerDown.getD 0 + 1) }
      else .keep { e with timerDown := none }
    else if truthy "armed" status then
      let conflict := status.filter fun f =>
        f.1 ∈ ["armed_at", "until", "restore", "jen", "log_path"]
      .keep { e with hostConflict := some (.obj conflict), armed := false,
                     hostError := some (clipped (conflictSentence status)) }
    else if due.any fun due => now < due then .rearm e
    else .keep e

/-- The fields that `_host_phase` watches are the same. -/
def Entry.sameReport (e e' : Entry) : Bool :=
  e.armed == e'.armed && e.hostError == e'.hostError && e.hostRestoredAt == e'.hostRestoredAt &&
    e.hostTimer == e'.hostTimer && e.hostConflict == e'.hostConflict &&
    e.hostNeedsHand == e'.hostNeedsHand && e.timerDown == e'.timerDown

/-- What follows from the host's report: the entry, and whether the host put the logger back. -/
def takeReport (s : KeaServer) : Report → InvM (Entry × Bool)
  | .keep e => return (e, false)
  | .restored e recorded => do
    if recorded then ask (.recordDaemon s)
    return (e, true)
  | .timerDown e => do
    ask (.hostTimer s)
    return (e, false)
  | .rearm e => do
    let (e, answer) ← armHost s e e.deadline
    match answer with
    | .armed => return (e, false)
    | .refused written conflict line =>
      if written then abandonHostArm s
      return ({ e with armed := false, hostError := some (clipped line),
                       hostConflict := conflict.or e.hostConflict }, false)

/-- `_host_phase`, for one entry: the record, and the servers whose host put the logger back. -/
def hostPhase (clock : Clock) (known : List (String × KeaServer)) (now : ℤ) (sid : String)
    (acc : Record × List String) : InvM (Record × List String) := do
  let (record, done) := acc
  match known.lookup sid, record.servers.lookup sid with
  | some s, some e =>
    if e.removed ∨ e.markerInvalid ∨ e.file ≠ .debug then return acc
    let status ← ask (.hostStatus s)
    let (new, restored) ← takeReport s (reportOf clock now status e)
    let done := if restored then done ++ [sid] else done
    if ¬ new.sameReport e then
      let (record, _) ← put record sid new
      return (record, done)
    return (record.hold sid new, done)
  | _, _ => return acc

/-- The flag of an entry whose server Jen no longer has. -/
def orphan (known : List (String × KeaServer)) (sid : String) (record : Record) : InvM Record := do
  match record.servers.lookup sid with
  | some e =>
    if (known.lookup sid).isSome ∨ e.removed then return record
    let (record, _) ← save (record.hold sid { e with removed := true })
    return record
  | none => return record

/-- The look at an entry whose daemon is not known. -/
def lookAgain (known : List (String × KeaServer)) (scanned : List String) (sid : String)
    (record : Record) : InvM Record := do
  match known.lookup sid, record.servers.lookup sid with
  | some s, some e =>
    if sid ∈ scanned ∨ e.file ≠ .debug ∨ e.markerInvalid ∨
        ¬ (e.daemon = .unknown ∨ e.daemon = .other) then return record
    let seen ← observe s e
    let carries ← fileCarriesMarker s
    let new := if carries = some false then
        { seen with file := .restored, pending := seen.pending.or (some .reload) }
      else if seen.daemon = .debug ∧ carries = some true then { seen with pending := none }
      else seen
    if (new.daemon, new.pending, new.file) ≠ (e.daemon, e.pending, e.file) then
      let (record, _) ← put record sid new
      return record
    return record.hold sid new
  | _, _ => return record

/-- The full scan's look at a clean file: a daemon that runs at DEBUG without an entry is given one. -/
def scanClean (clock : Clock) (now : ℤ) (sid : String) (s : KeaServer) (record : Record) :
    InvM (Record × Bool) := do
  let seen := daemonLogger (← ask (.configGet s 0))
  match record.servers.lookup sid, seen.bind DaemonLogger.debugMarker with
  | none, some marker =>
    let (record, _) ← put record sid (entryOfDaemon clock s now marker)
    return (record, true)
  | _, _ => return (record, false)

/-- A marker that was repaired by hand reads again. -/
def repaired (sid : String) (record : Record) : InvM Record := do
  match record.servers.lookup sid with
  | some e =>
    if ¬ e.markerInvalid then return record
    let (record, _) ← put record sid { e with markerInvalid := false }
    return record
  | none => return record

/-- The full scan's look at a file that carries a marker. -/
def scanMarked (clock : Clock) (now : ℤ) (sid : String) (s : KeaServer) (marker : Fields)
    (record : Record) : InvM (Record × Bool) := do
  let record ← repaired sid record
  let due := clock.parse ((lookup "until" marker).getD .null)
  if due.getD now ≤ now then return (record, true)
  if (record.servers.lookup sid).isSome then return (record, false)
  let e := { entryFor s (textOr "until" "" marker) with restore := trustedRestore marker }
  let e ← observe s e
  let e := { e with pending := if e.daemon = .debug then none else some .reload }
  let (record, _) ← put record sid e
  return (record, false)

/-- The full scan of one server: the record, and whether its logger is to be put back. -/
def scan (clock : Clock) (now : ℤ) (sid : String) (s : KeaServer) (record : Record) :
    InvM (Record × Bool) := do
  match ← ask (.readConfig s) with
  | none => return (record, false)
  | some cfg =>
    let cfg := cfg.getD []
    if validateInvestigationMarker cfg ≠ "" then
      let e := (record.servers.lookup sid).getD (entryFor s (clock.iso now))
      let (record, _) ← put record sid { e with markerInvalid := true }
      return (record, false)
    match investigationMarker cfg with
    | none => scanClean clock now sid s record
    | some marker => scanMarked clock now sid s marker record

/-- The sweep's restore of one server: one that fails leaves an entry. -/
def sweepRestore (clock : Clock) (now : ℤ) (x : String × KeaServer) (record : Record) :
    InvM Record := do
  let (record, outcome) ← restore clock x.2 record (some now)
  if ¬ outcome.ok ∧ (record.servers.lookup x.1).isNone then
    let (record, _) ← put record x.1 (entryFor x.2 (clock.iso now))
    return record
  return record

/-- The entries that the sweep puts back: those whose file is back, whose host is done, and those that
are due. -/
def dueNow (clock : Clock) (now : ℤ) (done : List String) (known : List (String × KeaServer))
    (record : Record) : List (String × KeaServer) :=
  record.servers.filterMap fun x =>
    if x.2.file = .restored ∨ x.1 ∈ done ∨
        (clock.parse (.str x.2.deadline)).getD now ≤ now then
      (known.lookup x.1).map fun s => (x.1, s)
    else none

/-- An entry whose server is back in Jen is live again. -/
def resume (known : List (String × KeaServer)) (record : Record) : InvM Record := do
  let resumes := fun x : String × Entry => x.2.removed && (known.lookup x.1).isSome
  if ¬ record.servers.any resumes then return record
  let (record, _) ← save { record with
    servers := record.servers.map fun x => if resumes x then (x.1, { x.2 with removed := false }) else x }
  return record

/-- The full scan of one server that was not found due, and the servers that are. -/
def scanOther (clock : Clock) (now : ℤ) (scanned : List String) (x : String × KeaServer)
    (acc : Record × List (String × KeaServer)) : InvM (Record × List (String × KeaServer)) := do
  if x.1 ∈ scanned then return acc
  let (record, isDue) ← scan clock now x.1 x.2 acc.1
  return (record, if isDue then acc.2 ++ [x] else acc.2)

/-- The full scan, where it is one. -/
def fullScan (clock : Clock) (now : ℤ) (full : Bool) (known : List (String × KeaServer))
    (record : Record) (due : List (String × KeaServer)) :
    InvM (Record × List (String × KeaServer)) :=
  if full then Prog.fold (scanOther clock now (due.map Prod.fst)) known (record, due)
  else pure (record, due)

/-- `sweep`, of an index that can be read. -/
def sweepIndex (clock : Clock) (kea : List KeaServer) (record : Record) (now : ℤ) (full : Bool) :
    InvM Unit := do
  -- an entry is acted on only through the Kea it is about
  let known := (knownServers kea).filter fun x =>
    (record.servers.lookup x.1).all fun e => entryMatches e x.2
  let record ← resume known record
  let (record, done) ← Prog.fold (hostPhase clock known now) (record.servers.map Prod.fst)
    (record, [])
  let due := dueNow clock now done known record
  let record ← Prog.fold (orphan known) (record.servers.map Prod.fst) record
  let record ← Prog.fold (lookAgain known (due.map Prod.fst)) (record.servers.map Prod.fst) record
  let (record, due) ← fullScan clock now full known record due
  let _ ← Prog.fold (sweepRestore clock now) due record
  return ()

/-- `sweep`. -/
def sweep (clock : Clock) (kea : List KeaServer) (now : ℤ) (full : Bool) : InvM Unit := do
  let record ← readRecord clock
  if record.damaged then recover clock kea record now
  else sweepIndex clock kea record now full

end JenKea.Investigation
