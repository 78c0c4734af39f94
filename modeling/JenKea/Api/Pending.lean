import JenKea.Api.Model

/-!
# The pending record and its settlement

A change over the API writes a pending row before it sends `config-set`. When Jen dies in between,
the row is what is left, and the functions here settle it by content: the daemon's digest is the one
from before the change, so the change never reached it (the row goes); or the daemon carries the
candidate, so the change is live (the file is written and the row finished); or neither (the row
stays). A row whose body is not a configuration is damaged, and never live.
-/

namespace JenKea.Api

open Text

variable {H : Type}

/-- `PENDING_SETTLE_SECONDS`. -/
def pendingSettleSeconds : ℤ := 120

/-- `_row_age_seconds`: the age of a row; a time that cannot be read counts as old. -/
def rowAge (row : Row H) : ApiM H ℤ :=
  match row.createdAt with
  | none => return pendingSettleSeconds + 1
  | some stamp => do
    let now ← ask .utcNow
    return now - stamp.seconds

/-- `unreadable_sentence`. -/
def unreadableSentence (server : Server) : String :=
  s!"the record of an earlier change on {server.label} cannot be read; nothing is sent until it can"

/-- The program `p`, and `a` where the record of pending changes cannot be read. -/
def unlessUnreadable {α : Type} (p : ApiM H α) (a : α) : ApiM H α :=
  p.handle fun
    | .storeUnreadable => .done a
    | e => .raise e

/-- `record_unreadable`: a sentence when the record of pending changes cannot be read. -/
def recordUnreadable (server : Server) (service : Service) : ApiM H String :=
  match server.id with
  | none => return ""
  | some sid =>
    if serviceKey service = none then return ""
    else unlessUnreadable (ask (.pending sid service) >>= fun _ => pure "")
      (unreadableSentence server)

/-- `DAMAGED_SENTENCE`. -/
def damagedSentence (server : Server) : String :=
  s!"the record of an earlier change on {server.label} is damaged; Settle it now compares " ++
    "digests and removes it"

/-- `NO_PLANNED_SENTENCE`. -/
def noPlannedSentence (server : Server) : String :=
  let host := hostOf server
  s!"the file on {host} cannot be proved against the file this change was planned over; restart " ++
    "Kea there to load the file as it stands, then Settle it now - or tick the box beside Settle " ++
    "it now to keep the change (the file as it stands is kept in Config history first)"

/-- `_pending_candidate`: the configuration that a pending row holds, or `none` where the row is
damaged: its body is no object, or its section is empty or no object. -/
def pendingCandidate (row : Row H) (service : Service) : Option Cfg :=
  match row.config with
  | some (.obj parsed) =>
    match sectionOf (some parsed) service with
    | .obj (_ :: _) => some parsed
    | _ => none
  | _ => none

/-- How a row's time is printed. -/
def Entry.at (row : Entry H) : String :=
  match row.createdAt with
  | some stamp => stamp.text
  | none => "an earlier time"

/-- What a settlement leaves: what the daemon runs now, whether a row was finished or removed, and
the lines that say what happened. -/
structure Settlement (H : Type) where
  cfg : Cfg
  digest : H
  settled : Bool
  notes : List String

section Reconcile

variable [DecidableEq H] [ToString H]

/-- `_reconcile_pending` on a damaged row: removed when the daemon runs what it ran before the
change, and marked otherwise. -/
def reconcileDamaged (row : Row H) (cfg : Cfg) (digest : H) : ApiM H (Settlement H) :=
  let time := Entry.at row.toEntry
  if row.sha256 = some digest then do
    let done ← ask (.discard row.id)
    return ⟨cfg, digest, done, [if done then
      s!"a change of {time} never reached the daemon (its record was damaged); the record was " ++
        "removed"
      else s!"a change of {time} never reached the daemon (its record was damaged), and the " ++
        "record could not be removed - try again"]⟩
  else do
    let done ← ask (.markDamaged row.id)
    return ⟨cfg, digest, done, [if done then
      s!"the record of a change of {time} is damaged and the daemon runs {digest}; restore from " ++
        "Config history if that is not what you expect"
      else s!"the record of a change of {time} is damaged and could not be marked - try again " ++
        s!"(the daemon runs {digest})"]⟩

/-- `_reconcile_pending` on a change that never reached the daemon. -/
def reconcileUnsent (row : Row H) (cfg : Cfg) (digest : H) : ApiM H (Settlement H) := do
  let time := Entry.at row.toEntry
  let done ← ask (.discard row.id)
  return ⟨cfg, digest, done, [if done then
    s!"a change of {time} never reached the daemon; its record was removed"
    else s!"a change of {time} never reached the daemon, and its record could not be removed - " ++
      "try again"]⟩

/-- What a settlement's `config-write` waits on: the investigation marker, or the host's restore
window. -/
def settlementWaits (server : Server) (service : Service) (cfg : Cfg) : ApiM H String := do
  let refusal ← ask (.guardKeaWrite server cfg service)
  if refusal ≠ "" then return refusal
  if service = .dhcp4 then ask (.restoreWindow server) else return ""

/-- The end of a settlement whose `config-write` was answered: the row is finished with what the
daemon runs now. -/
def finishSettled (server : Server) (service : Service) (row : Row H) (again : Cfg) (digest : H) :
    ApiM H (Settlement H) := do
  let time := Entry.at row.toEntry
  let finished ← ask (.finish row.id .jen (some digest) again)
  let recorded ← recordRenderingAfterWrite server service s!"settled a change of {time}" none
  if !finished then
    return ⟨again, digest, false, [s!"a change of {time} is live and its file was written, but " ++
      s!"its record could not be finished - try again (the daemon runs {digest})"]⟩
  let sentence := renderingNotRecorded server
  let more := if recorded ∨ !server.hasSsh then "" else s!" ({sentence})"
  return ⟨again, digest, true, [s!"a change of {time} was finished now{more}"]⟩

/-- `_reconcile_pending` on a change that is live: its file is written, over a file that is proved,
and the row is finished. -/
def reconcileLive (server : Server) (service : Service) (row : Row H) (cfg : Cfg) (digest : H)
    (discard : Bool) : ApiM H (Settlement H) := do
  let time := Entry.at row.toEntry
  let live := s!"a change of {time} is live and its file write waits: "
  let waits ← settlementWaits server service cfg
  if waits ≠ "" then return ⟨cfg, digest, false, [live ++ waits]⟩
  if server.hasSsh ∧ row.fileSha256 = none ∧ !discard then
    return ⟨cfg, digest, false, [live ++ noPlannedSentence server]⟩
  let wrote ← writeFile server service row.fileSha256 discard
  if wrote.code = "unloaded-edit" then return ⟨cfg, digest, false, [live ++ wrote.detail]⟩
  let again ← get server service
  match again with
  | .ok (again, digest2) =>
    if wrote.ok then finishSettled server service row again digest2
    else return ⟨cfg, digest, false, [notProved time wrote.detail]⟩
  | .error _ => return ⟨cfg, digest, false, [notProved time wrote.detail]⟩
where
  /-- The line of a write that is not proved. -/
  notProved (time detail : String) : String :=
    let why := orElse detail "no answer"
    s!"a change of {time} is live but its file write is not proved ({why}); the daemon runs " ++
      s!"{digest}"

/-- `_reconcile_pending` on a daemon that runs neither the state before the change nor the
change. -/
def unresolved (row : Row H) (cfg : Cfg) (digest : H) : Settlement H :=
  let time := Entry.at row.toEntry
  let before := (row.sha256.map toString).getD "unknown"
  ⟨cfg, digest, false, [s!"a change of {time} is unresolved: the daemon runs {digest}, which is " ++
    s!"neither the state before it ({before}) nor the change; resolve it from Config history " ++
    "(restore the revision you want - if the file on the host is not what the daemon runs " ++
    "either, restart Kea there first)"]⟩

/-- `_reconcile_pending` on the row that is pending. -/
def reconcileRow (server : Server) (service : Service) (row : Row H) (cfg : Cfg) (digest : H)
    (discard : Bool) : ApiM H (Settlement H) :=
  match pendingCandidate row service with
  | none => reconcileDamaged row cfg digest
  | some candidate => do
    let age ← rowAge row
    if age < pendingSettleSeconds then
      let time := Entry.at row.toEntry
      return ⟨cfg, digest, false, [s!"a change of {time} is in progress; it is not settled until " ++
        s!"it has had {pendingSettleSeconds} s"]⟩
    if row.sha256 = some digest then reconcileUnsent row cfg digest
    else if carries (sectionOf (some cfg) service) (sectionOf (some candidate) service) then
      reconcileLive server service row cfg digest discard
    else return unresolved row cfg digest

/-- `_reconcile_pending`: a pending row is settled by content. -/
def reconcilePending (server : Server) (service : Service) (cfg : Cfg) (digest : H)
    (discard : Bool) : ApiM H (Settlement H) :=
  match server.id with
  | none => return ⟨cfg, digest, false, []⟩
  | some sid =>
    if serviceKey service = none then return ⟨cfg, digest, false, []⟩
    else do
      let row ← ask (.pending sid service)
      match row with
      | none => return ⟨cfg, digest, false, []⟩
      | some row => reconcileRow server service row cfg digest discard

/-- `settle_pending`: a pending row is settled now, by the operator's word. -/
def settlePending (server : Server) (service : Service) (discard : Bool) :
    ApiM H (List String × Bool) := do
  let got ← get server service
  match got with
  | .error why =>
    return ([s!"{server.label} did not answer ({why}); nothing was settled"], false)
  | .ok (cfg, digest) =>
    unlessUnreadable (reconcilePending server service cfg digest discard >>= fun done =>
        pure (if done.notes = [] then ["there is no pending change to settle"] else done.notes,
          done.settled))
      ([unreadableSentence server], false)

/-- `_stale_pending`: what a restore finds on record. -/
inductive Stale where
  | nothing
  /-- The change never reached the daemon; its row is marked damaged. -/
  | stale
  /-- The daemon runs the change, or it is too young to tell. -/
  | live
  /-- The daemon runs the change, and its file cannot be proved. -/
  | unprovable
  /-- The daemon could not be asked. -/
  | unknown
  deriving DecidableEq, Repr

/-- The last step of `_stale_pending`. -/
def supersede (row : Row H) : ApiM H Stale := do
  let _ ← ask (.markDamaged row.id)
  return .stale

/-- `_stale_pending`: a restore finds what the daemon does not run stale, and supersedes it. -/
def stalePending (server : Server) (service : Service) : ApiM H Stale :=
  match server.id with
  | none => return .nothing
  | some sid => do
    let row ← ask (.pending sid service)
    match row with
    | none => return .nothing
    | some row =>
      match pendingCandidate row service with
      | none => supersede row
      | some candidate =>
        let got ← get server service
        match got with
        | .error _ => return .unknown
        | .ok (cfg, digest) =>
          let age ← rowAge row
          if age < pendingSettleSeconds then return .live
          if row.sha256 ≠ some digest ∧
              carries (sectionOf (some cfg) service) (sectionOf (some candidate) service) then
            return if server.hasSsh ∧ row.fileSha256 = none then .unprovable else .live
          supersede row

/-- The part of `pending_block` that finds a pending row. -/
def settleFirst (server : Server) (service : Service) (sid : ℤ) : ApiM H String := do
  let got ← get server service
  match got with
  | .error why =>
    return s!"an earlier change on {server.label} is unresolved and the daemon did not answer " ++
      s!"({why})"
  | .ok (cfg, digest) =>
    let done ← reconcilePending server service cfg digest false
    let left ← ask (.pending sid service)
    if left.isNone then return ""
    return done.notes.getLast?.getD
      s!"an earlier change on {server.label} is unresolved; resolve it from Config history"

/-- `pending_block`: a sentence when a pending change is on record and could not be settled now. -/
def pendingBlock (server : Server) (service : Service) : ApiM H String :=
  match server.id with
  | none => return ""
  | some sid => unlessUnreadable (block sid) (unreadableSentence server)
where
  /-- `pending_block` of a server with an id. -/
  block (sid : ℤ) : ApiM H String := do
    let row ← ask (.pending sid service)
    match row with
    | none => return ""
    | some row =>
      if pendingCandidate row service = none then return damagedSentence server
      settleFirst server service sid

end Reconcile

end JenKea.Api
