import JenKea.Api.Config
import JenKea.Lib.Prog
import JenKea.Revisions

/-!
# Commands to the daemon, and the proof of its file

The calls of `kea_api_config.py` below `apply`: the commands it sends to a daemon, what it makes of
the replies, and `file_proof`, the question every `config-write` asks before it replaces a file. The
functions are programs over `ApiI`, the operations of `kea`, `kea_host`, `config_revisions`, and
`investigation_logging` that they call. Each operation may raise.

`H` is the type of the digests, which Jen compares and prints and never computes.
-/

namespace JenKea.Api

open Text

/-- A command to a Kea daemon. -/
inductive Command where
  | configGet
  | configHashGet
  | configSet (body : Cfg)
  | configWrite
  deriving DecidableEq

/-- A reply of `kea_command`: Kea's own, or the one that Jen makes for a transport fault. -/
inductive Reply (H : Type) where
  | transport (text : String)
  /-- `arguments` is without its `hash`, which stands beside it. -/
  | kea (result : ℤ) (text : String) (arguments : Option Cfg) (hash : Option H)

/-- The times of a daemon, in seconds before the host's now. -/
structure DaemonTimes where
  uptime : Option ℤ
  reload : Option ℤ
  deriving DecidableEq, Repr

/-- What a host says about its file and its daemon, by its one clock. -/
structure Times where
  /-- When the file was written. -/
  mtime : Option ℤ
  now : Option ℤ
  daemon : Option DaemonTimes
  socketNote : String := ""
  deriving DecidableEq, Repr

/-- A file that was read: the configuration, the digest, and the times of a host that says them. -/
structure FileRead (H : Type) where
  cfg : Cfg
  sha : H
  times : Option Times

/-- The operations that the functions of the module call. -/
inductive ApiOp (H : Type) : Type
  | guardKeaWrite (server : Server) (cfg : Cfg) (service : Service)
  | restoreWindow (server : Server)
  | refreshIfStale (server : Server) (service : Service)
  | probeGate (server : Server) (source : Source)
  | rememberRefusal (server : Server) (text : String)
  | cmd (server : Server) (service : Service) (command : Command)
  | readConfigProof (server : Server) (service : Service) (capture : Bool)
  | readConfigVersioned (server : Server) (service : Service)
  /-- `compare`, for the place it names. -/
  | comparePlace (server : Server) (service : Service) (file live : Cfg)
  /-- The clock of `_row_age_seconds`. -/
  | utcNow
  | pending (serverId : ℤ) (service : Service)
  | latestRendering (serverId : ℤ) (service : Service)
  | record (entry : Entry H)
  | finish (id : ℕ) (source : Source) (sha256 : Option H) (cfg : Cfg)
  | markDamaged (id : ℕ)
  | discard (id : ℕ)
  | discardPending (serverId : ℤ) (service : Service)

/-- What each operation returns when it does not raise. -/
@[reducible] def ApiOp.Result {H : Type} : ApiOp H → Type
  | .guardKeaWrite .. | .restoreWindow .. | .probeGate .. | .comparePlace .. => String
  | .refreshIfStale .. | .rememberRefusal .. | .discardPending .. => Unit
  | .cmd .. => Reply H
  | .readConfigProof .. => Option (FileRead H)
  | .readConfigVersioned .. => Option (Cfg × H)
  | .utcNow => ℤ
  | .pending .. | .latestRendering .. => Option (Row H)
  | .record .. => Option ℕ
  | .finish .. | .markDamaged .. | .discard .. => Bool

/-- The interface of the module: each operation answers or raises. -/
@[reducible] def ApiI (H : Type) : Interface where
  Op := ApiOp H
  Ans o := Except Exc o.Result

/-- A program of the module. -/
abbrev ApiM (H α : Type) : Type := Prog (ApiI H) Exc α

variable {H : Type}

/-- One call; what it raises, the program raises. -/
def ask (o : ApiOp H) : ApiM H o.Result := .call o Prog.ofExcept

/-! ## Replies -/

/-- `_answered`: Kea sent this reply. -/
def Reply.answered : Reply H → Bool
  | .transport _ => false
  | .kea .. => true

/-- `_ok`: Kea did what the command asks. -/
def Reply.isOk : Reply H → Bool
  | .transport _ => false
  | .kea result .. => result == 0

/-- `_text`: the text of a reply, cut to 300 characters. -/
def Reply.text : Reply H → String
  | .transport text | .kea _ text _ _ => String.ofList ((strip text).toList.take 300)

/-- `_digest`: the digest that a reply carries. -/
def Reply.digest : Reply H → Option H
  | .kea _ _ (some _) hash => hash
  | _ => none

/-- `_body`: the section of a service by itself, as `config-set` takes it. -/
def body (cfg : Cfg) (service : Service) : Except Exc Cfg :=
  let key := (serviceKey service).getD ""
  match Json.lookup key cfg with
  | some sec => .ok [(key, sec)]
  | none => .error (.keyError key)

/-- `_split`: the configuration and the digest of a reply to `config-get`, of a service that is
configured over the API. -/
def Reply.split (reply : Reply H) (key : String) : Option (Cfg × Option H) :=
  match reply with
  | .kea 0 _ (some args) hash => if (Json.lookup key args).isSome then some (args, hash) else none
  | _ => none

/-- `_get`: what the daemon runs with its digest, or why that is not known. A reply without a digest
is a failed read. -/
def get (server : Server) (service : Service) : ApiM H (Except String (Cfg × H)) :=
  match serviceKey service with
  | none => return .error s!"{service} is not configured over the API"
  | some key => do
    let reply ← ask (.cmd server service .configGet)
    if !reply.answered then
      return .error (orElse reply.text s!"{server.label} did not answer")
    if !reply.isOk then
      return .error (orElse reply.text s!"{server.label} refused config-get")
    match reply.split key with
    | none =>
      return .error s!"{server.label} answered config-get without a {key} section (nokey)"
    | some (_, none) => return .error s!"{server.label} answered config-get without a digest"
    | some (cfg, some digest) => return .ok (cfg, digest)

/-- `hash`: the digest of what the daemon runs, when it answers one. -/
def hashOf (server : Server) (service : Service) : ApiM H (Option H) :=
  if serviceKey service = none then return none
  else do
    let reply ← ask (.cmd server service .configHashGet)
    return if reply.isOk then reply.digest else none

/-! ## The proof of a file -/

/-- How a file was proved (`PROOF_HOWS`). -/
inductive How where
  | rendering
  | planned
  | loaded
  | noFile
  | unreadable
  | nothing
  deriving DecidableEq, Repr

/-- What `file_proof` answers. -/
structure Proof (H : Type) where
  ok : Bool
  how : How
  sha256 : Option H := none
  mtime : Option ℤ := none
  loadedAt : Option ℤ := none
  startedAt : Option ℤ := none
  /-- The first place where the file and the daemon differ. -/
  place : String := ""
  /-- Why the file is not proved. -/
  why : String := ""

/-- `_int_or_none`: a time in a plausible range. -/
def intOrNone (value : Option ℤ) : Option ℤ :=
  value.filter fun n => 0 ≤ n && n < 4102444800

/-- A number with two digits at least. -/
def twoDigits (n : ℤ) : String := if n < 10 then s!"0{n}" else toString n

/-- `_utc`: a time in UTC, to the second. -/
def utc (ts : ℤ) : String :=
  let days := ts / 86400 + 719468
  let era := days / 146097
  let dayOfEra := days % 146097
  let yearOfEra := (dayOfEra - dayOfEra / 1460 + dayOfEra / 36524 - dayOfEra / 146096) / 365
  let dayOfYear := dayOfEra - (365 * yearOfEra + yearOfEra / 4 - yearOfEra / 100)
  let monthFromMarch := (5 * dayOfYear + 2) / 153
  let day := twoDigits (dayOfYear - (153 * monthFromMarch + 2) / 5 + 1)
  let month := if monthFromMarch < 10 then monthFromMarch + 3 else monthFromMarch - 9
  let year := yearOfEra + era * 400 + if month ≤ 2 then 1 else 0
  let monthText := twoDigits month
  let hour := twoDigits (ts % 86400 / 3600)
  let minute := twoDigits (ts % 3600 / 60)
  let second := twoDigits (ts % 60)
  s!"{year}-{monthText}-{day} {hour}:{minute}:{second} UTC"

example : utc 951782400 = "2000-02-29 00:00:00 UTC" := by decide

/-- `server.get("name") or server.get("ssh_host") or "the host"`. -/
def hostOf (server : Server) : String := orElse server.name (orElse server.sshHost "the host")

/-- When the daemon last loaded a configuration, by the host's clock. -/
def Times.loadedAt (t : Times) : Option ℤ := do
  let daemon ← t.daemon
  let now ← intOrNone t.now
  let reload ← intOrNone daemon.reload
  return now - reload

/-- When the daemon started, by the host's clock. -/
def Times.startedAt (t : Times) : Option ℤ := do
  let daemon ← t.daemon
  let now ← intOrNone t.now
  let uptime ← intOrNone daemon.uptime
  return now - uptime

/-- When the file was written. -/
def FileRead.mtime (f : FileRead H) : Option ℤ := f.times.bind fun t => intOrNone t.mtime

/-- When the daemon last loaded a configuration. -/
def FileRead.loadedAt (f : FileRead H) : Option ℤ := f.times.bind Times.loadedAt

/-- A proof that carries what was read of the file. -/
def FileRead.proof (f : FileRead H) (ok : Bool) (how : How) (place why : String) : Proof H :=
  { ok := ok, how := how, sha256 := some f.sha, mtime := f.mtime, loadedAt := f.loadedAt,
    startedAt := f.times.bind Times.startedAt, place := place, why := why }

/-- What the record of pending changes says to a proof. -/
inductive OnRecord where
  | nothing
  | change
  | unreadable
  deriving DecidableEq, Repr

/-- The `why` of a file that nothing proves. The sentence of a file that is not the planned one
prints the time of the file, and raises where the host says none. -/
def FileRead.why (f : FileRead H) (host place : String) (planned : Bool) (onRecord : OnRecord) :
    Except Exc String :=
  let atPlace := if place = "" then "" else s!" ({place})"
  let wayOut := "restart Kea there (or `config-reload`) to load it, or discard it from the " ++
    "server's Write mode card"
  let written := match f.mtime with
    | some mtime => let time := utc mtime; s!"the file on {host} was written at {time}"
    | none => s!"the file on {host} is not one Jen rendered or proved"
  match f.times with
  | none =>
    .ok (s!"{written}; the daemon's own load time needs helper build 22 on {host} - press " ++
      s!"Update helper{atPlace}")
  | some times =>
    match f.loadedAt with
    | none =>
      let note := orElse times.socketNote "no answer"
      .ok s!"{written}; the daemon's own load time could not be read on {host} ({note}){atPlace}"
    | some loadedAt =>
      let loaded := utc loadedAt
      if planned then
        match f.mtime with
        | none => .error .typeError
        | some mtime =>
          let time := utc mtime
          .ok (s!"the file on {host} is not the file this change was planned over (written at " ++
            s!"{time}, the daemon last loaded its configuration at {loaded}); the daemon has " ++
            "not loaded that edit - restart Kea there (or `config-reload`) to run the file " ++
            "instead of the change, or tick the discard box beside Settle it now on the " ++
            "server's Write mode card to keep the change")
      else if onRecord ≠ .nothing then
        .ok (s!"{written} and the daemon last loaded its configuration at {loaded}; an earlier " ++
          s!"change on {host} is unresolved, so the daemon's load time proves nothing - settle " ++
          "it first (Settle it now on the server's Write mode card)")
      else if f.mtime.any fun mtime => loadedAt < mtime then
        .ok (s!"{written} and the daemon last loaded its configuration at {loaded}; the daemon " ++
          s!"has not loaded that edit{atPlace} - {wayOut}")
      else
        .ok (s!"{written}, before the daemon's last load at {loaded}, but the daemon does not " ++
          s!"run it{atPlace} - {wayOut}")

/-- The newest rendering of a server with an id. -/
def renderingOf (server : Server) (service : Service) : ApiM H (Option (Row H)) :=
  match server.id with
  | some sid => ask (.latestRendering sid service)
  | none => return none

/-- What a proof asks the record of pending changes, once. -/
def onRecord (server : Server) (service : Service) : ApiM H OnRecord :=
  match server.id with
  | none => return .nothing
  | some sid =>
    (ask (.pending sid service) >>= fun row =>
      pure (if row.isSome then OnRecord.change else .nothing)).handle fun
        | .storeUnreadable => .done .unreadable
        | e => .raise e

/-- What the daemon runs, when it loaded a configuration after the file was written and no change
is on record. -/
def liveOnceLoaded (server : Server) (service : Service) (f : FileRead H) (r : OnRecord) :
    ApiM H (Option Cfg) :=
  if (f.mtime.any fun mtime => f.loadedAt.any fun loadedAt => mtime ≤ loadedAt) ∧ r = .nothing then
    do
      let got ← get server service
      return got.toOption.map Prod.fst
  else return none

/-- The place where the file and the daemon differ, best effort: no exception gets out. -/
def differingPlace (server : Server) (service : Service) (f : FileRead H) (live : Option Cfg) :
    ApiM H String :=
  (readLive >>= fun live => match live with
    | some live => ask (.comparePlace server service f.cfg live)
    | none => return "").handle fun _ => .done ""
where
  /-- What the daemon runs, read now when it was not read before. -/
  readLive : ApiM H (Option Cfg) :=
    match live with
    | some live => return some live
    | none => do
      let got ← get server service
      return got.toOption.map Prod.fst

/-- The last part of `file_proof`: the daemon has loaded the file, or nothing proves it. -/
def proofByLoad (server : Server) (service : Service) (planned : Option H) (f : FileRead H) :
    ApiM H (Proof H) := do
  let record ← onRecord server service
  let live ← liveOnceLoaded server service f record
  if live.any fun live => fileInDaemon (some f.cfg) (some live) service then
    return f.proof true .loaded "" ""
  let place ← differingPlace server service f live
  let why ← Prog.ofExcept (f.why (hostOf server) place planned.isSome record)
  return f.proof false .nothing place why

section Proof

variable [DecidableEq H]

/-- The part of `file_proof` after the file was read: it is Jen's own rendering, the one that the Plan
proved, or one that the daemon has loaded; the first that holds decides. -/
def proofOf (server : Server) (service : Service) (planned : Option H) (f : FileRead H) :
    ApiM H (Proof H) := do
  let rendering ← renderingOf server service
  if rendering.any fun row => row.sha256 = some f.sha then
    return f.proof true .rendering "" ""
  if planned = some f.sha then return f.proof true .planned "" ""
  proofByLoad server service planned f

/-- `file_proof`: whether the file on the host is proved. -/
def fileProof (server : Server) (service : Service) (planned : Option H) (capture : Bool) :
    ApiM H (Proof H) := do
  if !server.hasSsh ∨ serviceKey service = none then return { ok := true, how := .noFile }
  let read ← ask (.readConfigProof server service capture)
  match read with
  | none =>
    let host := hostOf server
    return { ok := false, how := .unreadable,
             why := s!"the file on {host} could not be read, so a write cannot be proved " ++
               "against it (check the SSH connection)" }
  | some f => proofOf server service planned f

/-- `_ask_the_file`: the refusal of a write over the file, or the proof that lets it go. `discard`
is the one way past a file that was read and that nothing proves. -/
def askTheFile (server : Server) (service : Service) (planned : Option H) (discard : Bool) :
    ApiM H (Except String (Proof H)) := do
  let proof ← fileProof server service planned true
  if proof.ok ∨ (discard ∧ proof.how = .nothing) then return .ok proof
  return .error proof.why

end Proof

/-! ## Writing the file -/

/-- What `_send_write` answers: the last reply, whether it is Kea's yes, and whether an earlier
attempt got no answer. -/
structure Sent (H : Type) where
  reply : Option (Reply H)
  ok : Bool
  /-- An earlier attempt may have written the file. -/
  maybe : Bool

/-- The end of `_send_write`. -/
def Sent.of (reply : Option (Reply H)) (silent : Bool) : Sent H :=
  { reply := reply, ok := reply.any Reply.isOk, maybe := silent && reply.all Reply.answered }

/-- `_send_write`: `config-write`, again as long as no answer came. `silent` is whether an attempt
got none so far. -/
def sendWrite (server : Server) (service : Service) :
    ℕ → Option (Reply H) → Bool → ApiM H (Sent H)
  | 0, reply, silent => return .of reply silent
  | attempts + 1, _, silent => do
    let reply ← ask (.cmd server service .configWrite)
    if reply.isOk ∨ reply.answered then return .of (some reply) silent
    sendWrite server service attempts (some reply) true

/-- The result of a call of the module. -/
structure ApiResult (H : Type) where
  ok : Bool
  code : String
  detail : String := ""
  sha256 : Option H := none
  /-- The daemon may be in a state that Jen cannot name. -/
  needsHands : Bool := false
  beforeHash : Option H := none
  afterHash : Option H := none
  note : String := ""
  deriving DecidableEq

/-- The text of the reply of `_send_write`. -/
def Sent.text (sent : Sent H) : String := (sent.reply.map Reply.text).getD ""

/-- `write_file`: `config-write` of what runs, over a file that is proved. -/
def writeFile [DecidableEq H] (server : Server) (service : Service) (planned : Option H)
    (discard : Bool) : ApiM H (ApiResult H) := do
  if serviceKey service = none then
    return { ok := false, code := "noservice",
             detail := s!"{service} is not configured over the API" }
  let asked ← askTheFile server service planned discard
  match asked with
  | .error why => return { ok := false, code := "unloaded-edit", detail := why }
  | .ok _ =>
    let sent ← sendWrite server service 1 none false
    if sent.ok then return { ok := true, code := "ok" }
    if !sent.reply.all Reply.answered then
      return { ok := false, code := "noanswer", detail := sent.text }
    return { ok := false, code := "write-failed",
             detail := orElse sent.text "config-write was refused" }

/-- A digest that stands for a file whose host says no raw digest (`_CANONICAL_SENTINEL_PREFIX`). -/
def isSentinel [ToString H] (sha : H) : Bool :=
  "canonical:".toList.isPrefixOf (toString sha).toList

/-- The row of a file that Kea wrote. -/
def renderingEntry (sid : ℤ) (service : Service) (summary : String) (cfg : Cfg) (raw : H) :
    Entry H :=
  { serverId := sid, service := service, sha256 := some raw, hashKind := .raw,
    config := some (.obj cfg), summary := summary, source := .rendering }

/-- That row is recorded, unless the host says no raw digest. -/
def recordRendering [ToString H] (sid : ℤ) (service : Service) (summary : String)
    (file : Option (Cfg × H)) : ApiM H Bool :=
  match file with
  | none => return false
  | some (cfg, raw) =>
    if isSentinel raw then return false
    else do
      let row ← ask (.record (renderingEntry sid service summary cfg raw))
      return row.isSome

/-- `record_rendering_after_write`: the file as the caller read it, or as it is read now. -/
def recordRenderingAfterWrite [ToString H] (server : Server) (service : Service)
    (summary : String) (file : Option (Cfg × H)) : ApiM H Bool :=
  match server.id with
  | none => return false
  | some sid =>
    if !server.hasSsh then return false
    else match file with
      | some file => recordRendering sid service summary (some file)
      | none => do
        let file ← ask (.readConfigVersioned server service)
        recordRendering sid service summary file

/-- `RENDERING_NOT_RECORDED`. -/
def renderingNotRecorded (server : Server) : String :=
  s!"the file Kea wrote on {server.label} could not be recorded in Config history, so the next " ++
    "change to it will ask you to restart Kea there (or reload its configuration) first"

end JenKea.Api
