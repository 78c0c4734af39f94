import JenKea.Api.Apply

/-!
# The daemon, its file, and the store

A world for the programs of `kea_api_config.py`: what the daemon of one server runs for DHCPv4, the
file on its host, and the store of revisions. `Fate` is what the environment decides at one call: a
command is executed and answered, executed with its reply lost, not executed and not answered, or
refused; a read fails; a write to the store fails, or is done and reported as failed; a gate refuses;
an operation raises. The daemon answers the truth, and no one else changes it.
-/

namespace JenKea.Api

/-- A Kea daemon: what it runs once it took a section, the digest of what it runs, and the digest of
the file that it writes. -/
structure Kea (H : Type) where
  /-- What runs after `config-set` of a section: all that it says, and Kea's own defaults. -/
  render : Json → Cfg
  /-- The digest of what runs. -/
  digest : Json → H
  /-- The digest of the file that `config-write` writes. -/
  fileDigest : Cfg → H
  /-- The digest tells configurations apart. -/
  digest_inj : ∀ {v w}, digest v = digest w → Json.Same v w
  /-- The daemon carries what it took. -/
  carries_render : ∀ {fields}, (Json.obj fields).WF →
    carries (.obj (render (.obj fields))) (.obj fields) = true

/-- The digest that tells everything apart, since it is the canonical value itself. -/
structure ExactDigest where
  value : Json
  deriving DecidableEq

instance : ToString ExactDigest := ⟨fun _ => "exact"⟩

/-- A daemon that adds no default, with that digest. -/
def Kea.exact : Kea ExactDigest where
  render
    | .obj fields => fields
    | _ => []
  digest v := ⟨v.canonical⟩
  fileDigest fields := ⟨(Json.obj fields).canonical⟩
  digest_inj h := congrArg ExactDigest.value h
  carries_render h := carries_self h

/-- A daemon that writes `defaults` out after what it was given, with that digest. -/
def Kea.adding (defaults : Cfg) : Kea ExactDigest where
  render
    | .obj fields => fields ++ defaults
    | _ => defaults
  digest v := ⟨v.canonical⟩
  fileDigest fields := ⟨(Json.obj fields).canonical⟩
  digest_inj h := congrArg ExactDigest.value h
  carries_render h := carries_append h defaults

/-- A mark of what happened in a run. -/
inductive Mark where
  /-- A `config-set` of a section was sent. -/
  | sent (sec : Json)
  /-- The daemon executed a `config-set`. -/
  | set (sec : Json)
  /-- The daemon executed a `config-write`. -/
  | wrote
  /-- A pending row was recorded. -/
  | recorded (id : ℕ)
  deriving DecidableEq

/-- The daemon, its host, and the store. -/
structure World (H : Type) where
  /-- The section that the daemon runs. -/
  running : Cfg
  /-- The file on the host, with its digest. -/
  file : Option (Cfg × H)
  store : Store H
  log : List Mark := []

/-- What happens to a command. -/
inductive Behaviour where
  | answered
  | lost
  | silent
  | refused
  deriving DecidableEq, Repr

/-- Whether the daemon executes the command. -/
def Behaviour.executed : Behaviour → Bool
  | .answered | .lost => true
  | .silent | .refused => false

/-- What happens to a write to the store. -/
inductive Stored where
  | done
  | failed
  /-- Done, and reported as failed. -/
  | unseen
  deriving DecidableEq, Repr

/-- Whether the write is done. -/
def Stored.happens : Stored → Bool
  | .done | .unseen => true
  | .failed => false

/-- A revision that a capturing read of the file records: a baseline, or a change from outside. -/
structure Capture (H : Type) where
  external : Bool
  sha256 : Option H
  hashKind : HashKind
  summary : String

/-- What the environment decides at one call. -/
structure Fate (H : Type) where
  /-- The operation raises. -/
  raises : Option Exc := none
  /-- The sentence of a gate, the place of a difference, or the text of a reply. -/
  text : String := ""
  behaviour : Behaviour := .answered
  /-- A reply carries the digest, and the section. -/
  withHash : Bool := true
  withSection : Bool := true
  /-- The result of a refusal, unless it is 0. -/
  code : ℤ := 1
  /-- The host's file can be read. -/
  fileReadable : Bool := true
  /-- The times that the host says. -/
  times : Option Times := none
  /-- What a capturing read of the file records. -/
  capture : Option (Capture H) := none
  /-- The store can be read. -/
  storeReadable : Bool := true
  stored : Stored := .done
  /-- The rows to keep, unless the prune fails. -/
  keep : Option ℕ := some 50
  /-- Jen's clock, and the time of a new row. -/
  now : ℤ := 0
  stamp : Option Stamp := none

instance {H : Type} : Inhabited (Fate H) := ⟨{}⟩

variable {H : Type}

/-- The section of the service as the daemon reports it. -/
def reported (service : Service) (running : Cfg) : Cfg :=
  [((serviceKey service).getD "", .obj running)]

/-! ## What a command does -/

/-- The world after a command. -/
def Kea.after (kea : Kea H) (w : World H) (service : Service) (executed : Bool) :
    Command → World H
  | .configGet | .configHashGet => w
  | .configSet body =>
    let sec := (Json.lookup ((serviceKey service).getD "") body).getD (.obj [])
    if executed then
      { w with running := kea.render sec, log := w.log ++ [.sent sec, .set sec] }
    else { w with log := w.log ++ [.sent sec] }
  | .configWrite =>
    if executed then
      { w with file := some (reported service w.running, kea.fileDigest w.running),
               log := w.log ++ [.wrote] }
    else w

/-- The arguments of Kea's reply to a command that it executed. -/
def replyArgs (w : World H) (service : Service) (d : Fate H) : Command → Cfg
  | .configGet => if d.withSection then reported service w.running else []
  | _ => []

/-- The digest in the reply to a command that left the world `w`. -/
def Kea.replyHash (kea : Kea H) (w : World H) (d : Fate H) : Command → Option H
  | .configWrite => none
  | _ => if d.withHash then some (kea.digest (.obj w.running)) else none

/-- The reply to a command that left the world `w`. -/
def Kea.reply (kea : Kea H) (w : World H) (service : Service) (d : Fate H) (command : Command) :
    Reply H :=
  match d.behaviour with
  | .answered =>
    .kea 0 d.text (some (replyArgs w service d command)) (kea.replyHash w d command)
  | .lost | .silent => .transport d.text
  | .refused => .kea (if d.code = 0 then 1 else d.code) d.text none none

/-! ## What the store does -/

section Store

variable [DecidableEq H]

/-- The prune after an insert. -/
def Fate.prune (d : Fate H) (s : Store H) (serverId : ℤ) (service : Service) : Store H :=
  match d.keep with
  | some keep => s.prune serverId service keep
  | none => s

/-- `record`: the id of the new row, and the store. An insert that is reported as failed is not
followed by a prune. -/
def Fate.record (d : Fate H) (s : Store H) (e : Entry H) : Option ℕ × Store H :=
  match s.insert { e with createdAt := d.stamp } with
  | none => (none, s)
  | some s' =>
    match d.stored with
    | .done => (some s.nextId, d.prune s' e.serverId e.service)
    | .failed => (none, s)
    | .unseen => (none, s')

/-- Whether the store has a row. -/
def hasRow (s : Store H) (p : Row H → Bool) : Bool := (s.newest p).isSome

/-- A statement on one row: whether it reports a row, and the store. -/
def Fate.onRow (d : Fate H) (s s' : Store H) (p : Row H → Bool) : Bool × Store H :=
  (d.stored = .done ∧ hasRow s p, if d.stored.happens then s' else s)

/-- The row that a capturing read records. -/
def Capture.entry (c : Capture H) (serverId : ℤ) (service : Service) (cfg : Cfg) : Entry H :=
  { serverId := serverId, service := service, sha256 := c.sha256, hashKind := c.hashKind,
    config := some (.obj cfg), summary := c.summary,
    source := if c.external then .external else .baseline }

/-- The store after a capturing read. -/
def Fate.captured (d : Fate H) (s : Store H) (server : Server) (service : Service) (cfg : Cfg) :
    Store H :=
  match server.id, d.capture with
  | some sid, some c => (d.record s (c.entry sid service cfg)).2
  | _, _ => s

end Store

/-- The mark of a `record` that reports an id. -/
def recordMark (e : Entry H) (id : Option ℕ) : List Mark :=
  match id with
  | some id => if e.source = .pending then [.recorded id] else []
  | none => []

/-! ## What an operation does -/

section Host

variable [DecidableEq H]

/-- The answer of an operation that does not raise, and the world after it. -/
def Kea.does (kea : Kea H) (d : Fate H) (w : World H) :
    (o : ApiOp H) → Except Exc o.Result × World H
  | .guardKeaWrite .. | .restoreWindow .. | .probeGate .. | .comparePlace .. => (.ok d.text, w)
  | .refreshIfStale .. | .rememberRefusal .. => (.ok (), w)
  | .cmd _ service command =>
    let w' := kea.after w service d.behaviour.executed command
    (.ok (kea.reply w' service d command), w')
  | .readConfigProof server service capture =>
    match w.file with
    | some (cfg, sha) =>
      if d.fileReadable then
        (.ok (some ⟨cfg, sha, d.times⟩),
          if capture then { w with store := d.captured w.store server service cfg } else w)
      else (.ok none, w)
    | none => (.ok none, w)
  | .readConfigVersioned .. => (.ok (if d.fileReadable then w.file else none), w)
  | .utcNow => (.ok d.now, w)
  | .pending sid service =>
    (if d.storeReadable then .ok (w.store.pending sid service) else .error .storeUnreadable, w)
  | .latestRendering sid service =>
    (.ok (if d.storeReadable then w.store.latestRendering sid service else none), w)
  | .record e =>
    let r := d.record w.store e
    (.ok r.1, { w with store := r.2, log := w.log ++ recordMark e r.1 })
  | .finish id source sha256 cfg =>
    let r := d.onRow w.store (w.store.finish id source sha256 (some (.obj cfg)))
      fun r => r.id == id
    (.ok r.1, { w with store := r.2 })
  | .markDamaged id =>
    let r := d.onRow w.store (w.store.markDamaged id) fun r => r.id == id && r.source == .pending
    (.ok r.1, { w with store := r.2 })
  | .discard id =>
    let r := d.onRow w.store (w.store.discard id) fun r => r.id == id
    (.ok r.1, { w with store := r.2 })
  | .discardPending sid service =>
    (.ok (), if d.stored.happens then
      { w with store := w.store.discardPending sid service } else w)

/-- What the operations do: an operation that raises does nothing. -/
def Kea.host (kea : Kea H) : Handler (ApiI H) (Fate H) (World H) := fun o d w =>
  match d.raises with
  | some e => (.error e, w)
  | none => kea.does d w o

/-- Whatever the environment decides, as long as `A` holds of each decision: `J` holds after each
call of a program, and `Q` holds at its end. -/
abbrev Kea.Ensures {α : Type} (kea : Kea H) (A : Fate H → Prop) (J : World H → Prop)
    (p : ApiM H α) (Q : Except Exc α → World H → Prop) (w : World H) : Prop :=
  p.wp (Prog.under kea.host A) J Q w

end Host

end JenKea.Api
