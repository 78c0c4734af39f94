import JenKea.Problems.Log

/-!
# The Problems sweep

One pass of `services/client_problems.py` over one server's log, in one generation of its rows: what is new in
the tail is collected and added to the rows, the alerts that are due are marked attempted and the watermark is
moved, all in one transaction; then the alerts are sent, each delivery is recorded, and what did not recur is
resolved. Which alerts a send delivers and which of the statements fail is given.
-/

namespace JenKea.Problems

abbrev TAIL_LINES : ℕ := 1000
abbrev THRESHOLD_WINDOW : ℤ := hour
abbrev ALERT_EVERY : ℤ := 24 * hour
abbrev ALERT_RETRY_EVERY : ℤ := 30 * minute
abbrev QUALIFICATION_KEEP : ℤ := 24 * hour
abbrev RESOLVE_AFTER : ℤ := 24 * hour
abbrev MAX_NEW_KEYS_PER_SWEEP : ℕ := 200

/-- What a row is about: the kind, the client, the address and the subnet. -/
structure RowKey where
  kind : Kind
  mac : String
  ip : String
  subnet : Option ℕ
  deriving DecidableEq

/-- What an alert is about: the kind, the client and the subnet. -/
structure Key where
  kind : Kind
  mac : String
  subnet : Option ℕ
  deriving DecidableEq

def RowKey.key (k : RowKey) : Key := ⟨k.kind, k.mac, k.subnet⟩

/-! ## What is new -/

/-- An event with its time in UTC. -/
structure Shifted extends Event where
  uts : ℤ
  deriving DecidableEq

/-- `shift_events`. -/
def shiftEvents (events : List Event) (offset now : ℤ) : List Shifted :=
  events.map fun e => ⟨e, min (e.ts - offset) now⟩

/-- What a sweep adds to a row. -/
structure Group where
  new : ℕ
  firstTs : ℤ
  lastTs : ℤ
  detail : String
  deriving DecidableEq

variable (subnetOf : String → Option ℕ → Option ℕ)

/-- The row that an event belongs to. -/
def Shifted.rowKey (e : Shifted) : RowKey := ⟨e.kind, e.mac, e.ip, subnetOf e.ip e.subnetId⟩

/-- One event is added to its group. -/
def addToGroup (groups : Map RowKey Group) (e : Shifted) : Map RowKey Group :=
  let g := (groups.get (e.rowKey subnetOf)).getD ⟨0, e.uts, e.uts, e.detail⟩
  groups.put (e.rowKey subnetOf)
    { new := g.new + 1
      firstTs := min g.firstTs e.uts
      lastTs := if g.lastTs ≤ e.uts then e.uts else g.lastTs
      detail := if g.lastTs ≤ e.uts then e.detail else g.detail }

/-- Whether an event is newer than the watermark. -/
def isNew (watermark : Option ℤ) (e : Shifted) : Bool :=
  match watermark with
  | some w => w < e.ts
  | none => true

/-- The groups of `collect`. -/
def collectGroups (events : List Shifted) (watermark : Option ℤ) : Map RowKey Group :=
  (events.filter (isNew watermark)).foldl (addToGroup subnetOf) .empty

/-- The counts of `collect`, of the events of the last hour. -/
def collectRecent (events : List Shifted) (now : ℤ) : Map Key ℕ :=
  (events.filter fun e => now - THRESHOLD_WINDOW ≤ e.uts).foldl
    (fun recent e => recent.put (e.rowKey subnetOf).key ((recent.get (e.rowKey subnetOf).key).getD 0 + 1)) .empty

/-- The watermark of `collect`, which does not move backwards. -/
def collectWatermark (events : List Shifted) (watermark : Option ℤ) : Option ℤ :=
  match (events.map fun e => e.ts).max?, watermark with
  | none, w => w
  | some newest, none => some newest
  | some newest, some w => some (if newest > w then newest else w)

/-! ## The rows -/

/-- A row of `client_problems`, of one server and one generation. -/
structure Row where
  firstSeen : ℤ
  lastSeen : ℤ
  count : ℕ
  detail : String
  alertedAt : Option ℤ := none
  attemptedAt : Option ℤ := none
  qualifiedAt : Option ℤ := none
  qualifiedCount : Option ℕ := none
  resolvedAt : Option ℤ := none
  deriving DecidableEq

abbrev Table : Type := Map RowKey Row

/-- What a `DATETIME` column makes of a moment: it is rounded to whole seconds. -/
def datetime (t : ℤ) : ℤ := (t + 500000) / second * second

/-- `_cap_new_keys`: the groups to record. -/
def capNewKeys (t : Table) (groups : Map RowKey Group) : Map RowKey Group :=
  let new := groups.entries.filter fun x => x.1 ∉ t.keys
  if new.length ≤ MAX_NEW_KEYS_PER_SWEEP then groups
  else
    let dropped := ((new.insertionSort fun x y => y.2.lastTs ≤ x.2.lastTs).drop MAX_NEW_KEYS_PER_SWEEP).map Prod.fst
    dropped.foldl Map.erase groups

/-- `_UPSERT_LOG`, and `_UPSERT_LOG_BASELINE` on a first sweep. -/
def upsertRow (baseline : Bool) (old : Option Row) (g : Group) : Row :=
  match old with
  | none =>
    { firstSeen := datetime g.firstTs, lastSeen := datetime g.lastTs, count := g.new, detail := g.detail }
  | some r =>
    if r.resolvedAt = none then
      { r with
        count := if baseline then max r.count g.new else r.count + g.new
        detail := g.detail
        lastSeen := max r.lastSeen (datetime g.lastTs) }
    else
      { firstSeen := datetime g.firstTs
        lastSeen := max r.lastSeen (datetime g.lastTs)
        count := g.new
        detail := g.detail }

def upsert (baseline : Bool) (t : Table) (x : RowKey × Group) : Table :=
  t.put x.1 (upsertRow baseline (t.get x.1) x.2)

/-- A row that is not resolved, of this kind, client and subnet. -/
def IsOpen (key : Key) (x : RowKey × Row) : Prop := x.1.key = key ∧ x.2.resolvedAt = none

instance (key : Key) (x : RowKey × Row) : Decidable (IsOpen key x) := inferInstanceAs (Decidable (_ ∧ _))

/-- The rows of a kind, a client and a subnet that are not resolved. -/
def openRows (t : Table) (key : Key) : List (RowKey × Row) := t.entries.filter fun x => IsOpen key x

/-- An update of these rows. -/
def updateOpen (t : Table) (key : Key) (f : Row → Row) : Table :=
  t.mapEntries fun k r => if IsOpen key (k, r) then f r else r

/-! ## The alerts -/

/-- Whether less than a while has passed since a moment, if there was one. -/
def within (now since : ℤ) (moment : Option ℤ) : Bool :=
  match moment with
  | some m => now - m < since
  | none => false

/-- The later of a qualification and a row's, the first of two that are as late. -/
def laterQualified (best : Option (ℤ × Option ℕ)) (x : RowKey × Row) : Option (ℤ × Option ℕ) :=
  match x.2.qualifiedAt, best with
  | none, best => best
  | some q, none => some (q, x.2.qualifiedCount)
  | some q, some b => if b.1 < q then some (q, x.2.qualifiedCount) else some b

/-- The latest qualification of some rows, and its count. -/
def latestQualified (rows : List (RowKey × Row)) : Option (ℤ × Option ℕ) := rows.foldl laterQualified none

/-- An alert that is to be sent. -/
structure Due where
  key : Key
  ip : String
  count : Option ℕ
  qualifiedAt : ℤ
  deriving DecidableEq

/-- A qualification that was not delivered in a day is dropped. -/
def dropQualification (now : ℤ) (t : Table) (key : Key) : Table :=
  match latestQualified (openRows t key) with
  | some (q, _) =>
    if QUALIFICATION_KEEP ≤ now - q then
      updateOpen t key fun r => { r with qualifiedAt := none, qualifiedCount := none }
    else t
  | none => t

/-- The rows as a query for them gives them, the newest first. -/
def newestFirst (rows : List (RowKey × Row)) : List (RowKey × Row) :=
  rows.insertionSort fun x y => y.2.lastSeen ≤ x.2.lastSeen

/-- Whether an alert was attempted a short while ago. A row that delivered one does not count. -/
def triedLately (now : ℤ) (rows : List (RowKey × Row)) : Bool :=
  rows.any fun x => x.2.alertedAt = none ∧ within now ALERT_RETRY_EVERY x.2.attemptedAt

/-- The decision about one kind, client and subnet. -/
def decideKey (now : ℤ) (firstSweep : Bool) (threshold : ℕ) (recent : Map Key ℕ) (t : Table) (key : Key) :
    Table × Option Due :=
  let rows := newestFirst (openRows t key)
  if rows = [] ∨ rows.any fun x => within now ALERT_EVERY x.2.alertedAt then (t, none)
  else
    let t := dropQualification now t key
    let ip := ((rows.map fun x => x.1.ip).headD "")
    match latestQualified (newestFirst (openRows t key)) with
    | some (q, count) => (t, if triedLately now rows then none else some ⟨key, ip, count, q⟩)
    | none =>
      let current := (recent.get key).getD 0
      if firstSweep ∨ current < threshold then (t, none)
      else
        (updateOpen t key fun r => { r with qualifiedAt := some now, qualifiedCount := some current },
          if triedLately now rows then none else some ⟨key, ip, some current, now⟩)

/-- The decisions about several, in turn. -/
def decideKeys (now : ℤ) (firstSweep : Bool) (threshold : ℕ) (recent : Map Key ℕ) :
    Table → List Key → Table × List Due
  | t, [] => (t, [])
  | t, key :: keys =>
    let (t, due) := decideKey now firstSweep threshold recent t key
    let (t, dues) := decideKeys now firstSweep threshold recent t keys
    (t, due.toList ++ dues)

/-- Whether a row waits for an alert to be delivered. -/
def Waits (r : Row) : Prop :=
  r.resolvedAt = none ∧ r.alertedAt = none ∧ (r.attemptedAt ≠ none ∨ r.qualifiedAt ≠ none)

instance (r : Row) : Decidable (Waits r) := inferInstanceAs (Decidable (_ ∧ _ ∧ _))

/-- What is considered: what has something new, and what waits for an alert. -/
def consideredKeys (t : Table) (groups : Map RowKey Group) : List Key :=
  (groups.keys.map RowKey.key ++ (t.entries.filter fun x => Waits x.2).map fun x => x.1.key).dedup

/-- Every alert that is due is marked attempted. -/
def markAttempted (now : ℤ) (t : Table) (dues : List Due) : Table :=
  dues.foldl (fun t due => updateOpen t due.key fun r => { r with attemptedAt := some now }) t

/-- A delivered alert is recorded, and its qualification is over. -/
def recordDelivered (now : ℤ) (t : Table) (key : Key) : Table :=
  updateOpen t key fun r => { r with alertedAt := some now, qualifiedAt := none, qualifiedCount := none }

/-- What did not recur for a day is resolved. -/
def resolveRows (now : ℤ) (t : Table) : Table :=
  t.mapEntries fun _ r =>
    if r.resolvedAt = none ∧ r.lastSeen < now - RESOLVE_AFTER then { r with resolvedAt := some now } else r

/-! ## The sweep -/

/-- The rows of a server in its generation, and its watermark. -/
structure State where
  table : Table := .empty
  watermark : Option ℤ := none
  deriving DecidableEq

/-- What a sweep meets: the time and the tail, the offset of the log's clock, where addresses are, and what
comes of each alert and of the database. -/
structure Input where
  now : ℤ
  tail : List (ℕ × Line)
  offset : ℤ := 0
  subnetOf : String → Option ℕ → Option ℕ := fun _ selected => selected
  threshold : ℕ := 3
  sends : Key → Bool := fun _ => true
  commits : Bool := true
  records : Key → Bool := fun _ => true
  resolves : Bool := true

/-- The problems of the tail that are younger than a day. -/
def Input.events (i : Input) : List Shifted :=
  (shiftEvents (problemEvents i.tail) i.offset i.now).filter fun e => i.now - RESOLVE_AFTER ≤ e.uts

/-- The groups that are recorded. -/
def recorded (s : State) (i : Input) : Map RowKey Group :=
  capNewKeys s.table (collectGroups i.subnetOf i.events s.watermark)

/-- The watermark after a sweep. The first takes it from everything it saw. -/
def nextWatermark (s : State) (i : Input) : Option ℤ :=
  let new := collectWatermark i.events s.watermark
  if s.watermark = none then
    ((problemEvents i.tail).map (fun e => e.ts) ++ (newestTs i.tail).toList ++ new.toList).max?
  else new

/-- The rows after the upserts. -/
def upserted (s : State) (i : Input) : Table :=
  (recorded s i).entries.foldl (upsert s.watermark.isNone) s.table

/-- The rows after the decisions, and the alerts that are due. -/
def decided (s : State) (i : Input) : Table × List Due :=
  decideKeys i.now s.watermark.isNone i.threshold (collectRecent i.subnetOf i.events i.now) (upserted s i)
    (consideredKeys (upserted s i) (recorded s i))

/-- The transaction of a sweep, up to the marks of the alerts that are due. -/
def transact (s : State) (i : Input) : State :=
  ⟨markAttempted i.now (decided s i).1 (decided s i).2, nextWatermark s i⟩

/-- The sends, and the record of what was delivered. -/
def send (i : Input) (t : Table) (dues : List Due) : Table :=
  dues.foldl (fun t due => if i.sends due.key ∧ i.records due.key then recordDelivered i.now t due.key else t) t

/-- The rows when the sweep comes to resolve: the transaction is there or it is not. -/
def scan (s : State) (i : Input) : State × List Due :=
  if i.commits then
    ({ transact s i with table := send i (transact s i).table (decided s i).2 }, (decided s i).2)
  else (s, [])

/-- `sweep`, for one server. -/
def sweep (s : State) (i : Input) : State :=
  let s' := (scan s i).1
  if i.resolves then { s' with table := resolveRows i.now s'.table } else s'

/-- The state after sweeps. -/
def run (s : State) (inputs : List Input) : State := inputs.foldl sweep s

/-- A sweep of a run: the state it found, and what it met. -/
structure Pass where
  state : State
  input : Input

abbrev Pass.now (p : Pass) : ℤ := p.input.now

/-- The sweeps of a run. -/
def passes : State → List Input → List Pass
  | _, [] => []
  | s, i :: inputs => ⟨s, i⟩ :: passes (sweep s i) inputs

theorem passes_append (s : State) (inputs more : List Input) :
    passes s (inputs ++ more) = passes s inputs ++ passes (run s inputs) more := by
  induction inputs generalizing s with
  | nil => rfl
  | cons i inputs ih =>
    rw [List.cons_append, passes, passes, ih, List.cons_append]
    rfl

end JenKea.Problems
