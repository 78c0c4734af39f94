import Mathlib.Data.List.Basic
import Mathlib.Data.List.Nodup
import JenKea.Lib.Json
import JenKea.Server

/-!
# The store of revisions

The table `kea_config_revisions`, as `jen/services/config_revisions.py` writes and reads it. A row
holds a configuration of one server and service: one that the server had, or, as `pending`, one that
a change is about to send. `H` is the type of the digests: Kea's own digest of a configuration that
runs, or the digest of a file.

A `Store` lists the rows newest first and carries what its key promises: the ids descend, and the
next id is above them all.
-/

namespace JenKea

/-- Where a revision comes from. -/
inductive Source where
  | jen
  | external
  | restore
  | baseline
  | rollback
  | switch
  | pending
  | damaged
  | rendering
  deriving DecidableEq, Repr

/-- The name of a source. -/
def Source.toText : Source → String
  | .jen => "jen"
  | .external => "external"
  | .restore => "restore"
  | .baseline => "baseline"
  | .rollback => "rollback"
  | .switch => "switch"
  | .pending => "pending"
  | .damaged => "damaged"
  | .rendering => "rendering"

/-- What the digest of a revision is of. -/
inductive HashKind where
  | raw
  | canonical
  | legacy
  | kea
  deriving DecidableEq, Repr

/-- The time of a row: in seconds, and as the source prints it. -/
structure Stamp where
  seconds : ℤ
  text : String
  deriving DecidableEq, Repr

/-- What is inserted: a revision without its id. -/
structure Entry (H : Type) where
  serverId : ℤ
  service : Service
  /-- The digest; `none` is the empty text. -/
  sha256 : Option H
  hashKind : HashKind
  /-- The decrypted body; `none` where it is not JSON. -/
  config : Option Json
  summary : String
  source : Source
  /-- The digest of the file that the Plan proved. -/
  fileSha256 : Option H := none
  /-- When the row was written; `none` where the time cannot be read. -/
  createdAt : Option Stamp := none
  deriving DecidableEq

/-- A revision. -/
structure Row (H : Type) extends Entry H where
  id : ℕ
  deriving DecidableEq

variable {H : Type}

/-- The row is one of a server and a service. -/
def Entry.isOf (r : Entry H) (serverId : ℤ) (service : Service) : Bool :=
  r.serverId == serverId && r.service == service

/-- A row that is no longer the record of a change the daemon may be running:
`source NOT IN ('pending', 'damaged')`. -/
def Entry.settled (r : Entry H) : Bool := r.source != .pending && r.source != .damaged

/-- A row of the files that Kea itself wrote. -/
def Entry.isRendering (r : Entry H) : Bool := r.hashKind == .raw && r.source == .rendering

/-- The rows of the table, newest first. -/
structure Store (H : Type) where
  rows : List (Row H)
  nextId : ℕ
  sorted : rows.Pairwise fun a b => b.id < a.id
  fresh : ∀ r ∈ rows, r.id < nextId

namespace Store

/-- The empty table. -/
def empty : Store H := ⟨[], 1, .nil, by simp⟩

/-- The rows that `p` holds of. -/
def keepIf (s : Store H) (p : Row H → Bool) : Store H :=
  ⟨s.rows.filter p, s.nextId, s.sorted.filter p, fun r hr => s.fresh r (List.mem_filter.mp hr).1⟩

/-- A new row. -/
def add (s : Store H) (e : Entry H) : Store H where
  rows := ⟨e, s.nextId⟩ :: s.rows
  nextId := s.nextId + 1
  sorted := List.pairwise_cons.mpr ⟨fun r hr => s.fresh r hr, s.sorted⟩
  fresh := by
    intro r hr
    rcases List.mem_cons.mp hr with rfl | hr
    · exact Nat.lt_succ_self _
    · exact Nat.lt_succ_of_lt (s.fresh r hr)

/-- `f` on what the rows that `p` holds of say, their ids as they are. -/
def update (s : Store H) (p : Row H → Bool) (f : Entry H → Entry H) : Store H where
  rows := s.rows.map fun r => if p r then ⟨f r.toEntry, r.id⟩ else r
  nextId := s.nextId
  sorted := by
    refine List.pairwise_map.mpr (s.sorted.imp fun {a b} h => ?_)
    split_ifs <;> exact h
  fresh := by
    intro r hr
    obtain ⟨r', hr', rfl⟩ := List.mem_map.mp hr
    have := s.fresh r' hr'
    split_ifs <;> exact this

/-- The newest row that `p` holds of: `ORDER BY id DESC LIMIT 1`. -/
def newest (s : Store H) (p : Row H → Bool) : Option (Row H) := s.rows.find? p

/-! ## The statements of the module -/

section Statements

variable [DecidableEq H] (s : Store H) (serverId : ℤ) (service : Service)

/-- `pending`: the record of the change in flight. -/
def pending : Option (Row H) :=
  s.newest fun r => r.isOf serverId service && r.source == .pending

/-- `latest_rendering`: the newest row of a file that Kea wrote. -/
def latestRendering : Option (Row H) :=
  s.newest fun r => r.isOf serverId service && r.isRendering

/-- `prune`: all but the newest `keep` settled rows of a server and a service go. A row in flight is
not counted and never goes, and neither does the newest rendering, nor a row with the digest of a
row in flight. -/
def prune (keep : ℕ) : Store H :=
  let mine := s.rows.filter fun r => r.isOf serverId service
  match (mine.filter fun r => r.settled)[max 1 keep - 1]? with
  | none => s
  | some oldest =>
    let rendering := (s.latestRendering serverId service).map Row.id
    let inFlight := (mine.filter fun r => !r.settled).map fun r => r.sha256
    s.keepIf fun r => !(r.isOf serverId service && r.id < oldest.id && some r.id != rendering &&
      r.settled && !inFlight.contains r.sha256)

/-- The `INSERT` of `record`, which refuses a second pending row of a server and a service. -/
def insert (e : Entry H) : Option (Store H) :=
  if e.source = .pending ∧ (s.pending e.serverId e.service).isSome then none
  else some (s.add { e with summary := String.ofList (e.summary.toList.take 255) })

/-- `finish`: the row becomes the record of what the daemon runs. -/
def finish (id : ℕ) (source : Source) (sha256 : Option H) (cfg : Option Json) : Store H :=
  s.update (fun r => r.id == id) fun r =>
    { r with source := source, sha256 := sha256, config := cfg.or r.config }

/-- `mark_damaged`: a pending row is kept, and blocks no more. -/
def markDamaged (id : ℕ) : Store H :=
  s.update (fun r => r.id == id && r.source == .pending) fun r => { r with source := .damaged }

/-- `discard`: the row goes. -/
def discard (id : ℕ) : Store H := s.keepIf fun r => r.id != id

/-- `discard_pending`: every pending row of a server and a service goes. -/
def discardPending : Store H :=
  s.keepIf fun r => !(r.isOf serverId service && r.source == .pending)

end Statements

/-! ## What stays -/

section Lemmas

variable {s : Store H} {r : Row H} {serverId : ℤ} {service : Service}

@[simp] theorem mem_keepIf {p : Row H → Bool} : r ∈ (s.keepIf p).rows ↔ r ∈ s.rows ∧ p r :=
  List.mem_filter

@[simp] theorem keepIf_nextId {p : Row H → Bool} : (s.keepIf p).nextId = s.nextId := rfl

@[simp] theorem mem_add {e : Entry H} : r ∈ (s.add e).rows ↔ r = ⟨e, s.nextId⟩ ∨ r ∈ s.rows :=
  List.mem_cons

@[simp] theorem add_nextId {e : Entry H} : (s.add e).nextId = s.nextId + 1 := rfl

@[simp] theorem mem_update {p : Row H → Bool} {f : Entry H → Entry H} :
    r ∈ (s.update p f).rows ↔
      ∃ r' ∈ s.rows, (if p r' then ⟨f r'.toEntry, r'.id⟩ else r') = r :=
  List.mem_map

@[simp] theorem update_nextId {p : Row H → Bool} {f : Entry H → Entry H} :
    (s.update p f).nextId = s.nextId := rfl

theorem newest_mem {p : Row H → Bool} (h : s.newest p = some r) : r ∈ s.rows ∧ p r :=
  ⟨List.mem_of_find?_eq_some h, List.find?_some h⟩

/-- A row is known by its id. -/
theorem eq_of_id {r' : Row H} (hr : r ∈ s.rows) (hr' : r' ∈ s.rows) (h : r.id = r'.id) :
    r = r' := by
  have hne : s.rows.Pairwise fun a b => a.id ≠ b.id := s.sorted.imp fun hab => by omega
  have hnodup : (s.rows.map Row.id).Nodup := List.pairwise_map.mpr hne
  exact List.inj_on_of_nodup_map hnodup hr hr' h

theorem insert_eq {e : Entry H} {s' : Store H} (h : s.insert e = some s') :
    s' = s.add { e with summary := String.ofList (e.summary.toList.take 255) } := by
  unfold insert at h
  split_ifs at h
  exact (Option.some.inj h).symm

/-- A row that is in flight after a statement on one row was there before it. -/
theorem of_mem_update {p : Row H → Bool} {f : Entry H → Entry H}
    (hf : ∀ e, (f e).source ≠ .pending) (h : r ∈ (s.update p f).rows)
    (hr : r.source = .pending) : r ∈ s.rows := by
  obtain ⟨r', hr', rfl⟩ := mem_update.mp h
  split_ifs at hr ⊢
  · exact absurd hr (hf _)
  · exact hr'

section Statements

variable [DecidableEq H]

theorem prune_subset {keep : ℕ} (h : r ∈ (s.prune serverId service keep).rows) : r ∈ s.rows := by
  unfold prune at h
  dsimp only at h
  split at h
  · exact h
  · exact (mem_keepIf.mp h).1

@[simp] theorem prune_nextId {keep : ℕ} : (s.prune serverId service keep).nextId = s.nextId := by
  unfold prune
  dsimp only
  split <;> rfl

/-- A row in flight is never pruned. -/
theorem mem_prune {keep : ℕ} (h : r ∈ s.rows) (hr : r.settled = false) :
    r ∈ (s.prune serverId service keep).rows := by
  unfold prune
  dsimp only
  split
  · exact h
  · exact mem_keepIf.mpr ⟨h, by simp [hr]⟩

/-- The newest row is never pruned. -/
theorem mem_prune_of_newest {keep : ℕ} (h : r ∈ s.rows) (hmax : ∀ r' ∈ s.rows, r'.id ≤ r.id) :
    r ∈ (s.prune serverId service keep).rows := by
  unfold prune
  dsimp only
  split
  · exact h
  · next oldest hold =>
    have holdest : oldest ∈ s.rows :=
      (List.mem_filter.mp (List.mem_filter.mp (List.mem_of_getElem? hold)).1).1
    have hlt : ¬ r.id < oldest.id := not_lt.mpr (hmax oldest holdest)
    exact mem_keepIf.mpr ⟨h, by simp [hlt]⟩

end Statements

end Lemmas

end Store

end JenKea
