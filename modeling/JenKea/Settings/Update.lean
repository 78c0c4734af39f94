import Mathlib.Data.Int.Notation
import Mathlib.Logic.Relation
import Mathlib.Data.List.Nodup
import Mathlib.Logic.Function.Basic

/-!
# Updates of one settings row

`update_global_setting` of `models/user.py`, as any number of calls interleave on one key. Each call makes the row in a
transaction of its own, reads it under its lock, writes what `mutate` makes of it, and commits; and `jen_db` commits
once more when its block ends. Every statement may raise, and what was not committed is then rolled back.

The row and its lock are the database's. `INSERT IGNORE` takes the lock where it makes the row; where the row is there
it waits for whoever holds the lock and takes none of its own, which lets calls interleave in more ways than a shared
lock would.
-/

namespace JenKea.Settings

/-- What is raised: an `Exception`, by its first argument where that is a number, or another `BaseException`. -/
inductive Failure
  | error (code : Option ℤ)
  | base
  deriving DecidableEq

/-- Where a call is: what it does next, or how it ended. -/
inductive Stage
  /-- `INSERT IGNORE INTO settings` -/
  | create
  /-- `db.commit()`, which ends the transaction that made the row -/
  | createCommit
  /-- the commit of `jen_db` at the end of the first block -/
  | createExit
  /-- `SELECT setting_value … FOR UPDATE` -/
  | select
  /-- `mutate(current or "")` -/
  | mutate (current : Option String)
  /-- `UPDATE settings SET setting_value` -/
  | update (new : String)
  /-- `db.commit()`, with a new value or without -/
  | commit (written : Bool)
  /-- the commit of `jen_db` at the end of the second block -/
  | exit (written : Bool)
  | returned (result : Bool)
  | raised
  deriving DecidableEq

/-- A call: the number of the attempt, and where it is. -/
structure Call where
  attempt : ℕ
  stage : Stage
  deriving DecidableEq

/-- The row, who holds its lock, what the holder has written but not committed, and the calls. -/
structure State (ι : Type) where
  row : Option (Option String)
  lock : Option ι
  draft : Option String
  calls : ι → Call

/-- What happens: a call gets on, or something is raised in it. -/
inductive Event (ι : Type)
  | advance (c : ι)
  | fail (c : ι) (f : Failure)

/-- `range(3)`. -/
def attempts : ℕ := 3

/-- The stored value. An absent row counts as the empty one, and so does `NULL`. -/
def valueOf (row : Option (Option String)) : String := (row.getD none).getD ""

/-- What a function makes of the value. -/
def applied (mutate : String → Except Failure (Option String)) (value : String) : String :=
  match mutate value with
  | .ok (some new) => new
  | _ => value

/-- The call after what was raised in it: a deadlock and a lock wait that timed out are tried again. -/
def Call.after (call : Call) : Failure → Call
  | .base => { call with stage := .raised }
  | .error code =>
    if (code = some 1213 ∨ code = some 1205) ∧ call.attempt + 1 < attempts then ⟨call.attempt + 1, .create⟩
    else { call with stage := .returned false }

namespace State

variable {ι : Type} [DecidableEq ι]

/-- No call has begun. -/
def start (row : Option (Option String)) : State ι := ⟨row, none, none, fun _ => ⟨0, .create⟩⟩

/-- The call, moved on. -/
def goTo (s : State ι) (c : ι) (stage : Stage) : State ι :=
  { s with calls := Function.update s.calls c { s.calls c with stage := stage } }

/-- The end of the transaction of a call, which leaves what it wrote. -/
def commit (s : State ι) (c : ι) : State ι :=
  if s.lock = some c then
    { s with row := (s.draft.map some).or s.row, lock := none, draft := none }
  else s

/-- What is raised in a call undoes its transaction. -/
def fail (s : State ι) (c : ι) (f : Failure) : State ι :=
  { row := s.row
    lock := if s.lock = some c then none else s.lock
    draft := if s.lock = some c then none else s.draft
    calls := Function.update s.calls c ((s.calls c).after f) }

/-- A call gets on; nothing where it waits for the lock, or has ended. -/
def advance (mutate : ι → String → Except Failure (Option String)) (s : State ι) (c : ι) : Option (State ι) :=
  match (s.calls c).stage with
  | .create =>
    if s.lock ≠ none then none
    else if s.row.isSome then some (s.goTo c .createCommit)
    else some { s.goTo c .createCommit with lock := some c, draft := some "" }
  | .createCommit => some ((s.commit c).goTo c .createExit)
  | .createExit => some (s.goTo c .select)
  | .select =>
    if s.lock ≠ none then none
    else
      match s.row with
      | none => some (s.goTo c (.mutate (some "")))
      | some current => some { s.goTo c (.mutate current) with lock := some c }
  | .mutate current =>
    match mutate c (current.getD "") with
    | .error f => some (s.fail c f)
    | .ok none => some (s.goTo c (.commit false))
    | .ok (some new) =>
      if some new = current then some (s.goTo c (.commit false)) else some (s.goTo c (.update new))
  | .update new =>
    if s.row.isNone then some (s.goTo c (.commit true))
    else if s.lock = none ∨ s.lock = some c then
      some { s.goTo c (.commit true) with lock := some c, draft := some new }
    else none
  | .commit written => some ((s.commit c).goTo c (.exit written))
  | .exit _ => some (s.goTo c (.returned true))
  | .returned _ => none
  | .raised => none

/-- A call has ended. -/
def hasEnded (s : State ι) (c : ι) : Bool :=
  match (s.calls c).stage with
  | .returned _ => true
  | .raised => true
  | _ => false

/-- One event. -/
def next (mutate : ι → String → Except Failure (Option String)) (s : State ι) : Event ι → Option (State ι)
  | .advance c => s.advance mutate c
  | .fail c f => if s.hasEnded c then none else some (s.fail c f)

/-- The events, one after the other. -/
def run (mutate : ι → String → Except Failure (Option String)) : State ι → List (Event ι) → Option (State ι)
  | s, [] => some s
  | s, e :: events => (s.next mutate e).bind fun t => run mutate t events

end State

end JenKea.Settings
