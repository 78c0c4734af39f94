import JenKea.Lib.Locked

/-!
# The migrations of Jen's database

`run_migrations` of `models/migrations.py`: one Jen at a time, by an advisory lock, applies what is not recorded, in the
order of the list, each migration and its record in one transaction. A statement that changes the schema commits what is
before it. Migration 6 is embedded statement by statement: it expands the ENUM of `users.role`, and promotes the admins
of an install from before it. Any statement may fail, and a Jen may be killed at any of them; a Jen whose start is
through serves, and changes users, whatever another one migrates.
-/

namespace JenKea.Migrations

/-- A role. -/
inductive Role
  | superadmin
  | admin
  | viewer
  deriving DecidableEq

/-- The users, each with a role. -/
abbrev Users : Type := List (String × Role)

/-- What is read and written of the database. -/
structure Schema where
  /-- the ENUM of `users.role` has 'superadmin' -/
  superadmin : Bool
  /-- the setting `legacy_admin_promotion_pending` -/
  pending : Bool
  users : Users
  /-- the column `users.subnet_access` -/
  access : Bool
  /-- `schema_migrations` -/
  versions : List ℕ
  deriving DecidableEq

/-- `UPDATE users SET role='superadmin' WHERE role='admin'`. -/
def promote (users : Users) : Users := users.map fun u => if u.2 = .admin then (u.1, .superadmin) else u

/-- What a statement changes. -/
inductive Change
  | markPending
  | expandRole
  | promote
  | clearPending
  | addAccess
  | record (version : ℕ)
  deriving DecidableEq

/-- The change. -/
def Change.apply (s : Schema) : Change → Schema
  | .markPending => { s with pending := true }
  | .expandRole => { s with superadmin := true }
  | .promote => { s with users := Migrations.promote s.users }
  | .clearPending => { s with pending := false }
  | .addAccess => { s with access := true }
  | .record version => { s with versions := s.versions ++ [version] }

/-- `version` is the primary key of `schema_migrations`. -/
def Change.isRefused (s : Schema) : Change → Bool
  | .record version => version ∈ s.versions
  | _ => false

/-- The database: what is committed, what the Jen that migrates sees, and the users as they are to be once migration 6
is through, with what the Jens that serve have changed of them. -/
structure Db where
  shared : Schema
  own : Schema
  expected : Users

/-- What a Jen that migrates asks of the database. -/
inductive Op : Type
  | roleHasSuperadmin
  | isPending
  | accessMissing
  | applied
  | execute (c : Change)
  | alter (c : Change)
  /-- the statements of another migration, or of the table of versions -/
  | migrate
  | commit
  | rollback

/-- What is answered. -/
@[reducible] def Op.Result : Op → Type
  | .roleHasSuperadmin | .isPending | .accessMissing => Bool
  | .applied => List ℕ
  | .execute _ | .alter _ | .migrate | .commit | .rollback => Unit

/-- The interface; a statement that fails answers `none`. -/
@[reducible] def DbI : Interface where
  Op := Op
  Ans o := Option o.Result

/-- A program of a migration. -/
abbrev M (α : Type) : Type := Prog DbI Unit α

/-- What is decided at a statement: whether it fails, whether what was uncommitted is committed by it where that is
open, and what the Jens that serve have made of the users. -/
structure Decision where
  fails : Bool
  commits : Bool
  write : Users → Users

namespace Db

/-- `COMMIT`. -/
def commit (db : Db) : Db := { db with shared := db.own }

/-- `ROLLBACK`, and what is left where a Jen is killed. -/
def rollback (db : Db) : Db := { db with own := db.shared }

/-- The Jens that serve change the users; there is one only where the migrations are through. -/
def serve (write : Users → Users) (db : Db) : Db :=
  if 6 ∈ db.shared.versions then
    { shared := { db.shared with users := write db.shared.users }
      own := { db.own with users := write db.own.users }
      expected := write db.expected }
  else db

/-- A statement that may commit what is before it. -/
def perhaps (commits : Bool) (db : Db) : Db := if commits then db.commit else db

end Db

/-- What a statement answers, and does. -/
def reply (o : Op) (c : Decision) (db : Db) : Option o.Result × Db :=
  match o with
  | .roleHasSuperadmin => (if c.fails then none else some db.own.superadmin, db)
  | .isPending => (if c.fails then none else some db.own.pending, db)
  | .accessMissing => (if c.fails then none else some !db.own.access, db)
  | .applied => (if c.fails then none else some db.own.versions, db)
  | .execute change =>
    if c.fails || change.isRefused db.own then (none, db) else (some (), { db with own := change.apply db.own })
  | .alter change =>
    if c.fails then (none, db.perhaps c.commits)
    else (some (), { db with shared := change.apply db.own, own := change.apply db.own })
  | .migrate => (if c.fails then none else some (), db.perhaps c.commits)
  | .commit => if c.fails then (none, db.perhaps c.commits) else (some (), db.commit)
  | .rollback => (some (), db.rollback)

/-- A statement, after what the Jens that serve have done. -/
def handler : Handler DbI Decision Db := fun o c db => reply o c (db.serve c.write)

/-! ## The programs -/

/-- A statement, which raises where it fails. -/
def ask (o : Op) : M o.Result := .call o fun
  | some a => .done a
  | none => .raise ()

/-- `with jen_db() as db`: a commit at the end, or a rollback. -/
def jenDb {α : Type} (p : M α) : M α :=
  (p.bind fun a => (ask .commit).bind fun _ => .done a).handle fun e => .call .rollback fun _ => .raise e

/-- The decision of migration 6, and the ENUM. -/
def expandRole : M Unit :=
  (ask .roleHasSuperadmin).bind fun modern =>
    if modern then .done ()
    else (ask (.execute .markPending)).bind fun _ => ask (.alter .expandRole)

/-- The promotion. -/
def promotePending : M Unit :=
  (ask .isPending).bind fun pending =>
    if pending then (ask (.execute .promote)).bind fun _ => ask (.execute .clearPending)
    else .done ()

/-- The column. -/
def addAccess : M Unit :=
  (ask .accessMissing).bind fun missing => if missing then ask (.alter .addAccess) else .done ()

/-- `_m006_superadmin_role`. -/
def m006 : M Unit := expandRole.bind fun _ => promotePending.bind fun _ => addAccess

/-- The versions of `MIGRATIONS`. -/
def MIGRATIONS : List ℕ := List.range' 1 38

/-- The function of a migration. -/
def fn (version : ℕ) : M Unit := if version = 6 then m006 else ask .migrate

/-- One pass of the loop. -/
def apply (applied : List ℕ) (version count : ℕ) : M ℕ :=
  if version ∈ applied then .done count
  else (jenDb ((fn version).bind fun _ => ask (.execute (.record version)))).bind fun _ => .done (count + 1)

/-- `_run_migrations_locked`. -/
def runMigrationsLocked : M ℕ :=
  (jenDb (ask .migrate)).bind fun _ =>
    (jenDb (ask .applied)).bind fun applied => Prog.fold (apply applied) MIGRATIONS 0

/-- `run_migrations`, of every Jen. -/
def system : Locked.System DbI Unit ℕ Decision (Users → Users) Db where
  handler := handler
  program := runMigrationsLocked
  cut := Db.rollback
  other := Db.serve

end JenKea.Migrations
