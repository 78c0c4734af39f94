import JenKea.Export.Import
import Mathlib.Data.List.Dedup

/-!
# The guarded import

`import_jen_guarded` of `services/dbexport.py`: the whole database is exported first (`write_jen_export`), and a
failed import is followed by an import of that export, of the plugin migration rows as they were, and by the
removal of the plugin tables that came to be. The export is taken as the value that is written to its file.
-/

namespace JenKea.Export

open Json (Fields lookup)

/-! ## The export -/

/-- The tables that exist. -/
def existingTables (tables : List String) : Run (List String) :=
  Prog.fold (fun t found => do
    if ← ask (.tableExists none t) then pure (found ++ [t]) else pure found) tables []

/-- `result.setdefault(pid, []).append(tbl)`. -/
def addTable (plugin table : String) : List (String × List String) → List (String × List String)
  | [] => [(plugin, [table])]
  | x :: owned => if x.1 = plugin then (x.1, x.2 ++ [table]) :: owned else x :: addTable plugin table owned

/-- What `_existing_owned_tables` has collected: the tables that are taken, and those of each plugin. -/
structure Owned where
  claimed : List String
  tables : List (String × List String)

/-- A table that the record says a plugin owns. -/
def addRecorded (x : String × String) (o : Owned) : Run Owned := do
  if x.2 ∈ o.claimed ∨ x.2 ∈ JEN_TABLES ∨ ¬ validTableName x.2 ∨ ¬ validPluginId x.1 then pure o
  else if ← ask (.tableExists none x.2) then pure ⟨o.claimed ++ [x.2], addTable x.1 x.2 o.tables⟩
  else pure o

/-- `_existing_owned_tables`. -/
def existingOwnedTables (code : Code) : Run (List (String × List String)) := do
  let tables ← Prog.fold (fun x found => do
    let existing ← existingTables x.2
    pure (found ++ [(x.1, existing)])) code.allOwnedTables []
  if ← ask (.tableExists none "plugin_tables") then
    let recorded ← ask .recordedTables
    let o ← Prog.fold addRecorded recorded ⟨code.allOwnedTables.flatMap Prod.snd, tables⟩
    pure o.tables
  else pure tables

/-- The rows of a table, or none where it does not exist. -/
def streamTable (table : String) (data : Fields) : Run Fields := do
  if ← ask (.tableExists none table) then
    let rows ← ask (.rows table)
    pure (data ++ [(table, .arr (rows.map fun row => .obj (cleanRow row)))])
  else pure (data ++ [(table, .arr [])])

/-- What an export says of itself. -/
structure Stamp where
  appVersion : String
  exportedAt : String

def texts (names : List String) : Json := .arr (names.map .str)

/-- The number of rows of each table. -/
def rowCounts (data : Fields) : Fields :=
  data.map fun x =>
    match x.2 with
    | .arr rows => (x.1, .int rows.length)
    | _ => (x.1, .int 0)

/-- The version of a plugin: the recorded one, or that of its manifest. -/
def versionOf (code : Code) (recorded : List (String × Option String)) (plugin : String) : Json :=
  match recorded.lookup plugin with
  | some version => version.elim .null .str
  | none => ((code.manifest plugin).bind Manifest.version).elim .null .str

/-- `_meta.plugin_tables`: the plugins that have a table in the export. -/
def pluginTablesMeta (code : Code) (recorded : List (String × Option String))
    (owned : List (String × List String)) : Fields :=
  (owned.filter fun x => x.2 ≠ []).map fun x =>
    (x.1, .obj [("version", versionOf code recorded x.1), ("tables", texts x.2)])

/-- Plugin data is backed up: the notice about it is marked as seen. A failure is logged, and not raised. -/
def notice (plugins : Fields) : Run Unit :=
  if plugins = [] then pure () else do
    let _ ← (ask .noteSeen).attempt
    pure ()

/-- The value of an export of Jen's tables and those of the plugins. -/
def exportOwned (code : Code) (stamp : Stamp) (owned : List (String × List String)) : Run Json := do
  let selected := JEN_TABLES ++ owned.flatMap Prod.snd
  ask .files
  let data ← Prog.fold streamTable selected []
  let binary ← ask (.binaryMap selected)
  let versions ← ask .pluginVersions
  let plugins := pluginTablesMeta code versions owned
  notice plugins
  ask .files
  pure (.obj [("data", .obj data), ("_meta", .obj [("jen_export_version", .int SCHEMA_VERSION),
    ("jen_app_version", .str stamp.appVersion), ("database", .str "jen"), ("exported_at", .str stamp.exportedAt),
    ("tables", texts selected), ("row_counts", .obj (rowCounts data)), ("format", .int EXPORT_FORMAT),
    ("binary_columns", .obj (binary.map fun x => (x.1, texts x.2))), ("plugin_tables", .obj plugins)])])

/-- The value of an export of every table. -/
def exportBody (code : Code) (stamp : Stamp) : Run Json := existingOwnedTables code >>= exportOwned code stamp

/-- `write_jen_export`, of every table: the value that is written. -/
def writeJenExport (code : Code) (stamp : Stamp) : Run Json := do
  ask .connect
  let payload ← Restore.thenClose (exportBody code stamp)
  ask .files
  pure payload

/-! ## The way back -/

/-- What `take_pre_import_snapshot` gives: the export, the migration rows, and which tables there are. -/
structure Snapshot where
  payload : Json
  migrations : List Row
  tables : String → Bool

/-- `take_pre_import_snapshot`. What it leaves behind when it fails is removed. -/
def takePreImportSnapshot (code : Code) (stamp : Stamp) : Run Snapshot := do
  ask .files
  let payload ← writeJenExport code stamp
  ask .connect
  Restore.thenClose do
    let migrations ← ask .migrationRows
    let tables ← ask .tableNames
    pure ⟨payload, migrations, tables⟩

/-- The plugin tables that came to be since a snapshot. -/
def createdTables (code : Code) (before now : String → Bool) : List String :=
  ((code.allOwnedTables.flatMap Prod.snd).dedup.filter fun t => now t ∧ ¬ before t).insertionSort
    fun t u => Json.keyLe t.toList u.toList

/-- The migration rows are inserted, where there were any. -/
def insertMigrations (rows : List Row) : Run Unit :=
  if rows = [] then pure () else ask (.insertMigrationRows rows)

/-- The migration rows are put back, and the plugin tables that came to be are removed. -/
def putBack (code : Code) (snap : Snapshot) : Run Unit := do
  ask (.begin none)
  ask .deleteMigrationRows
  insertMigrations snap.migrations
  ask (.commit none)
  let names ← ask .tableNames
  Prog.fold (fun t _ => ask (.dropTable t)) (createdTables code snap.tables names) ()

/-- `_roll_back_to`. -/
def rollBackTo (code : Code) (snap : Snapshot) : Run Unit := do
  ask .files
  let _ ← importJen code (some snap.payload) [] true true (some false)
  ask .connect
  Restore.thenClose (putBack code snap)

/-! ## The guarded import -/

/-- What `import_jen_guarded` raises: its own error in one of three states, or a refusal as it is. -/
inductive GuardedError where
  | unchanged
  | rolledBack
  | rollbackFailed
  | refused (e : ImportError)
  deriving DecidableEq

/-- The exception's type is `ScopeRefused` or `ValueError`. -/
def ImportError.isRefusal : ImportError → Bool
  | .scopeRefused _ => true
  | .valueError _ => true
  | _ => false

abbrev Guarded (α : Type) : Type := Prog Db GuardedError α

/-- A snapshot is taken, and the import is tried. -/
def tryImport (code : Code) (stamp : Stamp) (payload : Option Json) (tablesToRestore : List String) :
    Guarded (Snapshot × Except ImportError (List String)) := do
  match ← (takePreImportSnapshot code stamp).attempt with
  | .error _ => .raise .unchanged
  | .ok snap =>
    let result ← (importJen code payload tablesToRestore true true none).attempt
    pure (snap, result)

/-- What follows the import: a failure that is no refusal is rolled back. -/
def settle (code : Code) (x : Snapshot × Except ImportError (List String)) : Guarded (List String) := do
  match x.2 with
  | .ok results => pure results
  | .error e =>
    if e.isRefusal then .raise (.refused e)
    else
      match ← (rollBackTo code x.1).attempt with
      | .error _ => .raise .rollbackFailed
      | .ok _ => .raise .rolledBack

/-- `import_jen_guarded`. -/
def importJenGuarded (code : Code) (stamp : Stamp) (payload : Option Json) (tablesToRestore : List String) :
    Guarded (List String) :=
  tryImport code stamp payload tablesToRestore >>= settle code

end JenKea.Export
