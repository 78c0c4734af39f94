import JenKea.Export.Rows
import JenKea.Lib.Calls

/-!
# The import of Jen's tables

`import_jen` of `services/dbexport.py`, as a program over the statements that it sends to the database and the
migration runs that it asks for. What each of them answers, or whether it raises, is left open. A statement
of the restore of a plugin's rows says which plugin it is for; the database does not see that.
-/

namespace JenKea.Export

open Json (Fields lookup)

/-! ## The statements -/

/-- What an import, or an export before it, asks for. `files` is any step in the file system. -/
inductive Statement where
  | connect
  | begin (plugin : Option String)
  | foreignKeyChecks (on : Bool)
  | tableExists (plugin : Option String) (table : String)
  | columns (plugin : Option String) (table : String)
  | binaryColumns (plugin : Option String) (table : String)
  | delete (plugin : Option String) (table : String)
  | insert (plugin : Option String) (ignore : Bool) (table : String) (cols : List String)
      (rows : List (List Value))
  | commit (plugin : Option String)
  | rollback
  | close
  | clearMigrations (plugin : String)
  | migrate (plugin : String)
  | migratedPlugins
  | rows (table : String)
  | binaryMap (tables : List String)
  | recordedTables
  | pluginVersions
  | noteSeen
  | migrationRows
  | tableNames
  | deleteMigrationRows
  | insertMigrationRows (rows : List Row)
  | dropTable (table : String)
  | files
  deriving DecidableEq

/-- The answer to a statement that does not raise. -/
abbrev Statement.Answer : Statement → Type
  | .tableExists _ _ => Bool
  | .columns _ _ => List String
  | .binaryColumns _ _ => List String
  | .insert _ _ _ _ _ => ℕ
  | .migrate _ => Bool × String
  | .migratedPlugins => List String
  | .rows _ => List Row
  | .binaryMap _ => List (String × List String)
  | .recordedTables => List (String × String)
  | .pluginVersions => List (String × Option String)
  | .migrationRows => List Row
  | .tableNames => String → Bool
  | _ => Unit

/-- The plugin and the table of a statement that writes rows, or takes them out. -/
def Statement.target : Statement → Option (Option String × String)
  | .delete plugin table => some (plugin, table)
  | .insert plugin _ table _ _ => some (plugin, table)
  | _ => none

abbrev Db : Interface := ⟨Statement, fun s => Except String s.Answer⟩

abbrev Run (α : Type) : Type := Prog Db ImportError α

/-- A statement is sent, and its error raised. -/
def ask (s : Statement) : Run s.Answer :=
  .call s fun
    | .ok a => .done a
    | .error e => .raise (.databaseError e)

/-! ## The plugins -/

/-- A plugin's manifest: the tables that its `backup_tables` name, or that its migrations create, and its
version. -/
structure Manifest where
  candidates : List String
  version : Option String := none
  deriving DecidableEq

/-- `_TABLE_NAME_RE`. -/
def validTableName (table : String) : Bool :=
  match dropNewline table.toList with
  | [] => false
  | c :: cs =>
    decide ('a' ≤ c ∧ c ≤ 'z') &&
      cs.all (fun c => decide (('a' ≤ c ∧ c ≤ 'z') ∨ ('0' ≤ c ∧ c ≤ '9')) || c == '_') && cs.length ≤ 63

/-- `owned_tables`. -/
def Manifest.ownedTables (m : Manifest) : List String :=
  m.candidates.filter fun t => validTableName t ∧ t ∉ JEN_TABLES

/-- The plugins whose code is there: the ids that were discovered, in order, and their manifests. -/
structure Code where
  installed : List String
  manifest : String → Option Manifest

namespace Code

variable (code : Code)

/-- The tables that a plugin owns. -/
def ownedTables (plugin : String) : List String := (code.manifest plugin).elim [] Manifest.ownedTables

/-- The loop of `all_owned_tables`: a table that another plugin claimed is left out. -/
def claimTables : List String → List String → List (String × List String)
  | [], _ => []
  | id :: ids, claimed =>
    match code.manifest id with
    | none => claimTables ids claimed
    | some m =>
      let kept := m.ownedTables.filter (· ∉ claimed)
      (id, kept) :: claimTables ids (claimed ++ kept)

/-- `all_owned_tables`. -/
def allOwnedTables : List (String × List String) := code.claimTables code.installed []

end Code

/-! ## The import -/

/-- What an import is given: the code that is there, the file, the tables that were asked for, and the mode. -/
structure Restore where
  code : Code
  file : File
  tablesToRestore : List String
  truncate : Bool
  strict : Bool
  strictPlugins : Bool

namespace Restore

variable (r : Restore)

/-- The plugins that the import is about, with their tables: those that the file names, or all of them. -/
def exportPlugins : List (String × List String) :=
  if r.file.pluginTables = [] then r.code.allOwnedTables else r.file.pluginTables

/-- The table names that an import knows. -/
def known : List String := JEN_TABLES ++ r.exportPlugins.flatMap Prod.snd

/-- `_validate_tables`. -/
def validateTables (requested known : List String) : List String := requested.filter (· ∈ known)

/-- The tables that rows are imported into. -/
def selected : List String :=
  validateTables (if r.tablesToRestore = [] then r.file.data.map Prod.fst else r.tablesToRestore) r.known

/-- `JEN_DEPENDENTS`. -/
def JEN_DEPENDENTS : List (String × List String) :=
  [("users", ["mfa_methods", "mfa_backup_codes", "mfa_trusted_devices", "mfa_attempts", "webauthn_credentials",
    "saved_searches", "dashboard_prefs", "api_keys"])]

/-- `_missing_dependents`. -/
def missingDependents : List (String × List String) :=
  JEN_DEPENDENTS.filterMap fun x =>
    let absent := x.2.filter fun d => d ∈ r.file.data.map Prod.fst ∧ d ∉ r.selected
    if x.1 ∈ r.selected ∧ absent ≠ [] then some (x.1, absent) else none

/-- The plugins whose migrations are run again. -/
def repaired : List (String × List String) :=
  if r.tablesToRestore = [] then r.exportPlugins
  else r.exportPlugins.filter fun x => ∃ t ∈ x.2, t ∈ validateTables r.tablesToRestore r.known

/-- A table that cannot be restored exactly: an error when strict, else a line. -/
def unrestorable (message : String) : Run String :=
  if r.strict then .raise (.runtimeError message) else pure ("⚠️ " ++ message)

/-- The columns of a table that rows have values for. -/
def columnsOf (rows : List Fields) (real : List String) : List String :=
  ((rows.headD []).map Prod.fst).filter (· ∈ real)

/-- The rows of a table are inserted; the answer is how many there are. -/
def insertRows (plugin : Option String) (table : String) (rows : List Fields) (cols : List String) : Run ℕ := do
  if rows = [] then pure 0
  else
    let binary ← ask (.binaryColumns plugin table)
    let params ← Prog.ofExcept (decodeImportRows table rows cols binary r.file.format)
    ask (.insert plugin (!r.truncate) table cols params)

/-- The line about a table that was filled. -/
def report (table : String) (rows inserted : ℕ) : Run String :=
  if r.truncate then
    if inserted ≠ rows then
      .raise (.runtimeError s!"{table}: the file has {rows} rows but the server reports {inserted} inserted")
    else pure s!"✅ {table}: {inserted} rows restored"
  else
    -- what Python computes may be negative, and is then not zero either
    let skipped : ℤ := rows - inserted
    if skipped ≠ 0 then
      r.unrestorable s!"{table}: {inserted} added, {skipped} skipped (the same key was already there, or the database refused the row)"
    else pure s!"✅ {table}: {inserted} rows added"

/-- The columns of a table, which are asked for only where there are rows. -/
def realColumns (plugin : Option String) (table : String) (rows : List Fields) : Run (List String) :=
  if rows = [] then pure [] else ask (.columns plugin table)

/-- A table is emptied in replace mode. -/
def clear (plugin : Option String) (table : String) : Run Unit :=
  if r.truncate then ask (.delete plugin table) else pure ()

/-- A table is filled with the rows. -/
def fill (plugin : Option String) (table : String) (rows : List Fields) (cols : List String) : Run String := do
  r.clear plugin table
  let inserted ← r.insertRows plugin table rows cols
  r.report table rows.length inserted

/-- `_import_rows`: the line that it adds to the results. -/
def importRows (plugin : Option String) (table : String) : Run String :=
  match r.file.rows? table with
  | none => r.unrestorable s!"{table}: this file carries no rows for it — left unchanged"
  | some rows => do
    let there ← ask (.tableExists plugin table)
    if there then
      let real ← realColumns plugin table rows
      -- before the table is emptied: a restore must not then insert nothing
      if rows ≠ [] ∧ columnsOf rows real = [] then
        r.unrestorable s!"{table}: no recognized columns in import data — skipped, left unchanged"
      else r.fill plugin table rows (columnsOf rows real)
    else r.unrestorable s!"{table}: table does not exist in current schema — skipped"

/-- The rows of several tables: the lines, and the first error with its table. -/
def importTables (plugin : Option String) : List String → List String →
    Run (List String × Option (String × ImportError))
  | [], results => pure (results, none)
  | table :: tables, results => do
    match ← (r.importRows plugin table).attempt with
    | .ok line => importTables plugin tables (results ++ [line])
    | .error e => pure (results, some (table, e))

/-- The core tables that are restored: never `plugin_schema_migrations`. -/
def coreSelected : List String := r.selected.filter fun t => t ∈ JEN_TABLES ∧ t ≠ "plugin_schema_migrations"

/-- (1): the core tables, in one transaction. -/
def importCore : Run (List String) := do
  ask (.begin none)
  ask (.foreignKeyChecks false)
  let (results, failed) ← r.importTables none r.coreSelected []
  match failed with
  | some (_, e) => .raise e
  | none =>
    ask (.foreignKeyChecks true)
    ask (.commit none)
    pure results

/-- The lines and the failures so far. -/
structure Outcome where
  results : List String
  failures : List Failure
  deriving DecidableEq

/-- The rows of a plugin's tables, in one transaction: the lines, and the first error with the table that it
came at. -/
def importPluginRows (plugin : String) (tables results : List String) :
    Run (List String × Option (Option String × ImportError)) := do
  match ← (ask (.begin (some plugin))).attempt with
  | .error e => pure (results, some (none, e))
  | .ok _ =>
    let (results, failed) ← r.importTables (some plugin) tables results
    match failed with
    | some (table, e) => pure (results, some (some table, e))
    | none =>
      match ← (ask (.commit (some plugin))).attempt with
      | .error e => pure (results, some (tables.getLast?, e))
      | .ok _ => pure (results, none)

/-- (3) for one plugin: the rows of its tables that were selected. -/
def importPlugin (x : String × List String) (o : Outcome) : Run Outcome :=
  let plugin := x.1
  let tables := x.2.filter (· ∈ r.selected)
  if tables = [] then pure o
  else do
    let (results, failed) ← r.importPluginRows plugin tables o.results
    match failed with
    | none => pure { o with results := results }
    | some (current, e) =>
      ask .rollback
      let text := e.text
      let table := current.getD "None"
      pure {
        results := results ++ [s!"❌ {plugin}.{table}: row import failed and was rolled back ({text})"]
        failures := o.failures ++
          [⟨plugin, current.elim tables fun t => [t], s!"row import failed and was rolled back ({text})"⟩] }

/-- (2) for one plugin: its migrations are run again, and then its rows are imported. -/
def replayPlugin (x : String × List String) (o : Outcome) : Run Outcome := do
  let plugin := x.1
  ask (.clearMigrations plugin)
  let (ok, msg) ← ask (.migrate plugin)
  if ok then r.importPlugin x o
  else
    pure {
      results := o.results ++ [s!"❌ {plugin}: migration replay failed ({msg}) — its tables/data may be incomplete"]
      failures := o.failures ++ [⟨plugin, x.2, s!"migration replay failed ({msg})"⟩] }

/-- (2), (3) and (4) for one plugin. -/
def restorePlugin (x : String × List String) (o : Outcome) : Run Outcome :=
  let plugin := x.1
  if x.2 = [] then pure o
  else
    match r.code.manifest plugin with
    | none =>
      let n := x.2.length
      pure { o with results := o.results ++ [s!"⚠️ {plugin}: plugin code is not installed here — its data ({n} table(s)) was not restored; it is still inside this export/bundle. Install the plugin and restore again to bring it back."] }
    | some _ => r.replayPlugin x o

/-- The plugins are restored one at a time. -/
def restorePlugins (results : List String) : Run Outcome :=
  Prog.fold r.restorePlugin (r.repaired.insertionSort fun x y => Json.keyLe x.1.toList y.1.toList) ⟨results, []⟩

/-- The tables of a plugin that do not exist. -/
def missingTables (plugin : String) : List String → List (String × String) → Run (List (String × String)) :=
  Prog.fold fun t missing => do
    if ← ask (.tableExists none t) then pure missing else pure (missing ++ [(plugin, t)])

/-- `_plugin_invariant_violations`. -/
def pluginInvariantViolations (code : Code) : Run (List (String × String)) := do
  let migrated ← ask .migratedPlugins
  Prog.fold (fun plugin missing => missingTables plugin (code.ownedTables plugin) missing) migrated []

/-- `try: … finally: conn.close()`. -/
def thenClose {α : Type} (p : Run α) : Run α := do
  let result ← p.attempt
  ask .close
  Prog.ofExcept result

/-- What the check at the end adds. -/
def Outcome.check (o : Outcome) (violations : List (String × String)) : Outcome :=
  if violations = [] then o
  else
    let named := ", ".intercalate (violations.map fun x => x.1 ++ "." ++ x.2)
    { results := o.results ++ [s!"⚠️ invariant check: recorded migration(s) with a missing table ({named}) — Jen will repair this automatically the next time it starts"]
      failures := o.failures ++ violations.map fun x => ⟨x.1, [x.2], "a recorded migration has no table behind it"⟩ }

/-- What a scoped replace restore leaves out, which is then refused. -/
def refusal : List (String × List String) :=
  if r.tablesToRestore ≠ [] ∧ r.truncate then r.missingDependents else []

/-- The core tables, rolled back on any error. -/
def importCoreOrRollBack : Run (List String) :=
  r.importCore.handle fun e => do
    ask .rollback
    ask .close
    .raise (.runtimeError ("Import failed and was rolled back: " ++ e.text))

/-- What `import_jen` ends with. -/
def finish (o : Outcome) : Run (List String) :=
  if r.strictPlugins ∧ o.failures ≠ [] then .raise (.pluginRestoreError o.failures) else pure o.results

/-- The body of `import_jen`, for a file that was accepted. -/
def run : Run (List String) :=
  match r.refusal with
  | (parent, absent) :: _ =>
    let names := ", ".intercalate absent
    .raise (.scopeRefused s!"Replacing {parent} on its own would leave {names} pointing at records that no longer exist (the database's cascade does not run during a restore). Tick {names} as well, or restore the whole file.")
  | [] => do
    ask .connect
    let results ← r.importCoreOrRollBack
    let o ← thenClose (r.restorePlugins results)
    ask .connect
    let violations ← thenClose (pluginInvariantViolations r.code)
    r.finish (o.check violations)

end Restore

/-- `import_jen`, of what is read from a file. -/
def importJen (code : Code) (payload : Option Json) (tablesToRestore : List String) (truncate strict : Bool)
    (strictPlugins : Option Bool) : Run (List String) :=
  match parseImportFile payload with
  | .error e => .raise (.valueError e)
  | .ok file =>
    if file.database ≠ "jen" then
      let name := file.database
      .raise (.valueError s!"This export is for '{name}' — expected 'jen'. Wrong file?")
    else Restore.run ⟨code, file, tablesToRestore, truncate, strict, strictPlugins.getD strict⟩

end JenKea.Export
