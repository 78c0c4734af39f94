import JenKea.Export.Guarded
import Mathlib.Logic.Function.Basic

/-!
# The database of an import

The world that the statements act on: the tables with their rows, and what the open transaction of the import's
connection has made of them. Every statement may fail, before or after it took effect. What MySQL stores for a
bound value is a parameter, and so is what a plugin's migrations make of the tables that it owns.
-/

namespace JenKea.Export

/-- A table. -/
structure Table where
  columns : List String
  rows : List Row
  deriving DecidableEq

abbrev Tables : Type := String → Option Table

/-- What MySQL does with a bound value, which columns hold bytes, and what a column is without a value. -/
structure MySql where
  store : String → String → Value → Option Cell
  binary : String → String → Bool
  default : String → String → Cell

/-- The committed tables, and what the open transaction has made of them. -/
structure World where
  tables : Tables
  pending : Option Tables := none

/-- What happens at a statement: whether it raises, and has still taken effect; and what a migration run does. -/
structure Decision where
  error : Option String := none
  applied : Bool := false
  kept : List Value → Bool := fun _ => true
  ok : Bool := true
  message : String := ""
  migrated : Tables := fun _ => none
  migrationRows : List Row := []
  recorded : Bool := true
  now : String := ""

namespace World

variable (w : World)

/-- What the import's connection sees. -/
def view : Tables := w.pending.getD w.tables

/-- A table is written in the open transaction, or at once where there is none. -/
def write (t : String) (table : Table) : World :=
  match w.pending with
  | some p => { w with pending := some (Function.update p t (some table)) }
  | none => { w with tables := Function.update w.tables t (some table) }

/-- The rows of a table that is there are changed, and committed at once. -/
def edit (t : String) (f : List Row → List Row) : World :=
  match w.tables t with
  | some table => { w with tables := Function.update w.tables t (some { table with rows := f table.rows }) }
  | none => w

/-- The table that is changed, where it is there; the others are as they were. -/
theorem edit_tables (t : String) (f : List Row → List Row) (u : String) : (w.edit t f).tables u =
    if u = t then (w.tables t).map fun table => { table with rows := f table.rows } else w.tables u := by
  unfold edit
  split
  · rename_i table htable
    rw [htable]
    exact Function.update_apply _ _ _ _
  · rename_i hnone
    split_ifs with hu
    · rw [hu, hnone]
      rfl
    · rfl

theorem edit_pending (t : String) (f : List Row → List Row) : (w.edit t f).pending = w.pending := by
  unfold edit
  split <;> rfl

end World

/-- A row that is inserted. -/
def insertRow (db : MySql) (t : String) (columns cols : List String) (values : List Value) : Option Row :=
  columns.mapM fun c =>
    match (cols.zip values).lookup c with
    | some v => (db.store t c v).map fun cell => (c, cell)
    | none => some (c, db.default t c)

/-- The row of `plugin_tables` about a plugin's table. -/
def IsRecord (plugin t : String) (row : Row) : Prop :=
  cellOf row "plugin_id" = .text plugin ∧ cellOf row "table_name" = .text t

instance (plugin t : String) (row : Row) : Decidable (IsRecord plugin t row) := inferInstanceAs (Decidable (_ ∧ _))

/-- A row with the value of a column. -/
def setCell (row : Row) (column : String) (cell : Cell) : Row :=
  row.map fun x => if x.1 = column then (column, cell) else x

/-- `INSERT … ON DUPLICATE KEY UPDATE` of one record. -/
def recordTable (plugin : String) (version : Option String) (now : String) (rows : List Row) (t : String) :
    List Row :=
  if rows.any fun row => IsRecord plugin t row then
    rows.map fun row =>
      if IsRecord plugin t row then setCell (setCell row "code_installed" (.int 1)) "retained" (.int 0) else row
  else
    rows ++ [[("plugin_id", .text plugin), ("table_name", .text t),
      ("first_seen_version", version.elim .null .text), ("code_installed", .int 1), ("retained", .int 0),
      ("recorded_at", .datetime now)]]

/-- `record_owned_tables`. -/
def recordOwnedTables (code : Code) (plugin now : String) (rows : List Row) : List Row :=
  (code.ownedTables plugin).foldl
    (recordTable plugin ((code.manifest plugin).bind Manifest.version) now) rows

/-- A run of a plugin's migrations: tables that it owns come to be, or their rows change; its migration rows are
recorded, and so is what it owns. -/
def migrateTables (code : Code) (plugin : String) (c : Decision) (tables : Tables) : Tables := fun t =>
  if t ∈ code.ownedTables plugin then
    match tables t, c.migrated t with
    | some old, some new => some { old with rows := new.rows }
    | none, new => new
    | old, none => old
  else if t = "plugin_schema_migrations" then (tables t).map fun table => { table with rows := c.migrationRows }
  else if t = "plugin_tables" ∧ c.ok ∧ c.recorded then
    (tables t).map fun table => { table with rows := recordOwnedTables code plugin c.now table.rows }
  else tables t

def textOf : Cell → String
  | .text s => s
  | _ => ""

/-- The rows of a table. -/
def rowsIn (tables : Tables) (t : String) : List Row := (tables t).elim [] Table.rows

/-- The plugins' tables that are recorded. -/
def recordedIn (tables : Tables) : List (String × String) :=
  (rowsIn tables "plugin_tables").map fun row =>
    (textOf (cellOf row "plugin_id"), textOf (cellOf row "table_name"))

/-- The rows of `settings`, with the mark that the notice was seen. -/
def noticeRows (rows : List Row) : List Row :=
  if rows.any fun row => cellOf row "setting_key" = .text "plugin_backup_notice_seen" then
    rows.map fun row => if cellOf row "setting_key" = .text "plugin_backup_notice_seen" then
      setCell row "setting_value" (.text "1") else row
  else rows ++ [[("setting_key", .text "plugin_backup_notice_seen"), ("setting_value", .text "1")]]

/-- What a statement does that does not raise. -/
def effect (db : MySql) (code : Code) : (s : Statement) → Decision → World → Except String s.Answer × World
  | .connect, _, w => (.ok (), { w with pending := none })
  | .begin _, _, w => (.ok (), { w with pending := some w.tables })
  | .foreignKeyChecks _, _, w => (.ok (), w)
  | .tableExists _ t, _, w => (.ok (w.view t).isSome, w)
  | .columns _ t, _, w => (.ok ((w.view t).elim [] Table.columns), w)
  | .binaryColumns _ t, _, w => (.ok (((w.view t).elim [] Table.columns).filter (db.binary t)), w)
  | .delete _ t, _, w =>
    match w.view t with
    | none => (.error "no such table", w)
    | some table => (.ok (), w.write t { table with rows := [] })
  | .insert _ ignore t cols rows, c, w =>
    match w.view t with
    | none => (.error "no such table", w)
    | some table =>
      match (if ignore then rows.filter c.kept else rows).mapM (insertRow db t table.columns cols) with
      | none => (.error "a row was refused", w)
      | some new => (.ok new.length, w.write t { table with rows := table.rows ++ new })
  | .commit _, _, w => (.ok (), ⟨w.view, none⟩)
  | .rollback, _, w => (.ok (), { w with pending := none })
  | .close, _, w => (.ok (), { w with pending := none })
  | .clearMigrations plugin, _, w =>
    (.ok (), w.edit "plugin_schema_migrations" fun rows => rows.filter fun row =>
      cellOf row "plugin_id" ≠ .text plugin)
  | .migrate plugin, c, w => (.ok (c.ok, c.message), { w with tables := migrateTables code plugin c w.tables })
  | .migratedPlugins, _, w =>
    (.ok ((rowsIn w.tables "plugin_schema_migrations").map fun row => textOf (cellOf row "plugin_id")).dedup, w)
  | .rows t, _, w =>
    match w.view t with
    | none => (.error "no such table", w)
    | some table => (.ok table.rows, w)
  | .binaryMap tables, _, w =>
    (.ok (tables.map fun t => (t, ((w.view t).elim [] Table.columns).filter (db.binary t))), w)
  | .recordedTables, _, w => (.ok (recordedIn w.tables), w)
  | .pluginVersions, _, w => (.ok ((rowsIn w.tables "plugins").map fun row =>
      (textOf (cellOf row "id"), match cellOf row "version" with
        | .text version => some version
        | _ => none)), w)
  | .noteSeen, _, w => (.ok (), w.edit "settings" noticeRows)
  | .migrationRows, _, w =>
    match w.view "plugin_schema_migrations" with
    | none => (.error "no such table", w)
    | some table => (.ok table.rows, w)
  | .tableNames, _, w => (.ok fun t => (w.view t).isSome, w)
  | .deleteMigrationRows, _, w =>
    match w.view "plugin_schema_migrations" with
    | none => (.error "no such table", w)
    | some table => (.ok (), w.write "plugin_schema_migrations" { table with rows := [] })
  | .insertMigrationRows rows, _, w =>
    match w.view "plugin_schema_migrations" with
    | none => (.error "no such table", w)
    | some table => (.ok (), w.write "plugin_schema_migrations" { table with rows := table.rows ++ rows })
  | .dropTable t, _, w => (.ok (), ⟨Function.update w.view t none, none⟩)
  | .files, _, w => (.ok (), w)

/-- What a statement does: it raises where that was decided, whether it took effect or not. The environment
decides once it has the statement. -/
def handle (db : MySql) (code : Code) : Handler Db (Statement → Decision) World := fun s f w =>
  match (f s).error with
  | none => effect db code s (f s) w
  | some e => (.error e, if (f s).applied then (effect db code s (f s) w).2 else w)

end JenKea.Export
