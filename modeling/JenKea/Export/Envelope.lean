import JenKea.Lib.Dict
import JenKea.Lib.Text

/-!
# The file that an import is given

`parse_import_file` of `services/dbexport.py` and the check of a file's structure, `_envelope_problem`. A file
is taken as the JSON value that is read from it, if there is one.
-/

namespace JenKea.Export

open Json (Fields lookup)

abbrev SCHEMA_VERSION : ℤ := 1
abbrev EXPORT_FORMAT : ℤ := 3

/-- The names in `JEN_TABLES`. -/
def JEN_TABLES : List String :=
  ["users", "devices", "reservation_notes", "settings", "alert_channels", "alert_templates", "alert_log",
    "saved_searches", "dashboard_prefs", "mfa_methods", "mfa_backup_codes", "mfa_trusted_devices", "api_keys",
    "audit_log", "lease_history", "subnet_notes", "backup_schedule", "webauthn_credentials", "login_attempts",
    "mfa_attempts", "plugins", "plugin_schema_migrations", "plugin_tables", "kea_config_revisions",
    "lease6_history", "server_stats", "events", "client_problems", "schema_migrations"]

/-! ## The shape of a file -/

/-- `_is_whole_number`. -/
def isWholeNumber : Json → Bool
  | .int _ => true
  | _ => false

def isText : Json → Bool
  | .str _ => true
  | _ => false

/-- A list of texts. -/
def isTexts : Json → Bool
  | .arr xs => xs.all isText
  | _ => false

/-- What `$` of a regular expression lets stand at the end. -/
def dropNewline (cs : List Char) : List Char := if cs.getLast? = some '\n' then cs.dropLast else cs

/-- `valid_plugin_id`. -/
def validPluginId (id : String) : Bool :=
  match dropNewline id.toList with
  | [] => false
  | c :: cs =>
    let lower := fun c : Char => ('a' ≤ c ∧ c ≤ 'z') ∨ ('0' ≤ c ∧ c ≤ '9')
    decide (lower c) && cs.all (fun c => decide (lower c) || c == '-') && cs.length ≤ 63

/-- A plugin of `_meta.plugin_tables`. -/
def isPlugin : Json → Bool
  | .obj v =>
    match lookup "tables" v with
    | some tables => isTexts tables
    | none => true
  | _ => false

/-- A value that is there and is not `null`. -/
def given (key : String) (fields : Fields) : Option Json :=
  match lookup key fields with
  | some .null => none
  | value => value

/-- Why the metadata is not an export's. -/
def metaProblem (metadata : Fields) : Option String :=
  if ¬ (lookup "database" metadata).any isText then some "_meta names no database"
  else
    (["jen_export_version", "format"].findSome? fun key =>
      match lookup key metadata with
      | some (.int n) => if n < 0 then some s!"_meta.{key} is not a whole number" else none
      | some _ => some s!"_meta.{key} is not a whole number"
      | none => none) <|>
    (["exported_at", "jen_app_version", "group"].findSome? fun key =>
      match given key metadata with
      | some value => if isText value then none else some s!"_meta.{key} is not text"
      | none => none) <|>
    (match lookup "tables" metadata with
      | some tables => if isTexts tables then none else some "_meta.tables is not a list of table names"
      | none => none) <|>
    (match given "row_counts" metadata with
      | some (.obj counts) =>
        if counts.all fun x => isWholeNumber x.2 then none else some "_meta.row_counts is not a table-to-number map"
      | some _ => some "_meta.row_counts is not a table-to-number map"
      | none => none) <|>
    (match given "binary_columns" metadata with
      | some (.obj binary) =>
        if binary.all fun x => isTexts x.2 then none else some "_meta.binary_columns is not a table-to-columns map"
      | some _ => some "_meta.binary_columns is not a table-to-columns map"
      | none => none) <|>
    (match given "plugin_tables" metadata with
      | some (.obj plugins) =>
        if ¬ plugins.all fun x => isPlugin x.2 then some "_meta.plugin_tables is not a plugin-to-tables map"
        else if ¬ plugins.all fun x => validPluginId x.1 then
          some "_meta.plugin_tables names an invalid plugin id"
        else none
      | some _ => some "_meta.plugin_tables is not a plugin-to-tables map"
      | none => none)

/-- The number of the first row that is not an object. -/
def badRow (rows : List Json) : Option ℕ :=
  rows.zipIdx.findSome? fun x =>
    match x.1 with
    | .obj _ => none
    | _ => some (x.2 + 1)

/-- Why the tables are not an export's. -/
def dataProblem (data : Fields) : Option String :=
  data.findSome? fun x =>
    let table := x.1
    match x.2 with
    | .arr rows =>
      match badRow rows with
      | some n => some s!"data.{table} row {n} is not an object"
      | none => none
    | _ => some s!"data.{table} is not a list of rows"

/-- A file whose structure is sound. -/
structure File where
  metadata : Fields
  data : Fields

/-- `_envelope_problem`, or the file. -/
def envelope (payload : Json) : Except String File :=
  match payload with
  | .obj fields =>
    match lookup "_meta" fields with
    | some (.obj (m :: ms)) =>
      match lookup "data" fields with
      | some (.obj data) =>
        match metaProblem (m :: ms) <|> dataProblem data with
        | some problem => .error problem
        | none => .ok ⟨m :: ms, data⟩
      | _ => .error "it has no data object"
    | _ => .error "it has no _meta object"
  | _ => .error "the top level is not an object"

/-- A number of the metadata. -/
def whole (key : String) (default : ℤ) (metadata : Fields) : ℤ :=
  match lookup key metadata with
  | some (.int n) => n
  | _ => default

/-- `parse_import_file`. -/
def parseImportFile (payload : Option Json) : Except String File :=
  match payload with
  | none => .error "not a Jen export: the file is not valid gzip-compressed or plain JSON."
  | some payload =>
    match envelope payload with
    | .error problem => .error s!"not a Jen export: {problem}."
    | .ok file =>
      let version := whole "jen_export_version" 0 file.metadata
      let format := whole "format" 1 file.metadata
      if version > SCHEMA_VERSION then
        .error s!"Export schema version {version} is newer than this Jen supports ({SCHEMA_VERSION}). Upgrade Jen first."
      else if format > EXPORT_FORMAT then
        .error s!"This export is format {format}; this Jen reads up to format {EXPORT_FORMAT}. Upgrade Jen first."
      else .ok file

namespace File

variable (file : File)

/-- `_meta.format`. -/
def format : ℤ := whole "format" 1 file.metadata

/-- `_meta.database`. -/
def database : String :=
  match lookup "database" file.metadata with
  | some (.str name) => name
  | _ => ""

/-- The rows of a table, if the file has it. -/
def rows? (table : String) : Option (List Fields) :=
  (lookup table file.data).map fun
    | .arr rows => rows.filterMap fun
      | .obj row => some row
      | _ => none
    | _ => []

/-- The tables of a plugin of `_meta.plugin_tables`. -/
def tablesOf : Json → List String
  | .obj v =>
    match lookup "tables" v with
    | some (.arr tables) => tables.filterMap fun
      | .str t => some t
      | _ => none
    | _ => []
  | _ => []

/-- The plugins of `_meta.plugin_tables`, in a file that has them. -/
def pluginTables : List (String × List String) :=
  if 2 ≤ file.format then
    match lookup "plugin_tables" file.metadata with
    | some (.obj plugins) => plugins.map fun x => (x.1, tablesOf x.2)
    | _ => []
  else []

end File

end JenKea.Export
