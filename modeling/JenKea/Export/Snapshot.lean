import JenKea.Export.Refill

/-!
# What a snapshot holds

The tables of the plugins that an export finds, as a function of the database (`ownedIn`), and what
`take_pre_import_snapshot` brings back: a file with the rows of every table of the snapshot as they were
(`Describes`), the migration rows, and the names of the tables (`does_takePreImportSnapshot`). It writes one
setting, that the notice about plugin data was seen (`noted`).
-/

namespace JenKea.Export

open Json (Fields lookup)

/-! ## The tables of the plugins -/

section

variable (code : Code) (tables : Tables)

/-- The tables that are there. -/
def existingIn (names : List String) : List String := names.filter fun t => (tables t).isSome

/-- A table that the record says a plugin owns. -/
def addRecordedIn (o : Owned) (x : String × String) : Owned :=
  if x.2 ∈ o.claimed ∨ x.2 ∈ JEN_TABLES ∨ ¬ validTableName x.2 ∨ ¬ validPluginId x.1 then o
  else if (tables x.2).isSome then ⟨o.claimed ++ [x.2], addTable x.1 x.2 o.tables⟩
  else o

/-- The tables of the plugins whose code is there. -/
def foundIn : List (String × List String) := code.allOwnedTables.map fun x => (x.1, existingIn tables x.2)

/-- What `_existing_owned_tables` gives. -/
def ownedIn : List (String × List String) :=
  if (tables "plugin_tables").isSome then
    ((recordedIn tables).foldl (addRecordedIn tables)
      ⟨code.allOwnedTables.flatMap Prod.snd, foundIn code tables⟩).tables
  else foundIn code tables

/-- The tables of an export. -/
def snapshotTables : List String := JEN_TABLES ++ (ownedIn code tables).flatMap Prod.snd

/-- The tables, once the notice about plugin data was seen. -/
def noted : Tables := (World.edit ⟨tables, none⟩ "settings" noticeRows).tables

end

/-- The mark about the notice is a row of `settings`. -/
theorem noted_apply (tables : Tables) (t : String) : noted tables t =
    if t = "settings" then (tables "settings").map fun table => { table with rows := noticeRows table.rows }
    else tables t := World.edit_tables _ _ _ _

theorem noted_of_ne (tables : Tables) {t : String} (ht : t ≠ "settings") : noted tables t = tables t := by
  rw [noted_apply, if_neg ht]

theorem noted_isSome (tables : Tables) (t : String) : (noted tables t).isSome = (tables t).isSome := by
  rw [noted_apply]
  split_ifs with ht
  · rw [ht, Option.isSome_map]
  · rfl

/-! ## The file of a snapshot -/

variable {db : MySql} {code : Code} {tables : Tables}

/-- The file has the rows of the tables as they are. -/
structure Describes (code : Code) (tables : Tables) (file : File) : Prop where
  database : file.database = "jen"
  names : file.data.map Prod.fst = snapshotTables code tables
  rows : ∀ t ∈ snapshotTables code tables, file.rows? t = some ((rowsIn tables t).map cleanRow)
  plugins : file.pluginTables = (ownedIn code tables).filter fun x => x.2 ≠ []

/-- The tables of an export, and their rows. -/
def dataOf (tables : Tables) (names : List String) : Fields :=
  names.map fun t => (t, .arr ((rowsIn tables t).map fun row => .obj (cleanRow row)))

/-- A file in which an export's data is accepted is that data. -/
theorem eq_of_parse {metadata data : Fields} {file : File}
    (h : parseImportFile (some (.obj [("data", .obj data), ("_meta", .obj metadata)])) = .ok file) :
    file = ⟨metadata, data⟩ := by
  have henvelope : envelope (.obj [("data", .obj data), ("_meta", .obj metadata)]) = .ok file := by
    unfold parseImportFile at h
    dsimp only at h
    split at h
    · cases h
    · rename_i file' hfile
      split_ifs at h
      rw [hfile, Except.ok.inj h]
  unfold envelope at henvelope
  have hmeta : lookup "_meta" [("data", Json.obj data), ("_meta", Json.obj metadata)] = some (.obj metadata) := rfl
  have hdata : lookup "data" [("data", Json.obj data), ("_meta", Json.obj metadata)] = some (.obj data) := rfl
  dsimp only at henvelope
  rw [hmeta, hdata] at henvelope
  cases metadata with
  | nil => cases henvelope
  | cons m ms =>
    dsimp only at henvelope
    split at henvelope
    · cases henvelope
    · exact (Except.ok.inj henvelope).symm

theorem lookup_dataOf {names : List String} {t : String} (ht : t ∈ names) :
    lookup t (dataOf tables names) = some (.arr ((rowsIn tables t).map fun row => .obj (cleanRow row))) := by
  induction names with
  | nil => exact absurd ht List.not_mem_nil
  | cons u names ih =>
    show lookup t ((u, _) :: dataOf tables names) = _
    rw [Json.lookup_cons]
    split_ifs with hu
    · rw [hu]
    · exact ih ((List.mem_cons.mp ht).resolve_left (Ne.symm hu))

theorem filterMap_str (names : List String) :
    ((names.map Json.str).filterMap fun
      | .str t => some t
      | _ => none) = names := by
  induction names with
  | nil => rfl
  | cons t names ih => exact congrArg (t :: ·) ih

theorem filterMap_obj (rows : List Fields) :
    ((rows.map Json.obj).filterMap fun
      | .obj row => some row
      | _ => none) = rows := by
  induction rows with
  | nil => rfl
  | cons row rows ih => exact congrArg (row :: ·) ih

/-- The value that `write_jen_export` writes. -/
def exportOf (code : Code) (tables : Tables) (stamp : Stamp) (versions : List (String × Option String))
    (binary : List (String × List String)) : Json :=
  .obj [("data", .obj (dataOf tables (snapshotTables code tables))),
    ("_meta", .obj [("jen_export_version", .int SCHEMA_VERSION), ("jen_app_version", .str stamp.appVersion),
      ("database", .str "jen"), ("exported_at", .str stamp.exportedAt),
      ("tables", texts (snapshotTables code tables)),
      ("row_counts", .obj (rowCounts (dataOf tables (snapshotTables code tables)))), ("format", .int EXPORT_FORMAT),
      ("binary_columns", .obj (binary.map fun x => (x.1, texts x.2))),
      ("plugin_tables", .obj (pluginTablesMeta code versions (ownedIn code tables)))])]

/-- An export that is read again describes the tables. -/
theorem describes_of_parse {stamp : Stamp} {versions : List (String × Option String)}
    {binary : List (String × List String)} {file : File}
    (h : parseImportFile (some (exportOf code tables stamp versions binary)) = .ok file) :
    Describes code tables file := by
  obtain rfl := eq_of_parse h
  constructor
  · rfl
  · show (dataOf _ _).map Prod.fst = _
    unfold dataOf
    rw [List.map_map]
    exact List.map_id _
  · intro t ht
    show (lookup t (dataOf _ _)).map _ = _
    rw [lookup_dataOf ht]
    show some ((((rowsIn tables t).map fun row => Json.obj (cleanRow row))).filterMap _) = _
    have hmap : ((rowsIn tables t).map fun row => Json.obj (cleanRow row)) =
        ((rowsIn tables t).map cleanRow).map Json.obj := (List.map_map).symm
    rw [hmap]
    exact congrArg some (filterMap_obj _)
  · show List.map _ (pluginTablesMeta _ _ _) = _
    unfold pluginTablesMeta
    rw [List.map_map]
    have hentry : ∀ x ∈ (ownedIn code tables).filter fun x => x.2 ≠ [],
        ((fun y : String × Json => (y.1, File.tablesOf y.2)) ∘ fun x : String × List String =>
          (x.1, Json.obj [("version", versionOf code versions x.1), ("tables", texts x.2)])) x = x := by
      intro x _
      exact Prod.ext rfl (filterMap_str x.2)
    rw [List.map_congr_left hentry]
    exact List.map_id _

/-! ## The statements of an export -/

-- what the environment may decide
variable {A : (Statement → Decision) → Prop}

/-- A statement that answers has done what it does, or has raised. -/
theorem does_try {s : Statement} {Q : s.Answer → World → Prop} {w : World}
    (h : ∀ d a, (effect db code s d w).1 = .ok a → Q a (effect db code s d w).2) :
    (ask s).Does True (Prog.under (handle db code) A) Q w := by
  refine Prog.does_call fun ⟨f, hf⟩ => ?_
  have hhandle : Prog.under (handle db code) A s ⟨f, hf⟩ w = handle db code s f w := rfl
  rw [hhandle]
  unfold handle
  cases (f s).error with
  | none =>
    dsimp only
    cases ha : (effect db code s (f s) w).1 with
    | error e => exact Prog.does_raise trivial
    | ok a => exact h (f s) a ha
  | some e => exact Prog.does_raise trivial

/-- A statement that only reads, and what follows it. -/
theorem does_read {α : Type} {s : Statement} {k : s.Answer → Run α} {Q : α → World → Prop} {w : World}
    {P : s.Answer → Prop} (hread : ∀ d a, (effect db code s d w).1 = .ok a → P a ∧ (effect db code s d w).2 = w)
    (h : ∀ a, P a → (k a).Does True (Prog.under (handle db code) A) Q w) :
    (ask s >>= k).Does True (Prog.under (handle db code) A) Q w := by
  refine Prog.Does.bind (Q := fun a w' => P a ∧ w' = w) (does_try hread) ?_
  rintro a w' ⟨ha, rfl⟩
  exact h a ha

/-- The tables, with no transaction open. -/
abbrev idle (tables : Tables) : World := ⟨tables, none⟩

/-- What a table's existence leads to. -/
theorem does_exists {α : Type} {t : String} {k : Bool → Run α} {Q : α → World → Prop}
    (h : (k (tables t).isSome).Does True (Prog.under (handle db code) A) Q (idle tables)) :
    (ask (.tableExists none t) >>= k).Does True (Prog.under (handle db code) A) Q (idle tables) := by
  refine does_read (P := fun there => there = (tables t).isSome)
    (fun _ there hthere => ⟨(Except.ok.inj hthere).symm, rfl⟩) ?_
  rintro there rfl
  exact h

theorem does_existingTables (names : List String) :
    (existingTables names).Does True (Prog.under (handle db code) A)
      (fun found w => found = existingIn tables names ∧ w = idle tables) (idle tables) := by
  have hfold : names.foldl (fun found t => if (tables t).isSome then found ++ [t] else found) [] =
      existingIn tables names := by
    unfold existingIn
    rw [← List.foldl_filter, List.foldl_append_eq_append, List.nil_append, ← List.flatMap_def,
      List.flatMap_singleton']
  unfold existingTables
  rw [← hfold]
  refine Prog.does_foldl fun t found => does_exists ?_
  split_ifs
  · exact Prog.does_pure ⟨rfl, rfl⟩
  · exact Prog.does_pure ⟨rfl, rfl⟩

theorem does_addRecorded (x : String × String) (o : Owned) :
    (addRecorded x o).Does True (Prog.under (handle db code) A)
      (fun o' w => o' = addRecordedIn tables o x ∧ w = idle tables) (idle tables) := by
  unfold addRecorded addRecordedIn
  split_ifs with htaken hthere
  · exact Prog.does_pure ⟨rfl, rfl⟩
  · refine does_exists ?_
    rw [if_pos hthere]
    exact Prog.does_pure ⟨rfl, rfl⟩
  · refine does_exists ?_
    rw [if_neg hthere]
    exact Prog.does_pure ⟨rfl, rfl⟩

/-- `_existing_owned_tables` gives the tables of the plugins that there are. -/
theorem does_existingOwnedTables :
    (existingOwnedTables code).Does True (Prog.under (handle db code) A)
      (fun owned w => owned = ownedIn code tables ∧ w = idle tables) (idle tables) := by
  have hfound : code.allOwnedTables.foldl (fun found x => found ++ [(x.1, existingIn tables x.2)]) [] =
      foundIn code tables := by
    unfold foundIn
    rw [List.foldl_append_eq_append, List.nil_append, ← List.flatMap_def, ← List.map_eq_flatMap]
  unfold existingOwnedTables
  refine Prog.Does.bind (Prog.does_foldl (g := fun found x => found ++ [(x.1, existingIn tables x.2)]) ?_) ?_
  · intro x found
    refine Prog.Does.bind (does_existingTables x.2) ?_
    rintro existing w ⟨rfl, rfl⟩
    exact Prog.does_pure ⟨rfl, rfl⟩
  rintro found w ⟨rfl, rfl⟩
  rw [hfound]
  unfold ownedIn
  refine does_exists ?_
  split_ifs
  · refine does_read (P := fun recorded => recorded = recordedIn tables)
      (fun _ recorded hrecorded => ⟨(Except.ok.inj hrecorded).symm, rfl⟩) ?_
    rintro recorded rfl
    refine Prog.Does.bind (Prog.does_foldl fun x o => does_addRecorded x o) ?_
    rintro o w ⟨rfl, rfl⟩
    exact Prog.does_pure ⟨rfl, rfl⟩
  · exact Prog.does_pure ⟨rfl, rfl⟩

/-- A table is exported with its rows, or as empty where it does not exist. -/
theorem does_streamTable (t : String) (data : Fields) :
    (streamTable t data).Does True (Prog.under (handle db code) A)
      (fun data' w => data' = data ++ [(t, .arr ((rowsIn tables t).map fun row => .obj (cleanRow row)))] ∧
        w = idle tables) (idle tables) := by
  unfold streamTable
  refine does_exists ?_
  split_ifs with hthere
  · refine does_read (P := fun rows => rows = rowsIn tables t) (fun d rows hrows => ?_) ?_
    · obtain ⟨table, htable⟩ := Option.isSome_iff_exists.mp hthere
      have hview : (idle tables).view t = some table := htable
      simp only [effect, hview] at hrows ⊢
      refine ⟨?_, trivial⟩
      unfold rowsIn
      rw [htable]
      exact (Except.ok.inj hrows).symm
    · rintro rows rfl
      exact Prog.does_pure ⟨rfl, rfl⟩
  · refine Prog.does_pure ⟨?_, rfl⟩
    unfold rowsIn
    rw [Option.not_isSome_iff_eq_none.mp hthere]
    rfl

/-! ## A snapshot -/

/-- A statement of a kind that only sets how the connection stands. -/
theorem does_quiet {α : Type} {s : Statement} {k : s.Answer → Run α} {Q : α → World → Prop} {w w' : World}
    (hs : ∀ d, (effect db code s d w).2 = w') (h : ∀ a, (k a).Does True (Prog.under (handle db code) A) Q w') :
    (ask s >>= k).Does True (Prog.under (handle db code) A) Q w := by
  refine Prog.Does.bind (Q := fun _ v => v = w') (does_try fun d _ _ => hs d) ?_
  rintro a v rfl
  exact h a

/-- What a program does is done before the connection is closed. -/
theorem does_thenClose {α : Type} {p : Run α} {Q Q' : α → World → Prop} {w : World}
    (hp : p.Does True (Prog.under (handle db code) A) Q w) (h : ∀ a v, Q a v → Q' a (idle v.tables)) :
    (Restore.thenClose p).Does True (Prog.under (handle db code) A) Q' w := by
  unfold Restore.thenClose
  refine Prog.Does.bind hp.attempt ?_
  rintro (e | a) v hv
  · exact does_quiet (fun _ => rfl) fun _ => Prog.does_raise trivial
  · exact does_quiet (fun _ => rfl) fun _ => Prog.does_pure (h a v hv)

/-- The notice is marked as seen, at most. -/
theorem does_notice (plugins : Fields) :
    (notice plugins).Does True (Prog.under (handle db code) A) (fun _ w => w = idle tables ∨ w = idle (noted tables))
      (idle tables) := by
  unfold notice
  split_ifs
  · exact Prog.does_pure (.inl rfl)
  · refine Prog.Does.bind (Q := fun _ w => w = idle tables ∨ w = idle (noted tables)) ?_
      fun _ _ h => Prog.does_pure h
    refine Prog.does_call fun ⟨f, hf⟩ => ?_
    have hhandle : Prog.under (handle db code) A .noteSeen ⟨f, hf⟩ (idle tables) =
        handle db code .noteSeen f (idle tables) := rfl
    rw [hhandle]
    have hnoted : (idle tables).edit "settings" noticeRows = idle (noted tables) :=
      congrArg (World.mk _) (World.edit_pending _ _ _)
    have hstate : (handle db code .noteSeen f (idle tables)).2 = idle tables ∨
        (handle db code .noteSeen f (idle tables)).2 = idle (noted tables) := by
      unfold handle
      split
      · exact .inr hnoted
      · dsimp only
        split_ifs
        · exact .inr hnoted
        · exact .inl rfl
    cases (handle db code .noteSeen f (idle tables)).1 with
    | ok a => exact hstate
    | error e => exact hstate

/-- The export is of the tables; at most the notice is marked as seen. -/
def Exported (code : Code) (tables : Tables) (stamp : Stamp) (payload : Json) (w : World) : Prop :=
  (∃ versions binary, payload = exportOf code tables stamp versions binary) ∧
    (w = idle tables ∨ w = idle (noted tables))

theorem does_exportBody (stamp : Stamp) :
    (exportBody code stamp).Does True (Prog.under (handle db code) A) (Exported code tables stamp) (idle tables) := by
  have hdata : (snapshotTables code tables).foldl (fun data t => data ++
      [(t, Json.arr ((rowsIn tables t).map fun row => .obj (cleanRow row)))]) [] =
      dataOf tables (snapshotTables code tables) := by
    rw [List.foldl_append_eq_append, List.nil_append, ← List.flatMap_def, ← List.map_eq_flatMap]
    rfl
  unfold exportBody
  refine Prog.Does.bind does_existingOwnedTables ?_
  rintro owned w ⟨rfl, rfl⟩
  unfold exportOwned
  refine does_quiet (fun _ => rfl) fun _ => ?_
  refine Prog.Does.bind (Prog.does_foldl fun t data => does_streamTable t data) ?_
  rintro data w ⟨hfold, rfl⟩
  obtain rfl := hfold.trans hdata
  refine does_quiet (fun _ => rfl) fun binary => does_quiet (fun _ => rfl) fun versions => ?_
  refine Prog.Does.bind (does_notice _) fun _ w hw => ?_
  refine does_quiet (fun _ => rfl) fun _ => Prog.does_pure ⟨⟨versions, binary, rfl⟩, hw⟩

theorem does_writeJenExport (stamp : Stamp) {w : World} :
    (writeJenExport code stamp).Does True (Prog.under (handle db code) A) (Exported code w.tables stamp) w := by
  have hclosed : (Restore.thenClose (exportBody code stamp)).Does True (Prog.under (handle db code) A)
      (Exported code w.tables stamp) (idle w.tables) := by
    refine does_thenClose (does_exportBody stamp) ?_
    rintro payload v ⟨hpayload, rfl | rfl⟩
    · exact ⟨hpayload, .inl rfl⟩
    · exact ⟨hpayload, .inr rfl⟩
  unfold writeJenExport
  refine does_quiet (fun _ => rfl) fun _ => ?_
  refine Prog.Does.bind hclosed fun payload w' h => ?_
  exact does_quiet (fun _ => rfl) fun _ => Prog.does_pure h

/-- What a snapshot shows of the tables. -/
structure Snapshot.Shows (snap : Snapshot) (code : Code) (tables : Tables) : Prop where
  file : ∀ file, parseImportFile (some snap.payload) = .ok file → Describes code tables file
  migrations : ∃ table, tables "plugin_schema_migrations" = some table ∧ snap.migrations = table.rows
  tables : ∀ t, snap.tables t = (tables t).isSome

/-- A snapshot shows the tables as they are. -/
theorem does_takePreImportSnapshot (stamp : Stamp) {w : World} :
    (takePreImportSnapshot code stamp).Does True (Prog.under (handle db code) A)
      (fun snap w' => snap.Shows code w.tables ∧ (w' = idle w.tables ∨ w' = idle (noted w.tables))) w := by
  unfold takePreImportSnapshot
  refine does_quiet (fun _ => rfl) fun _ => ?_
  refine Prog.Does.bind (does_writeJenExport stamp) ?_
  rintro payload v ⟨⟨versions, binary, rfl⟩, hv⟩
  have hsame : v.tables "plugin_schema_migrations" = w.tables "plugin_schema_migrations" ∧
      ∀ t, (v.tables t).isSome = (w.tables t).isSome := by
    rcases hv with rfl | rfl
    · exact ⟨rfl, fun _ => rfl⟩
    · exact ⟨noted_of_ne _ (by decide), noted_isSome _⟩
  have hidle : v = idle v.tables := by rcases hv with rfl | rfl <;> rfl
  refine does_quiet (fun _ => hidle.symm) fun _ => ?_
  refine does_thenClose (Q := fun snap v' => snap.Shows code w.tables ∧ v' = v) ?_ ?_
  · refine does_read (P := fun migrations => ∃ table, w.tables "plugin_schema_migrations" = some table ∧
      migrations = table.rows) (fun d migrations hanswer => ?_) fun migrations hmigrations => ?_
    · have hview : v.view = v.tables := by rw [hidle]; rfl
      cases htable : w.tables "plugin_schema_migrations" with
      | none =>
        rw [effect, hview, hsame.1, htable] at hanswer
        cases hanswer
      | some table =>
        simp only [effect, hview, hsame.1, htable] at hanswer ⊢
        exact ⟨⟨table, rfl, (Except.ok.inj hanswer).symm⟩, trivial⟩
    refine does_read (P := fun names => ∀ t, names t = (w.tables t).isSome) (fun d names hnames => ⟨fun t => ?_, rfl⟩)
      fun names hnames => ?_
    · have hview : v.view = v.tables := by rw [hidle]; rfl
      obtain rfl := Except.ok.inj hnames
      show (v.view t).isSome = _
      rw [hview]
      exact hsame.2 t
    refine Prog.does_pure ⟨⟨fun file hfile => describes_of_parse hfile, hmigrations, hnames⟩, rfl⟩
  · rintro snap v' ⟨hsnap, rfl⟩
    exact ⟨hsnap, by rw [← hidle]; exact hv⟩

end JenKea.Export
