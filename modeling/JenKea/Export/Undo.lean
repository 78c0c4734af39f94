import JenKea.Export.RollBack

/-!
# A guarded import undoes itself

`import_jen_guarded` takes a snapshot, imports, and goes back where that failed. What the snapshot reads is what
there is (`kept_takePreImportSnapshot`), what the import changes is what it is about (`changed_importJen`), and a
refusal comes before the first statement (`refused_importJen`). An import that was rolled back has left nothing
(`undone_importJenGuarded`) where the way back meets no failing plugin and changes no record.
-/

namespace JenKea.Export

open Json (Fields lookup)

variable {db : MySql} {code : Code} {tables p : Tables}

/-! ## The snapshot writes nothing but its notice -/

/-- A statement that writes no table, or marks the notice as seen, where it may. -/
def Statement.Quiet (noting : Prop) : Statement → Prop
  | .connect | .close | .tableExists _ _ | .rows _ | .binaryMap _ | .recordedTables | .pluginVersions
  | .migrationRows | .tableNames | .files => True
  | .noteSeen => noting
  | _ => False

variable {noting : Prop}

theorem quiet_handle (hnoting : noting → noted tables = tables) {s : Statement} (hs : s.Quiet noting)
    (f : Statement → Decision) {w : World} (hw : w.tables = tables) : (handle db code s f w).2.tables = tables := by
  have heffect : (effect db code s (f s) w).2.tables = tables := by
    cases s with
    | connect | close | tableExists | binaryMap | recordedTables | pluginVersions | tableNames | files => exact hw
    | rows t => cases hview : w.view t <;> simpa only [effect, hview] using hw
    | migrationRows => cases hview : w.view "plugin_schema_migrations" <;> simpa only [effect, hview] using hw
    | noteSeen =>
      have hsame : (w.edit "settings" noticeRows).tables = noted w.tables := by
        funext t
        rw [World.edit_tables, noted_apply]
      show (w.edit "settings" noticeRows).tables = tables
      rw [hsame, hw]
      exact hnoting hs
    | _ => exact hs.elim
  unfold handle
  split
  · exact heffect
  · dsimp only
    split_ifs
    · exact heffect
    · exact hw

theorem quiet_ask {s : Statement} (hs : s.Quiet noting) : (ask s).Within (Statement.Quiet noting) fun _ => True := by
  refine ⟨hs, fun answer => ?_⟩
  cases answer <;> exact trivial

theorem quiet_thenClose {α : Type} {q : Run α} (hq : q.Within (Statement.Quiet noting) fun _ => True) :
    (Restore.thenClose q).Within (Statement.Quiet noting) fun _ => True := by
  unfold Restore.thenClose
  refine Prog.Within.bind (within_attempt hq) fun r _ => ?_
  refine Prog.Within.bind (quiet_ask trivial) fun _ _ => ?_
  exact (Prog.within_ofExcept _).mpr fun _ _ => trivial

theorem quiet_existingOwnedTables : (existingOwnedTables code).Within (Statement.Quiet noting) fun _ => True := by
  unfold existingOwnedTables
  refine Prog.Within.bind (Prog.Within.fold (fun x _ found => ?_) _) fun found _ => ?_
  · refine Prog.Within.bind (P := fun _ => True) ?_ fun _ _ => trivial
    unfold existingTables
    refine Prog.Within.fold (fun t _ found => ?_) _
    refine Prog.Within.bind (quiet_ask trivial) fun there _ => ?_
    split_ifs <;> exact trivial
  refine Prog.Within.bind (quiet_ask trivial) fun there _ => ?_
  split_ifs
  · refine Prog.Within.bind (quiet_ask trivial) fun recorded _ => ?_
    refine Prog.Within.bind (Prog.Within.fold (fun x _ o => ?_) _) fun _ _ => trivial
    unfold addRecorded
    split_ifs
    · exact trivial
    · refine Prog.Within.bind (quiet_ask trivial) fun there _ => ?_
      split_ifs <;> exact trivial
  · exact trivial

/-- The export of the tables of these plugins marks the notice only where there is a plugin's table. -/
theorem quiet_exportOwned (stamp : Stamp) {owned : List (String × List String)}
    (howned : noting ∨ owned.filter (fun x => x.2 ≠ []) = []) :
    (exportOwned code stamp owned).Within (Statement.Quiet noting) fun _ => True := by
  unfold exportOwned
  refine Prog.Within.bind (quiet_ask trivial) fun _ _ => ?_
  refine Prog.Within.bind (Prog.Within.fold (fun t _ data => ?_) _) fun data _ => ?_
  · unfold streamTable
    refine Prog.Within.bind (quiet_ask trivial) fun there _ => ?_
    split_ifs
    · exact Prog.Within.bind (quiet_ask trivial) fun _ _ => trivial
    · exact trivial
  refine Prog.Within.bind (quiet_ask trivial) fun binary _ => ?_
  refine Prog.Within.bind (quiet_ask trivial) fun versions _ => ?_
  refine Prog.Within.bind (P := fun _ => True) ?_ fun _ _ => Prog.Within.bind (quiet_ask trivial) fun _ _ => trivial
  unfold notice
  split_ifs with hnil
  · exact trivial
  · have hnoting : noting := howned.resolve_right fun hempty => hnil (by rw [pluginTablesMeta, hempty]; rfl)
    exact Prog.Within.bind (within_attempt (quiet_ask hnoting)) fun _ _ => trivial

section

variable {A : (Statement → Decision) → Prop}

/-- Statements that are quiet leave the tables as they are. -/
theorem kept_of_quiet (noting : Prop) {ε α : Type} {q : Prog Db ε α} (hnoting : noting → noted tables = tables)
    (hq : q.Within (Statement.Quiet noting) fun _ => True) {w : World} (hw : w.tables = tables) :
    q.wp (Prog.under (handle db code) A) (fun _ => True) (fun _ v => v.tables = tables) w := by
  refine Prog.wp_forget (Prog.wp_mono (fun _ _ h => h.1) (hq.wp (J := fun v => v.tables = tables) ?_ hw))
  exact fun s hs f v hv => quiet_handle hnoting hs f.1 hv

/-- The notice is marked as seen already, or there is no plugin's table. -/
def Noticed (code : Code) (tables : Tables) : Prop :=
  noted tables = tables ∨ (ownedIn code tables).filter (fun x => x.2 ≠ []) = []

theorem kept_exportBody (hnoticed : Noticed code tables) (stamp : Stamp) :
    (exportBody code stamp).wp (Prog.under (handle db code) A) (fun _ => True) (fun _ v => v.tables = tables)
      (idle tables) := by
  have hread : (existingOwnedTables code).wp (Prog.under (handle db code) A) (fun _ => True)
      (fun _ v => v.tables = tables) (idle tables) := kept_of_quiet False False.elim quiet_existingOwnedTables rfl
  have hfound : (existingOwnedTables code).Does True (Prog.under (handle db code) A)
      (fun owned w => owned = ownedIn code tables ∧ w = idle tables) (idle tables) := does_existingOwnedTables
  refine (Prog.wp_bind _ _ _).mpr (Prog.wp_forget (Prog.wp_mono ?_ (Prog.wp_and hread hfound)))
  rintro (e | owned) w ⟨hw, howned⟩
  · exact hw
  · obtain ⟨rfl, -⟩ := howned
    rcases hnoticed with hnoted | hempty
    · exact kept_of_quiet True (fun _ => hnoted) (quiet_exportOwned stamp (.inl trivial)) hw
    · exact kept_of_quiet False False.elim (quiet_exportOwned stamp (.inr hempty)) hw

/-- What follows one part of a program that keeps the tables. -/
theorem kept_bind {α β : Type} {q : Run α} {f : α → Run β} {w : World}
    (hq : q.wp (Prog.under (handle db code) A) (fun _ => True) (fun _ v => v.tables = tables) w)
    (hf : ∀ a v, v.tables = tables →
      (f a).wp (Prog.under (handle db code) A) (fun _ => True) (fun _ v => v.tables = tables) v) :
    (q >>= f).wp (Prog.under (handle db code) A) (fun _ => True) (fun _ v => v.tables = tables) w := by
  refine (Prog.wp_bind _ _ _).mpr (Prog.wp_mono ?_ hq)
  rintro (e | a) v hv
  · exact hv
  · exact hf a v hv

theorem kept_quiet {s : Statement} (hs : s.Quiet False) {w : World} (hw : w.tables = tables) :
    (ask s).wp (Prog.under (handle db code) A) (fun _ => True) (fun _ v => v.tables = tables) w :=
  kept_of_quiet False False.elim (quiet_ask hs) hw

/-- A quiet statement that leaves no transaction open, and what follows it. -/
theorem kept_idle {α : Type} {s : Statement} {k : s.Answer → Run α} (hs : s.Quiet False)
    (hidle : ∀ d, (effect db code s d (idle tables)).2 = idle tables)
    (hk : ∀ a, (k a).wp (Prog.under (handle db code) A) (fun _ => True) (fun _ v => v.tables = tables)
      (idle tables)) :
    (ask s >>= k).wp (Prog.under (handle db code) A) (fun _ => True) (fun _ v => v.tables = tables)
      (idle tables) := by
  have hdoes : (ask s).Does True (Prog.under (handle db code) A) (fun _ v => v = idle tables) (idle tables) :=
    does_try fun d _ _ => hidle d
  refine (Prog.wp_bind _ _ _).mpr (Prog.wp_forget (Prog.wp_mono ?_ (Prog.wp_and (kept_quiet hs rfl) hdoes)))
  rintro (e | a) v ⟨hv, hsame⟩
  · exact hv
  · obtain rfl := hsame
    exact hk a

/-- A snapshot writes no table, where the notice needs no mark. -/
theorem kept_takePreImportSnapshot (hnoticed : Noticed code tables) (stamp : Stamp) :
    (takePreImportSnapshot code stamp).wp (Prog.under (handle db code) A) (fun _ => True)
      (fun _ v => v.tables = tables) (idle tables) := by
  have hbody : (Restore.thenClose (exportBody code stamp)).wp (Prog.under (handle db code) A) (fun _ => True)
      (fun _ v => v.tables = tables) (idle tables) := by
    unfold Restore.thenClose
    refine kept_bind (Prog.wp_attempt.mpr (kept_exportBody hnoticed stamp)) fun r v hv => ?_
    refine kept_bind (kept_quiet (s := .close) trivial hv) fun _ v hv => ?_
    exact (Prog.wp_ofExcept _ _).mpr hv
  have hexport : (writeJenExport code stamp).wp (Prog.under (handle db code) A) (fun _ => True)
      (fun _ v => v.tables = tables) (idle tables) := by
    unfold writeJenExport
    refine kept_idle trivial (fun _ => rfl) fun _ => kept_bind hbody fun payload v hv => ?_
    exact kept_bind (kept_quiet (s := .files) trivial hv) fun _ v hv => hv
  unfold takePreImportSnapshot
  refine kept_idle trivial (fun _ => rfl) fun _ => kept_bind hexport fun payload v hv => ?_
  refine kept_bind (kept_quiet (s := .connect) trivial hv) fun _ v hv => ?_
  refine kept_of_quiet False False.elim (quiet_thenClose ?_) hv
  refine Prog.Within.bind (quiet_ask trivial) fun migrations _ => ?_
  exact Prog.Within.bind (quiet_ask trivial) fun names _ => trivial

/-! ## A refusal comes first -/

/-- No statement fails with a refusal. -/
theorem spares_ask (s : Statement) : (ask s).Spares fun e => e.isRefusal = true := by
  rintro e ⟨answer, h⟩
  cases answer with
  | ok a => cases h
  | error text =>
    obtain rfl := Except.error.inj h
    exact Bool.false_ne_true

theorem spares_thenClose {α : Type} {q : Run α} (hq : q.Spares fun e => e.isRefusal = true) :
    (Restore.thenClose q).Spares fun e => e.isRefusal = true := by
  intro e h
  unfold Restore.thenClose at h
  rcases Prog.returns_bind.mp h with ⟨e', -, h⟩ | ⟨r, hr, h⟩
  · exact absurd h (by intro h; obtain ⟨r, hr, -⟩ := Prog.returns_attempt.mp h; cases hr)
  · rcases Prog.returns_bind.mp h with ⟨e', he, h⟩ | ⟨_, -, h⟩
    · exact Except.error.inj he ▸ spares_ask _ e' h
    · obtain ⟨r', hr', h'⟩ := Prog.returns_attempt.mp hr
      obtain rfl := Except.ok.inj hr'
      exact hq e (((Prog.returns_ofExcept _).mp h).symm ▸ h')

theorem spares_importTables {r : Restore} (plugin : Option String) (names results : List String) :
    (r.importTables plugin names results).Spares fun e => e.isRefusal = true := by
  induction names generalizing results with
  | nil => exact Prog.spares_pure _
  | cons t names ih =>
    unfold Restore.importTables
    refine Prog.Spares.bind Prog.spares_attempt fun x => ?_
    cases x with
    | ok line => exact ih _
    | error e => exact Prog.spares_pure _

theorem spares_importPlugin {r : Restore} (x : String × List String) (o : Restore.Outcome) :
    (r.importPlugin x o).Spares fun e => e.isRefusal = true := by
  unfold Restore.importPlugin Restore.importPluginRows
  dsimp only
  split_ifs
  · exact Prog.spares_pure _
  · refine Prog.Spares.bind (Prog.Spares.bind Prog.spares_attempt fun y => ?_) fun y => ?_
    · cases y with
      | error e => exact Prog.spares_pure _
      | ok _ =>
        refine Prog.Spares.bind ?_ fun z => ?_
        · exact spares_importTables _ _ _
        · obtain ⟨results, failed⟩ := z
          cases failed with
          | some failed => exact Prog.spares_pure _
          | none =>
            refine Prog.Spares.bind Prog.spares_attempt fun z => ?_
            cases z <;> exact Prog.spares_pure _
    · obtain ⟨results, failed⟩ := y
      cases failed with
      | none => exact Prog.spares_pure _
      | some failed => exact Prog.Spares.bind (spares_ask _) fun _ => Prog.spares_pure _

/-- An import that has sent a statement raises no refusal. -/
theorem spares_run {r : Restore} (hr : r.refusal = []) : r.run.Spares fun e => e.isRefusal = true := by
  unfold Restore.run
  rw [hr]
  dsimp only
  refine Prog.Spares.bind (spares_ask _) fun _ => ?_
  refine Prog.Spares.bind ?_ fun results => ?_
  · unfold Restore.importCoreOrRollBack
    refine Prog.Spares.handle fun e => ?_
    refine Prog.Spares.bind (spares_ask _) fun _ => Prog.Spares.bind (spares_ask _) fun _ => ?_
    exact Prog.spares_raise Bool.false_ne_true
  refine Prog.Spares.bind (spares_thenClose (Prog.Spares.fold (fun x o => ?_) _ _)) fun o => ?_
  · unfold Restore.restorePlugin Restore.replayPlugin
    dsimp only
    split_ifs
    · exact Prog.spares_pure _
    · cases r.code.manifest x.1 with
      | none => exact Prog.spares_pure _
      | some m =>
        refine Prog.Spares.bind (spares_ask _) fun _ => Prog.Spares.bind (spares_ask _) fun y => ?_
        obtain ⟨ok, message⟩ := y
        cases ok with
        | true => exact spares_importPlugin x o
        | false => exact Prog.spares_pure _
  refine Prog.Spares.bind (spares_ask _) fun _ => ?_
  refine Prog.Spares.bind (spares_thenClose ?_) fun violations => ?_
  · unfold Restore.pluginInvariantViolations
    refine Prog.Spares.bind (spares_ask _) fun plugins => Prog.Spares.fold (fun plugin missing => ?_) _ _
    refine Prog.Spares.fold (fun t missing => ?_) _ _
    refine Prog.Spares.bind (spares_ask _) fun there => ?_
    split_ifs <;> exact Prog.spares_pure _
  · unfold Restore.finish
    split_ifs
    · exact Prog.spares_raise Bool.false_ne_true
    · exact Prog.spares_pure _

/-- An import that is refused has done nothing. -/
theorem refused_importJen {payload : Option Json} {tablesToRestore : List String} {truncate strict : Bool}
    {strictPlugins : Option Bool} {w : World} :
    (importJen code payload tablesToRestore truncate strict strictPlugins).wp (Prog.under (handle db code) A)
      (fun _ => True) (fun r v => ∀ e, r = .error e → e.isRefusal = true → v = w) w := by
  unfold importJen
  split
  · exact fun _ _ _ => rfl
  · split_ifs
    · exact fun _ _ _ => rfl
    · rename_i file hfile hdatabase
      cases hrefusal : Restore.refusal ⟨code, file, tablesToRestore, truncate, strict, strictPlugins.getD strict⟩ with
      | cons refused more =>
        unfold Restore.run
        rw [hrefusal]
        exact fun _ _ _ => rfl
      | nil =>
        refine Prog.wp_mono ?_ (Prog.wp_returns _)
        rintro result v hresult e rfl hrefused
        exact absurd hrefused (spares_run hrefusal e hresult)

end

/-! ## The guarded import -/

/-- What an import must meet for its rollback to be exact: the way back can undo it, the file lists for no
plugin whose code is there a table that the snapshot has of a plugin whose code is gone, and the notice needs
no mark. -/
structure Reversible (db : MySql) (code : Code) (tables : Tables) (payload : Option Json) : Prop
    extends Undoable db code tables where
  listed : ∀ file, parseImportFile payload = .ok file → ∀ x ∈ file.pluginTables, code.manifest x.1 ≠ none →
    ∀ t ∈ x.2, ∀ y ∈ ownedIn code tables, t ∈ y.2 → code.manifest y.1 ≠ none
  noticed : Noticed code tables

section

variable {A : (Statement → Decision) → Prop} {payload : Option Json}

/-- What the failed import was about. -/
def Reached (code : Code) (payload : Option Json) (t : String) : Prop :=
  t ∈ JEN_TABLES ∨ (∃ plugin, t ∈ code.ownedTables plugin) ∨
    ∃ file, parseImportFile payload = .ok file ∧ ∃ x ∈ file.pluginTables, code.manifest x.1 ≠ none ∧ t ∈ x.2

/-- A table of the snapshot that the way back does not fill was not reached. -/
theorem left_of_changes (h : Reversible db code tables payload)
    (hp : Change code (Reached code payload) tables p) : Left code tables p := by
  have haccounts : Accounts code tables (ownedIn code tables) := ownedIn_accounts h.sound
  refine ⟨fun t => (hp t).imp_right fun hchanged => ⟨trivial, hchanged.2⟩, fun t ht hcore hnone => hp.same ?_⟩
  obtain ⟨y, hy, hyt⟩ := List.mem_flatMap.mp ((List.mem_append.mp ht).resolve_left hcore)
  -- the plugin that the snapshot has it of has no code
  have hgone : code.manifest y.1 = none := by
    by_contra hmanifest
    have hmem : y ∈ (ownedIn code tables).filter fun x => x.2 ≠ [] :=
      List.mem_filter.mpr ⟨hy, decide_eq_true (List.ne_nil_of_mem hyt)⟩
    refine hnone y ?_ hmanifest hyt
    unfold replayed
    rw [if_neg (List.ne_nil_of_mem hmem)]
    exact hmem
  rintro (hjen | ⟨plugin, howned⟩ | ⟨file, hfile, x, hx, hmanifest, hxt⟩)
  · exact hcore hjen
  · exact haccounts.gone y hy t hyt hgone plugin howned
  · exact h.listed file hfile x hx hmanifest t hxt y hy hyt hgone

/-- What the import of the file touches was reached. -/
theorem reached_of_touches (hcode : code.Sound) {file : File} (hfile : parseImportFile payload = .ok file)
    {tablesToRestore : List String} {truncate strict strictPlugins : Bool} {t : String}
    (ht : Restore.Touches ⟨code, file, tablesToRestore, truncate, strict, strictPlugins⟩ t) :
    Reached code payload t := by
  rcases ht with hjen | howned | ⟨x, hx, hmanifest, ht⟩
  · exact .inl hjen
  · exact .inr (.inl howned)
  · unfold Restore.exportPlugins at hx
    dsimp only at hx
    split_ifs at hx
    · rw [((mem_allOwnedTables hcode).mp hx).2] at ht
      exact .inr (.inl ⟨x.1, ht⟩)
    · exact .inr (.inr ⟨file, hfile, x, hx, hmanifest, ht⟩)

/-- A snapshot is taken and the import is tried: what it leaves can be undone, and a refusal leaves nothing. -/
theorem tried (h : Reversible db code tables payload) (stamp : Stamp) (tablesToRestore : List String) :
    (tryImport code stamp payload tablesToRestore).wp (Prog.under (handle db code) A) (fun _ => True)
      (fun r v => match r with
        | .error e => e = .unchanged ∧ v.tables = tables
        | .ok x => x.1.Shows code tables ∧ Left code tables v.tables ∧
          ∀ e, x.2 = .error e → e.isRefusal = true → v.tables = tables) (idle tables) := by
  have hcovers : Covers code (Reached code payload) := ⟨fun _ ht => .inl ht, fun plugin _ ht => .inr (.inl ⟨plugin, ht⟩)⟩
  have hkept : (takePreImportSnapshot code stamp).wp (Prog.under (handle db code) A) (fun _ => True)
      (fun _ v => v.tables = tables) (idle tables) := kept_takePreImportSnapshot h.noticed stamp
  have hdoes : (takePreImportSnapshot code stamp).Does True (Prog.under (handle db code) A)
      (fun snap v => snap.Shows code tables ∧ (v = idle tables ∨ v = idle (noted tables))) (idle tables) :=
    does_takePreImportSnapshot stamp
  unfold tryImport
  refine (Prog.wp_bind _ _ _).mpr (Prog.wp_attempt.mpr (Prog.wp_forget (Prog.wp_mono ?_ (Prog.wp_and hkept hdoes))))
  rintro (e | snap) w ⟨hw, hshows⟩
  · exact ⟨rfl, hw⟩
  obtain ⟨hshows, hstate⟩ := hshows
  have hidle : w = idle tables := by
    rcases hstate with rfl | rfl
    · rfl
    · exact congrArg idle hw
  subst hidle
  have hchanges : (importJen code payload tablesToRestore true true none).wp (Prog.under (handle db code) A)
      (fun _ => True) (fun _ v => v.Changes code (Reached code payload) tables) (idle tables) :=
    changed_importJen hcovers (fun file hfile t ht => reached_of_touches h.sound hfile ht)
      ⟨Change.refl _ _ _, fun _ hq => by cases hq⟩
  have hrefused : (importJen code payload tablesToRestore true true none).wp (Prog.under (handle db code) A)
      (fun _ => True) (fun r v => ∀ e, r = .error e → e.isRefusal = true → v = idle tables) (idle tables) :=
    refused_importJen
  refine (Prog.wp_bind _ _ _).mpr (Prog.wp_attempt.mpr (Prog.wp_forget (Prog.wp_mono ?_
    (Prog.wp_and hchanges hrefused))))
  rintro result v ⟨hv, hnothing⟩
  refine ⟨hshows, left_of_changes h hv.1, fun e he hrefusal => ?_⟩
  rw [hnothing e he hrefusal]

/-- What follows a failed import that is no refusal: where no plugin fails, what it left is undone. -/
theorem undone_settle (h : Reversible db code tables payload) {snap : Snapshot} (hsnap : snap.Shows code tables)
    {w : World} (hleft : Left code tables w.tables) {e : ImportError} (he : e.isRefusal = false) :
    (settle code (snap, .error e)).wp (healthy db code) (fun _ => True)
      (fun r v => (r = .error .rolledBack ∧ Undone code tables v.tables) ∨ r = .error .rollbackFailed) w := by
  have hback : (rollBackTo code snap).Does True (healthy db code)
      (fun _ v => ∃ q, v = idle q ∧ Undone code tables q) w := does_rollBackTo h.toUndoable hsnap hleft
  unfold settle
  dsimp only
  rw [if_neg (by rw [he]; exact Bool.false_ne_true)]
  refine (Prog.wp_bind _ _ _).mpr (Prog.wp_attempt.mpr (Prog.wp_mono ?_ hback))
  rintro (e' | u) v hv
  · exact .inr rfl
  · obtain ⟨q, rfl, hq⟩ := hv
    exact .inl ⟨rfl, hq⟩

end

/-! ## An import that is not undone -/

/-- A file whose only table has a column that the database does not know. -/
def strangeFile : Json :=
  .obj [("_meta", .obj [("database", .str "jen")]), ("data", .obj [("users", .arr [.obj [("nick", .str "x")]])])]

/-- MySQL, of texts, whole numbers and bytes. -/
def plainMySql : MySql where
  store _ _
    | .json (.str s) => some (.text s)
    | .json (.int n) => some (.int n)
    | .bytes b => some (.bytes b)
    | .json _ => some .null
  binary _ _ := false
  default _ _ := .null

/-- The columns of Jen's tables that the migrations write. -/
def coreColumns (t : String) : List String :=
  if t = "plugin_tables" then
    ["plugin_id", "table_name", "first_seen_version", "code_installed", "retained", "recorded_at"]
  else if t = "plugin_schema_migrations" then ["plugin_id", "version", "description", "applied_at"]
  else if t = "settings" then ["setting_key", "setting_value"]
  else ["id"]

/-- A new install: Jen's tables are there, and no plugin was enabled. -/
def freshTables : Tables := fun t => if t ∈ JEN_TABLES then some ⟨coreColumns t, []⟩ else none

/-- A plugin was enabled, and its table recorded. -/
def usedTables : Tables := fun t =>
  if t = "plugin_tables" then
    some ⟨coreColumns t, [[("plugin_id", .text "wol"), ("table_name", .text "wol_hosts"),
      ("first_seen_version", .null), ("code_installed", .int 1), ("retained", .int 0), ("recorded_at", .null)]]⟩
  else if t = "settings" then
    some ⟨coreColumns t, [[("setting_key", .text "plugin_backup_notice_seen"), ("setting_value", .text "1")]]⟩
  else if t = "wol_hosts" then some ⟨["mac"], [[("mac", .text "02:00:00:00:00:01")]]⟩
  else freshTables t

theorem wolCode_sound : wolCode.Sound := by
  have hcode : ∀ plugin, wolCode.manifest plugin ≠ none → plugin = "wol" := by
    intro plugin h
    by_contra hne
    exact h (if_neg hne)
  have howned : ∀ plugin t, t ∈ wolCode.ownedTables plugin → plugin = "wol" := by
    intro plugin t ht
    refine hcode plugin fun hnone => ?_
    rw [ownedTables_of_none hnone] at ht
    exact List.not_mem_nil ht
  refine ⟨by decide, fun plugin h => ?_, fun plugin plugin' t h h' => ?_⟩
  · rw [hcode plugin h]
    exact List.mem_singleton_self _
  · rw [howned plugin t h, howned plugin' t h']

theorem reversible_usedTables : Reversible plainMySql wolCode usedTables (some strangeFile) := by
  have hstored : ∀ t ∈ snapshotTables wolCode usedTables,
      (usedTables t).all fun table => table.Sound plainMySql t := by decide
  have hreplayed : replayed wolCode usedTables = [("wol", ["wol_hosts"])] := by decide
  constructor
  · constructor
    · exact wolCode_sound
    · intro t ht table htable
      have hall := hstored t ht
      rw [htable] at hall
      exact of_decide_eq_true hall
    · intro x hx _ _ now
      rw [hreplayed] at hx
      obtain rfl := List.mem_singleton.mp hx
      rfl
  · intro file hfile x hx
    have hempty : file.pluginTables = [] := by
      obtain rfl := Except.ok.inj (hfile.symm.trans (rfl : parseImportFile (some strangeFile) = .ok _))
      rfl
    rw [hempty] at hx
    exact absurd hx List.not_mem_nil
  · refine .inl (funext fun t => ?_)
    rw [noted_apply]
    split_ifs with ht
    · rw [ht]
      rfl
    · rfl

end JenKea.Export
