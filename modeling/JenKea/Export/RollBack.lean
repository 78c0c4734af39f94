import JenKea.Export.Owners
import JenKea.Export.Untouched

/-!
# A guarded import that fails

`_roll_back_to` imports the snapshot, puts the migration rows back and removes the plugin tables that came to be.
The core tables are filled first (`does_importCore`), then the plugins one at a time, each after its migrations
ran again (`does_restorePlugins`), and what is left is put back (`does_putBack`). Where no plugin fails on the way
back, and running its migrations again changes no row of `plugin_tables`, the tables of the snapshot are as they
were (`rolled_back`).
-/

namespace JenKea.Export

open Json (Fields lookup)

variable {db : MySql} {code : Code} {tables p : Tables} {may may' : Prop}

/-- Some tables hold what the snapshot has. -/
def refill (tables : Tables) (names : List String) (p : Tables) : Tables := fun t =>
  if t ∈ names then tables t else p t

theorem refill_nil (tables p : Tables) : refill tables [] p = p := rfl

/-- A table that is there is filled, and then the others are. -/
theorem refill_update (tables : Tables) (t : String) (names : List String) (p : Tables) :
    refill tables names (Function.update p t (tables t)) = refill tables (t :: names) p := by
  funext u
  unfold refill
  rw [Function.update_apply]
  by_cases hu : u = t
  · subst hu
    rw [if_pos rfl, ite_self, if_pos List.mem_cons_self]
  · rw [if_neg hu]
    by_cases hmem : u ∈ names
    · rw [if_pos hmem, if_pos (List.mem_cons_of_mem t hmem)]
    · rw [if_neg hmem, if_neg fun h => hmem ((List.mem_cons.mp h).resolve_left hu)]

theorem Change.refill {touched : String → Prop} (h : Change code touched tables p) (names : List String) :
    Change code touched tables (refill tables names p) := by
  intro t
  unfold Export.refill
  split_ifs
  · exact .inl rfl
  · exact h t

/-! ## Several tables -/

section

variable {r : Restore} {plugin : Option String} {names : List String} {c : Tables}

/-- A table of the snapshot can be filled: it is there with its columns, or it was not there, and may not be
restored. -/
def Fillable (db : MySql) (may : Prop) (tables p : Tables) (t : String) : Prop :=
  (∃ table rows, tables t = some table ∧ table.Sound db t ∧ p t = some ⟨table.columns, rows⟩) ∨
    (may ∧ tables t = none ∧ p t = none)

/-- The tables are filled, one after the other. -/
theorem does_importTables (hmay : plugin = none → may) (htruncate : r.truncate = true) (hstrict : r.strict = true)
    (hrows : ∀ t ∈ names, r.file.rows? t = some ((rowsIn tables t).map cleanRow))
    (hfill : ∀ t ∈ names, Fillable db may tables p t) (results : List String) :
    (r.importTables plugin names results).Does may' (healthy db code)
      (fun x w => match x.2 with
        | none => w = during c (refill tables names p) ∧ ∀ t ∈ names, (tables t).isSome
        | some _ => may) (during c p) := by
  induction names generalizing p results with
  | nil => exact Prog.does_pure ⟨rfl, fun t ht => absurd ht List.not_mem_nil⟩
  | cons t names ih =>
    have ht := hrows t List.mem_cons_self
    have hone : (r.importRows plugin t).Does may (healthy db code)
        (fun _ w => w = during c (Function.update p t (tables t)) ∧ (tables t).isSome) (during c p) := by
      rcases hfill t List.mem_cons_self with ⟨table, rows, htable, hsound, hp⟩ | ⟨hfails, hnone, hp⟩
      · have hrow : r.file.rows? t = some (table.rows.map cleanRow) := by
          rw [ht, rowsIn, htable]
          rfl
        refine (does_importRows hmay htruncate hsound hrow hp rfl).mono ?_
        rintro line w rfl
        rw [htable]
        exact ⟨rfl, rfl⟩
      · -- a table that is not there is an error
        unfold Restore.importRows
        rw [ht]
        dsimp only
        refine does_ask_bind hmay fun f _ => ⟨false, ?_, ?_⟩
        · show Except.ok (p t).isSome = _
          rw [hp]
          rfl
        · rw [if_neg Bool.false_ne_true]
          unfold Restore.unrestorable
          rw [if_pos hstrict]
          exact Prog.does_raise hfails
    unfold Restore.importTables
    refine Prog.Does.bind hone.attempt ?_
    rintro (e | line) w hw
    · exact Prog.does_pure hw
    · obtain ⟨rfl, hthere⟩ := hw
      refine (ih (fun u hu => hrows u (List.mem_cons_of_mem t hu)) (fun u hu => ?_) _).mono ?_
      · rcases hfill u (List.mem_cons_of_mem t hu) with ⟨table, rows, htable, hsound, hp⟩ | ⟨hfails, hnone, hp⟩
        · by_cases heq : u = t
          · subst heq
            exact .inl ⟨table, table.rows, htable, hsound, by rw [Function.update_self, htable]⟩
          · exact .inl ⟨table, rows, htable, hsound, by rw [Function.update_of_ne heq, hp]⟩
        · refine .inr ⟨hfails, hnone, ?_⟩
          by_cases heq : u = t
          · subst heq
            rw [Function.update_self, hnone]
          · rw [Function.update_of_ne heq, hp]
      · rintro ⟨results', failed⟩ w hw
        cases failed with
        | some failed => exact hw
        | none =>
          refine ⟨hw.1.trans (congrArg _ (refill_update tables t names p)), fun u hu => ?_⟩
          rcases List.mem_cons.mp hu with rfl | hu
          · exact hthere
          · exact hw.2 u hu

end

/-! ## The snapshot is imported -/

/-- The plugins that the import of a snapshot is about. -/
def replayed (code : Code) (tables : Tables) : List (String × List String) :=
  if (ownedIn code tables).filter (fun x => x.2 ≠ []) = [] then code.allOwnedTables
  else (ownedIn code tables).filter fun x => x.2 ≠ []

/-- What the way back rests on: the code is in order, MySQL stores what was exported as it was, and running the
migrations of a plugin again changes no row of `plugin_tables`. -/
structure Undoable (db : MySql) (code : Code) (tables : Tables) : Prop where
  sound : code.Sound
  stored : ∀ t ∈ snapshotTables code tables, ∀ table, tables t = some table → table.Sound db t
  recorded : ∀ x ∈ replayed code tables, x.2 ≠ [] → code.manifest x.1 ≠ none → ∀ now,
    recordOwnedTables code x.1 now (rowsIn tables "plugin_tables") = rowsIn tables "plugin_tables"

/-- The import of a snapshot. -/
abbrev back (code : Code) (file : File) : Restore := ⟨code, file, [], true, true, false⟩

section

variable {file : File}

theorem exportPlugins_back (h : Describes code tables file) : (back code file).exportPlugins = replayed code tables := by
  unfold Restore.exportPlugins replayed
  rw [h.plugins]

theorem repaired_back (h : Describes code tables file) : (back code file).repaired = replayed code tables := by
  unfold Restore.repaired
  rw [if_pos rfl]
  exact exportPlugins_back h

/-- Every table of the snapshot is one that the import knows. -/
theorem selected_back (h : Describes code tables file) : (back code file).selected = snapshotTables code tables := by
  unfold Restore.selected Restore.validateTables
  rw [if_pos rfl, h.names]
  refine List.filter_eq_self.mpr fun t ht => decide_eq_true ?_
  unfold Restore.known
  rw [exportPlugins_back h]
  rcases List.mem_append.mp ht with hcore | howned
  · exact List.mem_append_left _ hcore
  · obtain ⟨x, hx, ht⟩ := List.mem_flatMap.mp howned
    have hmem : x ∈ (ownedIn code tables).filter fun x => x.2 ≠ [] :=
      List.mem_filter.mpr ⟨hx, decide_eq_true (List.ne_nil_of_mem ht)⟩
    refine List.mem_append_right _ (List.mem_flatMap.mpr ⟨x, ?_, ht⟩)
    unfold replayed
    rw [if_neg (List.ne_nil_of_mem hmem)]
    exact hmem

/-- The core tables that are restored. -/
theorem mem_coreSelected_back (h : Describes code tables file) {t : String} :
    t ∈ (back code file).coreSelected ↔ t ∈ JEN_TABLES ∧ t ≠ "plugin_schema_migrations" := by
  unfold Restore.coreSelected
  rw [selected_back h, List.mem_filter, decide_eq_true_iff]
  exact and_iff_right_of_imp fun ht => List.mem_append_left _ ht.1

theorem refusal_back : (back code file).refusal = [] := by
  unfold Restore.refusal
  exact if_neg fun h => h.1 rfl

/-- The core tables are filled, in one transaction. -/
theorem does_importCore (hundo : Undoable db code tables) (h : Describes code tables file)
    (hchange : Change code (fun _ => True) tables p) {c : Option Tables} :
    (back code file).importCoreOrRollBack.Does True (healthy db code)
      (fun _ w => w = idle (refill tables (back code file).coreSelected p) ∧
        ∀ t ∈ (back code file).coreSelected, (tables t).isSome) ⟨p, c⟩ := by
  have hcore : ∀ t ∈ (back code file).coreSelected, t ∈ snapshotTables code tables := fun t ht =>
    List.mem_append_left _ ((mem_coreSelected_back h).mp ht).1
  have hfill : ∀ t ∈ (back code file).coreSelected, Fillable db True tables p t := by
    intro t ht
    cases htable : tables t with
    | some table =>
      obtain ⟨rows, hp⟩ := hchange.stays htable
      exact .inl ⟨table, rows, htable, hundo.stored t (hcore t ht) table htable, hp⟩
    | none =>
      refine .inr ⟨trivial, htable, by_contra fun hne => ?_⟩
      obtain ⟨plugin, howned⟩ := hchange.new htable hne
      exact not_mem_core howned ((mem_coreSelected_back h).mp ht).1
  unfold Restore.importCoreOrRollBack
  refine Prog.Does.handle ?_ fun _ e w => ?_
  · unfold Restore.importCore
    refine does_quiet (fun _ => rfl) fun _ => does_quiet (fun _ => rfl) fun _ => ?_
    refine Prog.Does.bind (does_importTables (fun _ => trivial) rfl rfl
      (fun t ht => h.rows t (hcore t ht)) hfill []) ?_
    rintro ⟨results, failed⟩ w hw
    cases failed with
    | some failed => exact Prog.does_raise trivial
    | none =>
      obtain ⟨rfl, hthere⟩ := hw
      refine does_quiet (fun _ => rfl) fun _ => does_quiet (fun _ => rfl) fun _ => ?_
      exact Prog.does_pure ⟨rfl, hthere⟩
  · exact does_quiet (fun _ => rfl) fun _ => does_quiet (fun _ => rfl) fun _ => Prog.does_raise trivial

/-! ## The plugins, one at a time -/

/-- The plugins in `rest` are still to come: the tables of the snapshot that none of them lists are as they were. -/
structure Restored (code : Code) (tables : Tables) (rest : List (String × List String)) (p : Tables) : Prop where
  change : Change code (fun _ => True) tables p
  same : ∀ t ∈ snapshotTables code tables, t ≠ "plugin_schema_migrations" →
    (∀ x ∈ rest, code.manifest x.1 ≠ none → t ∉ x.2) → p t = tables t

/-- The rows of a plugin's tables are put back. -/
theorem does_importPluginRows {plugin : String} {names : List String}
    (hrows : ∀ t ∈ names, file.rows? t = some ((rowsIn tables t).map cleanRow))
    (hfill : ∀ t ∈ names, Fillable db False tables p t) (results : List String) :
    ((back code file).importPluginRows plugin names results).Does False (healthy db code)
      (fun x w => x.2 = none ∧ w = idle (refill tables names p)) (idle p) := by
  have hbegin : (ask (.begin (some plugin))).Does False (healthy db code) (fun _ w => w = during p p) (idle p) :=
    does_ask nofun fun f _ => ⟨(), rfl, rfl⟩
  unfold Restore.importPluginRows
  refine Prog.Does.bind hbegin.attempt ?_
  rintro (e | u) w hw
  · exact hw.elim
  obtain rfl := hw
  refine Prog.Does.bind (does_importTables (c := p) nofun rfl rfl hrows hfill results) ?_
  rintro ⟨results', failed⟩ w hw
  cases failed with
  | some failed => exact hw.elim
  | none =>
    obtain ⟨rfl, -⟩ := hw
    have hcommit : (ask (.commit (some plugin))).Does False (healthy db code)
        (fun _ w => w = idle (refill tables names p)) (during p (refill tables names p)) :=
      does_ask nofun fun f _ => ⟨(), rfl, rfl⟩
    refine Prog.Does.bind hcommit.attempt ?_
    rintro (e | u) w hw
    · exact hw.elim
    · exact Prog.does_pure ⟨rfl, hw⟩

/-- The rows of one plugin are put back, in the tables of the snapshot that it lists. -/
theorem does_importPlugin {x : String × List String} (h : Describes code tables file)
    (hfill : ∀ t ∈ x.2, t ∈ snapshotTables code tables → Fillable db False tables p t) (o : Restore.Outcome) :
    ((back code file).importPlugin x o).Does True (healthy db code)
      (fun _ w => w = idle (refill tables (x.2.filter (· ∈ (back code file).selected)) p)) (idle p) := by
  have hselected : ∀ t ∈ x.2.filter (· ∈ (back code file).selected), t ∈ x.2 ∧ t ∈ snapshotTables code tables := by
    intro t ht
    obtain ⟨hmem, hsel⟩ := List.mem_filter.mp ht
    exact ⟨hmem, selected_back h ▸ of_decide_eq_true hsel⟩
  unfold Restore.importPlugin
  dsimp only
  split_ifs with hnil
  · rw [hnil]
    exact Prog.does_pure rfl
  · have hrows : ((back code file).importPluginRows x.1 (x.2.filter (· ∈ (back code file).selected))
        o.results).Does False (healthy db code) (fun y w => y.2 = none ∧
          w = idle (refill tables (x.2.filter (· ∈ (back code file).selected)) p)) (idle p) := does_importPluginRows
      (fun t ht => h.rows t (hselected t ht).2) (fun t ht => hfill t (hselected t ht).1 (hselected t ht).2) o.results
    refine Prog.Does.bind (hrows.weaken False.elim) ?_
    rintro ⟨results, failed⟩ w ⟨rfl, rfl⟩
    exact Prog.does_pure rfl

/-- The migration rows of a plugin are taken out. -/
def cleared (plugin : String) (p : Tables) : Tables :=
  (World.edit ⟨p, none⟩ "plugin_schema_migrations" fun rows => rows.filter fun row =>
    cellOf row "plugin_id" ≠ .text plugin).tables

theorem cleared_of_ne {plugin t : String} (ht : t ≠ "plugin_schema_migrations") : cleared plugin p t = p t :=
  (World.edit_tables _ _ _ _).trans (if_neg ht)

theorem changed_cleared (plugin : String) : Change code (fun _ => True) p (cleared plugin p) :=
  (World.Changes.edit (p := p) ⟨Change.refl _ _ p, fun _ hq => by cases hq⟩ trivial _).1

/-- A plugin that lists tables, and whose code is there: its migrations run again, and its rows are put back. -/
theorem does_replayPlugin {x : String × List String} (h : Describes code tables file)
    (hfill : ∀ q, Change code (fun _ => True) p q →
      ∀ t ∈ x.2, t ∈ snapshotTables code tables → Fillable db False tables q t) (o : Restore.Outcome) :
    ((back code file).replayPlugin x o).Does True (healthy db code)
      (fun _ w => ∃ d : Decision, d.ok = true ∧
        w = idle (refill tables (x.2.filter (· ∈ (back code file).selected))
          (migrateTables code x.1 d (cleared x.1 p)))) (idle p) := by
  have hcovers : Covers code fun _ => True := ⟨fun _ _ => trivial, fun _ _ _ => trivial⟩
  have hcleared : ∀ d, (effect db code (.clearMigrations x.1) d (idle p)).2 = idle (cleared x.1 p) := fun _ =>
    congrArg (World.mk _) (World.edit_pending _ _ _)
  unfold Restore.replayPlugin
  refine does_quiet hcleared fun _ => ?_
  refine Prog.Does.bind (Q := fun y w => ∃ d : Decision, d.ok = true ∧ y.1 = true ∧
    w = idle (migrateTables code x.1 d (cleared x.1 p))) ?_ ?_
  · refine does_ask (fun _ => trivial) fun f hf => ⟨_, rfl, f (.migrate x.1), hf.ok x.1, hf.ok x.1, rfl⟩
  · rintro ⟨ok, message⟩ w ⟨d, hd, rfl, rfl⟩
    have hchange : Change code (fun _ => True) p (migrateTables code x.1 d (cleared x.1 p)) :=
      (changed_cleared x.1).trans (changed_migrate hcovers x.1 d (cleared x.1 p))
    refine (does_importPlugin h (hfill _ hchange) o).mono ?_
    rintro o' w rfl
    exact ⟨d, hd, rfl⟩

/-- A plugin that the snapshot lists lists every table of it that is there. -/
theorem full_replayed (hcode : code.Sound) {x : String × List String} (hx : x ∈ replayed code tables) {t : String}
    (ht : t ∈ code.ownedTables x.1) (hthere : (tables t).isSome) : t ∈ x.2 := by
  unfold replayed at hx
  split_ifs at hx with hnil
  · rw [((mem_allOwnedTables hcode).mp hx).2]
    exact ht
  · exact (ownedIn_accounts hcode).full x (List.mem_filter.mp hx).1 t ht hthere

/-- One plugin is put back; the tables that were as they were, are. -/
theorem Restored.step (hundo : Undoable db code tables) (hthere : ∀ t ∈ snapshotTables code tables, (tables t).isSome)
    {x : String × List String} {rest : List (String × List String)} (hx : x ∈ replayed code tables)
    (hnil : x.2 ≠ []) (hmanifest : code.manifest x.1 ≠ none) (hp : Restored code tables (x :: rest) p)
    {names : List String} (hnames : ∀ t ∈ x.2, t ∈ snapshotTables code tables → t ∈ names) {d : Decision} :
    Restored code tables rest (refill tables names (migrateTables code x.1 d (cleared x.1 p))) := by
  have hcovers : Covers code fun _ => True := ⟨fun _ _ => trivial, fun _ _ _ => trivial⟩
  refine ⟨Change.refill ((hp.change.trans (changed_cleared x.1)).trans (changed_migrate hcovers x.1 d _)) names, ?_⟩
  intro t ht hmigrations hrest
  unfold refill
  split_ifs with hmem
  · rfl
  -- what is not refilled was not touched either
  have hlisted : t ∉ x.2 := fun hin => hmem (hnames t hin ht)
  have hsame : cleared x.1 p t = tables t := by
    rw [cleared_of_ne hmigrations]
    refine hp.same t ht hmigrations fun y hy hcode => ?_
    rcases List.mem_cons.mp hy with rfl | hy
    · exact hlisted
    · exact hrest y hy hcode
  unfold migrateTables
  split_ifs with howned hrecord
  · exact absurd (full_replayed hundo.sound hx howned (hthere t ht)) hlisted
  · obtain ⟨rfl, -⟩ := hrecord
    rw [hsame]
    obtain ⟨table, htable⟩ := Option.isSome_iff_exists.mp (hthere _ ht)
    have hrows := hundo.recorded x hx hnil hmanifest d.now
    rw [rowsIn, htable] at hrows
    rw [htable, Option.map_some]
    exact congrArg (fun rows => some (Table.mk table.columns rows)) hrows
  · exact hsame

/-- The plugins are put back, one at a time. -/
theorem does_restorePlugins (hundo : Undoable db code tables) (h : Describes code tables file)
    (hthere : ∀ t ∈ snapshotTables code tables, (tables t).isSome)
    (hp : Restored code tables (replayed code tables) p) (results : List String) :
    ((back code file).restorePlugins results).Does True (healthy db code)
      (fun _ w => ∃ q, w = idle q ∧ Restored code tables [] q) (idle p) := by
  unfold Restore.restorePlugins
  rw [repaired_back h]
  have hperm := List.perm_insertionSort (fun x y : String × List String => Json.keyLe x.1.toList y.1.toList)
    (replayed code tables)
  -- what is still to come is a part of what the snapshot lists
  refine (Prog.Does.fold (fun rest _ w => (∀ x ∈ rest, x ∈ replayed code tables) ∧
    ∃ q, w = idle q ∧ Restored code tables rest q) ?_ ⟨fun x hx => hperm.mem_iff.mp hx, p, rfl, ?_⟩).mono
      fun _ _ hq => hq.2
  · rintro x rest o w ⟨hrest, q, rfl, hq⟩
    have hx := hrest x List.mem_cons_self
    have hrest' : ∀ y ∈ rest, y ∈ replayed code tables := fun y hy => hrest y (List.mem_cons_of_mem x hy)
    -- a plugin that is passed over is restored as it stands
    have hpass : (code.manifest x.1 ≠ none → x.2 = []) → Restored code tables rest q := by
      intro hempty
      refine ⟨hq.change, fun t ht hmigrations hnone => hq.same t ht hmigrations fun y hy hcode => ?_⟩
      rcases List.mem_cons.mp hy with rfl | hy
      · rw [hempty hcode]
        exact List.not_mem_nil
      · exact hnone y hy hcode
    unfold Restore.restorePlugin
    dsimp only
    split_ifs with hnil
    · exact Prog.does_pure ⟨hrest', q, rfl, hpass fun _ => hnil⟩
    · cases hmanifest : code.manifest x.1 with
      | none => exact Prog.does_pure ⟨hrest', q, rfl, hpass fun hcode => absurd hmanifest hcode⟩
      | some m =>
        have hcode : code.manifest x.1 ≠ none := by rw [hmanifest]; exact nofun
        have hfill : ∀ q', Change code (fun _ => True) q q' → ∀ t ∈ x.2, t ∈ snapshotTables code tables →
            Fillable db False tables q' t := by
          intro q' hchange t _ ht
          obtain ⟨table, htable⟩ := Option.isSome_iff_exists.mp (hthere t ht)
          obtain ⟨rows, hrows⟩ := (hq.change.trans hchange).stays htable
          exact .inl ⟨table, rows, htable, hundo.stored t ht table htable, hrows⟩
        refine (does_replayPlugin h hfill o).mono ?_
        rintro o' w ⟨d, -, rfl⟩
        refine ⟨hrest', _, rfl, hq.step hundo hthere hx hnil hcode fun t ht hsel => ?_⟩
        exact List.mem_filter.mpr ⟨ht, decide_eq_true (selected_back h ▸ hsel)⟩
  · refine ⟨hp.change, fun t ht hmigrations hnone => hp.same t ht hmigrations fun x hx => ?_⟩
    exact hnone x (hperm.mem_iff.mpr hx)

theorem does_pluginInvariantViolations :
    (Restore.pluginInvariantViolations code).Does True (healthy db code) (fun _ w => w = idle p) (idle p) := by
  unfold Restore.pluginInvariantViolations
  refine does_quiet (fun _ => rfl) fun plugins => ?_
  refine Prog.Does.fold (fun _ _ w => w = idle p) ?_ rfl
  rintro plugin rest missing w rfl
  refine Prog.Does.fold (fun _ _ w => w = idle p) ?_ rfl
  rintro t names missing' w rfl
  refine does_quiet (fun _ => rfl) fun there => ?_
  split_ifs
  · exact Prog.does_pure rfl
  · exact Prog.does_pure rfl

/-- What the way back needs of the tables that a failed import left: those that it will not fill are as they
were. -/
structure Left (code : Code) (tables p : Tables) : Prop where
  change : Change code (fun _ => True) tables p
  same : ∀ t ∈ snapshotTables code tables, t ∉ JEN_TABLES →
    (∀ x ∈ replayed code tables, code.manifest x.1 ≠ none → t ∉ x.2) → p t = tables t

/-- The import of the snapshot restores its tables, all but the migration rows. -/
theorem does_importBack (hundo : Undoable db code tables) (h : Describes code tables file)
    (hmigrations : (tables "plugin_schema_migrations").isSome) (hleft : Left code tables p) {c : Option Tables} :
    (back code file).run.Does True (healthy db code) (fun _ w => ∃ q, w = idle q ∧ Restored code tables [] q)
      ⟨p, c⟩ := by
  unfold Restore.run
  rw [refusal_back]
  dsimp only
  refine does_quiet (fun _ => rfl) fun _ => ?_
  refine Prog.Does.bind (does_importCore hundo h hleft.change) ?_
  rintro results w ⟨rfl, hcore⟩
  have hthere : ∀ t ∈ snapshotTables code tables, (tables t).isSome := by
    intro t ht
    rcases List.mem_append.mp ht with hin | hin
    · by_cases hm : t = "plugin_schema_migrations"
      · rw [hm]
        exact hmigrations
      · exact hcore t ((mem_coreSelected_back h).mpr ⟨hin, hm⟩)
    · obtain ⟨x, hx, ht⟩ := List.mem_flatMap.mp hin
      exact ((ownedIn_accounts hundo.sound).there x hx t ht).2
  have hrestored : Restored code tables (replayed code tables)
      (refill tables (back code file).coreSelected p) := by
    refine ⟨hleft.change.refill _, fun t ht hm hnone => ?_⟩
    unfold refill
    split_ifs with hin
    · rfl
    · exact hleft.same t ht (fun hjen => hin ((mem_coreSelected_back h).mpr ⟨hjen, hm⟩)) hnone
  refine Prog.Does.bind (Q := fun _ w => ∃ q, w = idle q ∧ Restored code tables [] q)
    (does_thenClose (does_restorePlugins hundo h hthere hrestored results) ?_) ?_
  · rintro o w ⟨q, rfl, hq⟩
    exact ⟨q, rfl, hq⟩
  rintro o w ⟨q, rfl, hq⟩
  refine does_quiet (fun _ => rfl) fun _ => ?_
  refine Prog.Does.bind (Q := fun _ w => w = idle q) (does_thenClose does_pluginInvariantViolations ?_) ?_
  · rintro violations w rfl
    rfl
  rintro violations w rfl
  unfold Restore.finish
  rw [if_neg fun hstrict => Bool.false_ne_true hstrict.1]
  exact Prog.does_pure ⟨q, rfl, hq⟩

/-! ## What is left is put back -/

/-- Some tables are removed. -/
def dropped (names : List String) (p : Tables) : Tables := fun t => if t ∈ names then none else p t

theorem does_dropTables (names : List String) :
    (Prog.fold (fun t _ => ask (.dropTable t)) names ()).Does True (healthy db code)
      (fun _ w => w = idle (dropped names p)) (idle p) := by
  induction names generalizing p with
  | nil => exact Prog.does_pure rfl
  | cons t names ih =>
    have hone : (ask (.dropTable t)).Does True (healthy db code) (fun _ w => w = idle (Function.update p t none))
        (idle p) := does_try fun _ _ _ => rfl
    refine Prog.Does.bind hone ?_
    rintro _ w rfl
    refine ih.mono ?_
    rintro _ w rfl
    refine congrArg idle (funext fun u => ?_)
    unfold dropped
    rw [Function.update_apply]
    by_cases hu : u = t
    · subst hu
      rw [if_pos rfl, ite_self, if_pos List.mem_cons_self]
    · rw [if_neg hu]
      by_cases hmem : u ∈ names
      · rw [if_pos hmem, if_pos (List.mem_cons_of_mem t hmem)]
      · rw [if_neg hmem, if_neg fun h => hmem ((List.mem_cons.mp h).resolve_left hu)]

theorem mem_createdTables (hcode : code.Sound) {before now : String → Bool} {t : String} :
    t ∈ createdTables code before now ↔
      (∃ plugin, t ∈ code.ownedTables plugin) ∧ now t = true ∧ before t = false := by
  unfold createdTables
  rw [List.mem_insertionSort, List.mem_filter, List.mem_dedup, mem_flatMap_allOwnedTables hcode,
    decide_eq_true_iff, Bool.not_eq_true]

/-- Every table of the snapshot is as it was, and no other has come to be. -/
structure Undone (code : Code) (tables p : Tables) : Prop where
  same : ∀ t ∈ snapshotTables code tables, p t = tables t
  none : ∀ t, tables t = none → p t = none

/-- The migration rows are as they were. -/
theorem does_insertMigrations {columns : List String} (rows : List Row)
    (hp : p "plugin_schema_migrations" = some ⟨columns, []⟩) {c : Tables} :
    (insertMigrations rows).Does True (healthy db code)
      (fun _ w => w = during c (Function.update p "plugin_schema_migrations" (some ⟨columns, rows⟩)))
      (during c p) := by
  unfold insertMigrations
  split_ifs with hnil
  · refine Prog.does_pure ?_
    rw [hnil, ← hp, Function.update_eq_self]
  · refine does_try fun d _ _ => ?_
    have hview : (during c p).view "plugin_schema_migrations" = some ⟨columns, []⟩ := hp
    simp only [effect, hview, List.nil_append]
    rfl

/-- The migration rows are put back, and the tables that came to be are removed. -/
theorem does_putBack (hcode : code.Sound) {snap : Snapshot} (hsnap : snap.Shows code tables)
    (hp : Restored code tables [] p) :
    (putBack code snap).Does True (healthy db code) (fun _ w => ∃ q, w = idle q ∧ Undone code tables q) (idle p) := by
  obtain ⟨table, htable, hrows⟩ := hsnap.migrations
  obtain ⟨old, hold⟩ := hp.change.stays htable
  have hemptied : ∀ d, (effect db code .deleteMigrationRows d (during p p)).2 =
      during p (Function.update p "plugin_schema_migrations" (some ⟨table.columns, []⟩)) := by
    intro d
    have hview : (during p p).view "plugin_schema_migrations" = some ⟨table.columns, old⟩ := hold
    simp only [effect, hview]
    rfl
  unfold putBack
  refine does_quiet (fun _ => rfl) fun _ => does_quiet hemptied fun _ => ?_
  refine Prog.Does.bind (does_insertMigrations snap.migrations (Function.update_self _ _ _)) ?_
  rintro _ w rfl
  rw [Function.update_idem, hrows]
  generalize hq : Function.update p "plugin_schema_migrations" (some ⟨table.columns, table.rows⟩) = q
  have hmigrations : q "plugin_schema_migrations" = tables "plugin_schema_migrations" := by
    rw [← hq, Function.update_self, htable]
  have hothers : ∀ t, t ≠ "plugin_schema_migrations" → q t = p t := fun t ht => by
    rw [← hq, Function.update_of_ne ht]
  refine does_quiet (fun _ => rfl) fun _ => ?_
  refine does_read (P := fun now => ∀ t, now t = (q t).isSome)
    (fun d now hnow => ⟨fun t => by rw [← Except.ok.inj hnow]; rfl, rfl⟩) fun now hnow => ?_
  refine (does_dropTables _).mono ?_
  rintro _ w rfl
  refine ⟨_, rfl, fun t ht => ?_, fun t ht => ?_⟩
  · -- a table of the snapshot is put back, and is none that came to be
    have hsame : q t = tables t := by
      by_cases hm : t = "plugin_schema_migrations"
      · rw [hm]
        exact hmigrations
      · rw [hothers t hm]
        exact hp.same t ht hm fun x hx => absurd hx List.not_mem_nil
    show (if t ∈ createdTables code snap.tables now then Option.none else q t) = tables t
    rw [hsame]
    refine ite_eq_right_iff.mpr fun hmem => ?_
    obtain ⟨-, -, hbefore⟩ := (mem_createdTables hcode).mp hmem
    rw [hsnap.tables t] at hbefore
    exact (Option.isSome_eq_false_iff.mp hbefore |> Option.isNone_iff_eq_none.mp).symm
  · -- a table that was not there is a plugin's, or is not there now
    have hm : t ≠ "plugin_schema_migrations" := by
      rintro rfl
      cases ht.symm.trans htable
    show (if t ∈ createdTables code snap.tables now then Option.none else q t) = Option.none
    refine ite_eq_left_iff.mpr fun hmem => by_contra fun hne => hmem ?_
    have hcame : p t ≠ Option.none := hothers t hm ▸ hne
    refine (mem_createdTables hcode).mpr ⟨hp.change.new ht hcame, ?_, ?_⟩
    · rw [hnow t]
      exact Option.isSome_iff_ne_none.mpr hne
    · rw [hsnap.tables t, ht]
      rfl

/-- The way back undoes what a failed import left. -/
theorem does_rollBackTo (hundo : Undoable db code tables) {snap : Snapshot} (hsnap : snap.Shows code tables)
    (hleft : Left code tables p) {c : Option Tables} :
    (rollBackTo code snap).Does True (healthy db code) (fun _ w => ∃ q, w = idle q ∧ Undone code tables q)
      ⟨p, c⟩ := by
  obtain ⟨table, htable, -⟩ := hsnap.migrations
  have himport : (importJen code (some snap.payload) [] true true (some false)).Does True (healthy db code)
      (fun _ w => ∃ q, w = idle q ∧ Restored code tables [] q) ⟨p, c⟩ := by
    unfold importJen
    split
    · exact Prog.does_raise trivial
    · rename_i file hfile
      split_ifs
      · exact Prog.does_raise trivial
      · exact does_importBack hundo (hsnap.file file hfile) (by rw [htable]; rfl) hleft
  unfold rollBackTo
  refine does_quiet (fun _ => rfl) fun _ => ?_
  refine Prog.Does.bind himport ?_
  rintro results w ⟨q, rfl, hq⟩
  refine does_quiet (fun _ => rfl) fun _ => ?_
  refine does_thenClose (does_putBack hundo.sound hsnap hq) ?_
  rintro _ w ⟨q', rfl, hq'⟩
  exact ⟨q', rfl, hq'⟩

end

end JenKea.Export
