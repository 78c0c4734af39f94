import JenKea.Export.Snapshot

/-!
# What a failed import leaves

Whatever fails, an import changes the rows of the tables that it is about, and no others; no table goes, and a
table that comes to be is a plugin's (`Change`). One statement makes such a change (`changed_effect`), and only
statements that do are sent (`within_run`).
-/

namespace JenKea.Export

open Json (Fields lookup)

/-! ## Changes of the rows -/

/-- A table is as it was; or it is one that is `touched`, and has other rows, or has come to be as a plugin's. -/
def Change (code : Code) (touched : String → Prop) (p q : Tables) : Prop := ∀ t, q t = p t ∨
  (touched t ∧ ((∃ table rows, p t = some table ∧ q t = some ⟨table.columns, rows⟩) ∨
    (p t = none ∧ ∃ plugin, t ∈ code.ownedTables plugin)))

variable {db : MySql} {code : Code} {touched : String → Prop} {p q q' : Tables} {t : String}

namespace Change

theorem refl (code : Code) (touched : String → Prop) (p : Tables) : Change code touched p p := fun _ => .inl rfl

theorem trans (h : Change code touched p q) (h' : Change code touched q q') : Change code touched p q' := by
  intro t
  rcases h t with hsame | ⟨ht, ⟨table, rows, hp, hq⟩ | ⟨hp, howned⟩⟩
  · rw [← hsame]
    exact h' t
  · rcases h' t with hsame | ⟨-, ⟨table', rows', hq', hq''⟩ | ⟨hq', -⟩⟩
    · exact .inr ⟨ht, .inl ⟨table, rows, hp, hsame.trans hq⟩⟩
    · obtain rfl := Option.some.inj (hq.symm.trans hq')
      exact .inr ⟨ht, .inl ⟨table, rows', hp, hq''⟩⟩
    · cases hq.symm.trans hq'
  · exact .inr ⟨ht, .inr ⟨hp, howned⟩⟩

/-- The rows of one table are others. -/
theorem update (ht : touched t) {table : Table} (hp : p t = some table) (rows : List Row) :
    Change code touched p (Function.update p t (some { table with rows := rows })) := by
  intro u
  rw [Function.update_apply]
  split_ifs with hu
  · subst hu
    exact .inr ⟨ht, .inl ⟨table, rows, hp, rfl⟩⟩
  · exact .inl rfl

/-- A table that was there is there, with its columns. -/
theorem stays (h : Change code touched p q) {table : Table} (hp : p t = some table) :
    ∃ rows, q t = some ⟨table.columns, rows⟩ := by
  rcases h t with hsame | ⟨-, ⟨table', rows, hp', hq⟩ | ⟨hp', -⟩⟩
  · exact ⟨table.rows, hsame.trans hp⟩
  · obtain rfl := Option.some.inj (hp.symm.trans hp')
    exact ⟨rows, hq⟩
  · cases hp.symm.trans hp'

/-- A table that came to be is a plugin's. -/
theorem new (h : Change code touched p q) (hp : p t = none) (hq : q t ≠ none) :
    ∃ plugin, t ∈ code.ownedTables plugin := by
  rcases h t with hsame | ⟨-, ⟨table, rows, hp', -⟩ | ⟨-, howned⟩⟩
  · exact absurd (hsame.trans hp) hq
  · cases hp.symm.trans hp'
  · exact howned

theorem same (h : Change code touched p q) (ht : ¬ touched t) : q t = p t :=
  (h t).resolve_right fun hchanged => ht hchanged.1

end Change

/-! ## Statements that make such changes -/

/-- The tables that an import is about: Jen's own, and those that plugins own. -/
structure Covers (code : Code) (touched : String → Prop) : Prop where
  core : ∀ t ∈ JEN_TABLES, touched t
  owned : ∀ plugin, ∀ t ∈ code.ownedTables plugin, touched t

/-- A statement that writes no table but those. -/
def Statement.Writes (touched : String → Prop) : Statement → Prop
  | .delete _ t | .insert _ _ t _ _ => touched t
  | .dropTable _ => False
  | _ => True

/-- What is committed, and what is not, are changes of the tables. -/
def World.Changes (code : Code) (touched : String → Prop) (p : Tables) (w : World) : Prop :=
  Change code touched p w.tables ∧ ∀ q, w.pending = some q → Change code touched p q

variable {w : World}

theorem World.Changes.view (h : w.Changes code touched p) : Change code touched p w.view := by
  unfold World.view
  cases hpending : w.pending with
  | none => exact h.1
  | some q => exact h.2 q hpending

theorem World.Changes.write (h : w.Changes code touched p) (ht : touched t) {table : Table}
    (hview : w.view t = some table) (rows : List Row) :
    (w.write t { table with rows := rows }).Changes code touched p := by
  have hchange := h.view.trans (Change.update ht hview rows)
  unfold World.view at hchange
  unfold World.write
  split
  · rename_i q hpending
    rw [hpending] at hchange
    refine ⟨h.1, fun q' hq' => ?_⟩
    obtain rfl := Option.some.inj hq'
    exact hchange
  · rename_i hpending
    rw [hpending] at hchange
    exact ⟨hchange, fun q' hq' => absurd (hpending.symm.trans hq') (by simp)⟩

theorem World.Changes.edit (h : w.Changes code touched p) (ht : touched t) (f : List Row → List Row) :
    (w.edit t f).Changes code touched p := by
  refine ⟨h.1.trans fun u => ?_, fun q hq => h.2 q ((World.edit_pending w t f).symm.trans hq)⟩
  rw [World.edit_tables]
  split_ifs with hu
  · subst hu
    cases htable : w.tables u with
    | none => exact .inl rfl
    | some table => exact .inr ⟨ht, .inl ⟨table, _, rfl, rfl⟩⟩
  · exact .inl rfl

theorem changed_migrate (hcovers : Covers code touched) (plugin : String) (d : Decision) (p : Tables) :
    Change code touched p (migrateTables code plugin d p) := by
  have hrows : ∀ t ∈ JEN_TABLES, ∀ f : List Row → List Row,
      (p t).map (fun table => { table with rows := f table.rows }) = p t ∨ (touched t ∧
        ((∃ table rows, p t = some table ∧
          (p t).map (fun table => { table with rows := f table.rows }) = some ⟨table.columns, rows⟩) ∨
        (p t = none ∧ ∃ plugin, t ∈ code.ownedTables plugin))) := by
    intro t ht f
    cases htable : p t with
    | none => exact .inl rfl
    | some table => exact .inr ⟨hcovers.core t ht, .inl ⟨table, _, rfl, rfl⟩⟩
  intro t
  unfold migrateTables
  split_ifs with howned hmigrations hrecord
  · have ht := hcovers.owned plugin t howned
    cases htable : p t with
    | none => exact .inr ⟨ht, .inr ⟨rfl, plugin, howned⟩⟩
    | some old =>
      cases d.migrated t with
      | none => exact .inl rfl
      | some new => exact .inr ⟨ht, .inl ⟨old, new.rows, rfl, rfl⟩⟩
  · subst hmigrations
    exact hrows _ (by decide) fun _ => d.migrationRows
  · obtain ⟨rfl, -⟩ := hrecord
    exact hrows _ (by decide) fun rows => recordOwnedTables code plugin d.now rows
  · exact .inl rfl

/-- What a statement does is such a change. -/
theorem changed_effect (hcovers : Covers code touched) {s : Statement} (hs : s.Writes touched) (d : Decision)
    (h : w.Changes code touched p) : (effect db code s d w).2.Changes code touched p := by
  have hdropped : (World.mk w.tables none).Changes code touched p := ⟨h.1, nofun⟩
  have hmigrations : touched "plugin_schema_migrations" := hcovers.core _ (by decide)
  cases s with
  | connect | rollback | close => exact hdropped
  | «begin» plugin => exact ⟨h.1, fun q hq => Option.some.inj hq ▸ h.1⟩
  | commit plugin => exact ⟨h.view, nofun⟩
  | dropTable t => exact hs.elim
  | clearMigrations plugin => exact h.edit hmigrations _
  | noteSeen => exact h.edit (hcovers.core _ (by decide)) _
  | migrate plugin => exact ⟨h.1.trans (changed_migrate hcovers plugin d w.tables), h.2⟩
  | delete plugin t =>
    cases hview : w.view t with
    | none => simpa only [effect, hview] using h
    | some table => simpa only [effect, hview] using h.write hs hview []
  | insert plugin ignore t cols rows =>
    cases hview : w.view t with
    | none => simpa only [effect, hview] using h
    | some table =>
      simp only [effect, hview]
      split
      · exact h
      · exact h.write hs hview _
  | deleteMigrationRows =>
    cases hview : w.view "plugin_schema_migrations" with
    | none => simpa only [effect, hview] using h
    | some table => simpa only [effect, hview] using h.write hmigrations hview []
  | insertMigrationRows rows =>
    cases hview : w.view "plugin_schema_migrations" with
    | none => simpa only [effect, hview] using h
    | some table => simpa only [effect, hview] using h.write hmigrations hview (table.rows ++ rows)
  | rows t => cases hview : w.view t <;> simpa only [effect, hview] using h
  | migrationRows => cases hview : w.view "plugin_schema_migrations" <;> simpa only [effect, hview] using h
  | foreignKeyChecks | tableExists | columns | binaryColumns | migratedPlugins | binaryMap | recordedTables |
    pluginVersions | tableNames | files => exact h

theorem changed_handle (hcovers : Covers code touched) {s : Statement} (hs : s.Writes touched)
    (f : Statement → Decision) (h : w.Changes code touched p) :
    (handle db code s f w).2.Changes code touched p := by
  unfold handle
  split
  · exact changed_effect hcovers hs (f s) h
  · dsimp only
    split_ifs
    · exact changed_effect hcovers hs (f s) h
    · exact h

/-! ## The statements of an import -/

theorem within_ask {s : Statement} (hs : s.Writes touched) :
    (ask s).Within (Statement.Writes touched) fun _ => True := by
  refine ⟨hs, fun answer => ?_⟩
  cases answer <;> exact trivial

theorem within_attempt {ε α : Type} {p : Prog Db ε α} {ε' : Type} {A : Statement → Prop}
    (hp : p.Within A fun _ => True) : (p.attempt : Prog Db ε' (Except ε α)).Within A fun _ => True :=
  Prog.Within.handle (Prog.Within.bind hp fun _ _ => trivial) fun _ => trivial

theorem within_thenClose {α : Type} {p : Run α} (hp : p.Within (Statement.Writes touched) fun _ => True) :
    (Restore.thenClose p).Within (Statement.Writes touched) fun _ => True := by
  unfold Restore.thenClose
  refine Prog.Within.bind (within_attempt hp) fun r _ => ?_
  refine Prog.Within.bind (within_ask trivial) fun _ _ => ?_
  exact (Prog.within_ofExcept _).mpr fun _ _ => trivial

namespace Restore

variable {r : Restore} {plugin : Option String}

theorem within_unrestorable (message : String) :
    (r.unrestorable message).Within (Statement.Writes touched) fun _ => True := by
  unfold unrestorable
  split_ifs <;> exact trivial

theorem within_report (n m : ℕ) : (r.report t n m).Within (Statement.Writes touched) fun _ => True := by
  unfold report
  split_ifs
  · exact trivial
  · exact trivial
  · dsimp only
    split_ifs
    · exact within_unrestorable _
    · exact trivial

theorem within_fill (ht : touched t) (rows : List Fields) (cols : List String) :
    (r.fill plugin t rows cols).Within (Statement.Writes touched) fun _ => True := by
  unfold fill clear insertRows
  refine Prog.Within.bind (P := fun _ => True) ?_ fun _ _ => Prog.Within.bind (P := fun _ => True) ?_
    fun _ _ => within_report _ _
  · split_ifs
    · exact within_ask ht
    · exact trivial
  · split_ifs
    · exact trivial
    · refine Prog.Within.bind (within_ask trivial) fun _ _ => ?_
      refine Prog.Within.bind ((Prog.within_ofExcept _).mpr fun _ _ => trivial) fun _ _ => ?_
      exact within_ask ht

theorem within_importRows (ht : touched t) :
    (r.importRows plugin t).Within (Statement.Writes touched) fun _ => True := by
  unfold importRows
  split
  · exact within_unrestorable _
  · refine Prog.Within.bind (within_ask trivial) fun there _ => ?_
    split_ifs
    · refine Prog.Within.bind (P := fun _ => True) ?_ fun real _ => ?_
      · unfold realColumns
        split_ifs
        · exact trivial
        · exact within_ask trivial
      · split_ifs
        · exact within_unrestorable _
        · exact within_fill ht _ _
    · exact within_unrestorable _

theorem within_importTables {tables : List String} (htables : ∀ t ∈ tables, touched t) (results : List String) :
    (r.importTables plugin tables results).Within (Statement.Writes touched) fun _ => True := by
  induction tables generalizing results with
  | nil => exact trivial
  | cons t tables ih =>
    unfold importTables
    refine Prog.Within.bind (within_attempt (within_importRows (htables t List.mem_cons_self))) fun x _ => ?_
    cases x with
    | ok line => exact ih (fun u hu => htables u (List.mem_cons_of_mem t hu)) _
    | error e => exact trivial

theorem within_importCoreOrRollBack (hcovers : Covers code touched) :
    r.importCoreOrRollBack.Within (Statement.Writes touched) fun _ => True := by
  have hcore : ∀ t ∈ r.coreSelected, touched t := fun t ht =>
    hcovers.core t (of_decide_eq_true (List.mem_filter.mp ht).2).1
  unfold importCoreOrRollBack importCore
  refine Prog.Within.handle ?_ fun e => ?_
  · refine Prog.Within.bind (within_ask trivial) fun _ _ => Prog.Within.bind (within_ask trivial) fun _ _ => ?_
    refine Prog.Within.bind (within_importTables hcore _) fun x _ => ?_
    obtain ⟨results, failed⟩ := x
    cases failed with
    | some failed => exact trivial
    | none =>
      refine Prog.Within.bind (within_ask trivial) fun _ _ => Prog.Within.bind (within_ask trivial) fun _ _ => ?_
      exact trivial
  · exact Prog.Within.bind (within_ask trivial) fun _ _ => Prog.Within.bind (within_ask trivial) fun _ _ => trivial

theorem within_importPlugin {x : String × List String} (hx : ∀ t ∈ x.2, touched t) (o : Outcome) :
    (r.importPlugin x o).Within (Statement.Writes touched) fun _ => True := by
  have hselected : ∀ t ∈ x.2.filter (· ∈ r.selected), touched t := fun t ht => hx t (List.mem_filter.mp ht).1
  unfold importPlugin importPluginRows
  dsimp only
  split_ifs
  · exact trivial
  · refine Prog.Within.bind (P := fun _ => True) ?_ fun y _ => ?_
    · refine Prog.Within.bind (within_attempt (within_ask trivial)) fun y _ => ?_
      cases y with
      | error e => exact trivial
      | ok _ =>
        refine Prog.Within.bind (within_importTables hselected _) fun z _ => ?_
        obtain ⟨results, failed⟩ := z
        cases failed with
        | some failed => exact trivial
        | none =>
          refine Prog.Within.bind (within_attempt (within_ask trivial)) fun z _ => ?_
          cases z <;> exact trivial
    · obtain ⟨results, failed⟩ := y
      cases failed with
      | none => exact trivial
      | some failed => exact Prog.Within.bind (within_ask trivial) fun _ _ => trivial

theorem within_restorePlugin {x : String × List String}
    (hx : r.code.manifest x.1 ≠ none → ∀ t ∈ x.2, touched t) (o : Outcome) :
    (r.restorePlugin x o).Within (Statement.Writes touched) fun _ => True := by
  unfold restorePlugin replayPlugin
  dsimp only
  split_ifs
  · exact trivial
  · cases hmanifest : r.code.manifest x.1 with
    | none => exact trivial
    | some m =>
      refine Prog.Within.bind (within_ask trivial) fun _ _ => Prog.Within.bind (within_ask trivial) fun y _ => ?_
      obtain ⟨ok, message⟩ := y
      cases ok with
      | true => exact within_importPlugin (hx (by rw [hmanifest]; exact nofun)) o
      | false => exact trivial

theorem within_pluginInvariantViolations :
    (pluginInvariantViolations code).Within (Statement.Writes touched) fun _ => True := by
  unfold pluginInvariantViolations
  refine Prog.Within.bind (within_ask trivial) fun plugins _ => ?_
  refine Prog.Within.fold (fun plugin _ missing => ?_) _
  refine Prog.Within.fold (fun t _ missing => ?_) _
  refine Prog.Within.bind (within_ask trivial) fun there _ => ?_
  split_ifs <;> exact trivial

/-- The tables that an import is about. -/
def Touches (r : Restore) (t : String) : Prop :=
  t ∈ JEN_TABLES ∨ (∃ plugin, t ∈ r.code.ownedTables plugin) ∨
    ∃ x ∈ r.exportPlugins, r.code.manifest x.1 ≠ none ∧ t ∈ x.2

theorem covers_touches : Covers r.code r.Touches where
  core _ ht := .inl ht
  owned plugin _ ht := .inr (.inl ⟨plugin, ht⟩)

/-- An import sends only statements that write the tables that it is about. -/
theorem within_run : r.run.Within (Statement.Writes r.Touches) fun _ => True := by
  have hrepaired : ∀ x ∈ r.repaired, x ∈ r.exportPlugins := by
    intro x hx
    unfold repaired at hx
    split_ifs at hx
    · exact hx
    · exact (List.mem_filter.mp hx).1
  unfold run
  split
  · exact trivial
  · refine Prog.Within.bind (within_ask trivial) fun _ _ => ?_
    refine Prog.Within.bind (within_importCoreOrRollBack covers_touches) fun results _ => ?_
    refine Prog.Within.bind (within_thenClose ?_) fun o _ => ?_
    · refine Prog.Within.fold (fun x hx o => within_restorePlugin (fun hmanifest t ht => ?_) o) _
      have hmem : x ∈ r.exportPlugins := hrepaired x ((List.mem_insertionSort _).mp hx)
      exact .inr (.inr ⟨x, hmem, hmanifest, ht⟩)
    refine Prog.Within.bind (within_ask trivial) fun _ _ => ?_
    refine Prog.Within.bind (within_thenClose within_pluginInvariantViolations) fun violations _ => ?_
    unfold finish
    split_ifs <;> exact trivial

end Restore

/-- Whatever fails, what an import leaves is a change of the tables that it is about. -/
theorem changed_importJen {A : (Statement → Decision) → Prop} {payload : Option Json} {tablesToRestore : List String} {truncate strict : Bool}
    {strictPlugins : Option Bool} (hcovers : Covers code touched)
    (htouched : ∀ file, parseImportFile payload = .ok file → ∀ t,
      Restore.Touches ⟨code, file, tablesToRestore, truncate, strict, strictPlugins.getD strict⟩ t → touched t)
    (h : w.Changes code touched p) :
    (importJen code payload tablesToRestore truncate strict strictPlugins).wp (Prog.under (handle db code) A)
      (fun _ => True)
      (fun _ w' => w'.Changes code touched p) w := by
  unfold importJen
  split
  · exact h
  · rename_i file hfile
    split_ifs
    · exact h
    · have hrun : (Restore.run ⟨code, file, tablesToRestore, truncate, strict, strictPlugins.getD strict⟩).Within
          (Statement.Writes touched) fun _ => True := by
        refine Restore.within_run.mono (fun s hs => ?_) fun _ h => h
        cases s with
        | delete plugin t => exact htouched file hfile t hs
        | insert plugin ignore t cols rows => exact htouched file hfile t hs
        | dropTable t => exact hs
        | _ => exact trivial
      refine Prog.wp_forget (Prog.wp_mono (fun _ _ hr => hr.1) (hrun.wp ?_ h))
      exact fun s hs f v hv => changed_handle hcovers hs f.1 hv

end JenKea.Export
