import JenKea.Export.Database
import JenKea.Lib.Total

/-!
# A table is filled from its export

The rows of an export are stored as they were: `_import_rows`, in a transaction in which nothing fails, leaves a
table with the rows that the file was written from (`does_importRows`).
-/

namespace JenKea.Export

open Json (Fields lookup)

/-- The rows are rows of the table, its binary columns hold bytes, and MySQL stores for an exported value the
value. -/
structure Table.Sound (db : MySql) (t : String) (table : Table) : Prop where
  nodup : table.columns.Nodup
  nonempty : table.columns ≠ []
  keys : ∀ row ∈ table.rows, row.map Prod.fst = table.columns
  binary : ∀ row ∈ table.rows, ∀ c ∈ table.columns, db.binary t c = true → (cellOf row c).IsBinary
  stored : ∀ row ∈ table.rows, ∀ c ∈ table.columns,
    db.store t c (boundOf (cellOf row c)) = some (cellOf row c)

instance (db : MySql) (t : String) (table : Table) : Decidable (table.Sound db t) :=
  decidable_of_iff (table.columns.Nodup ∧ table.columns ≠ [] ∧ (∀ row ∈ table.rows, row.map Prod.fst = table.columns) ∧
    (∀ row ∈ table.rows, ∀ c ∈ table.columns, db.binary t c = true → (cellOf row c).IsBinary) ∧
    ∀ row ∈ table.rows, ∀ c ∈ table.columns, db.store t c (boundOf (cellOf row c)) = some (cellOf row c))
    ⟨fun ⟨nodup, nonempty, keys, binary, stored⟩ => ⟨nodup, nonempty, keys, binary, stored⟩,
      fun h => ⟨h.nodup, h.nonempty, h.keys, h.binary, h.stored⟩⟩

/-! ## Rows -/

theorem lookup_zip_map {α β : Type} [DecidableEq α] {f : α → β} {l : List α} {c : α} (h : c ∈ l) :
    (l.zip (l.map f)).lookup c = some (f c) := by
  induction l with
  | nil => exact absurd h List.not_mem_nil
  | cons a l ih =>
    rw [List.map_cons, List.zip_cons_cons, List.lookup_cons]
    by_cases hc : c = a
    · subst hc
      simp
    · rw [beq_eq_false_iff_ne.mpr hc]
      exact ih ((List.mem_cons.mp h).resolve_left hc)

/-- A row is its values, column by column. -/
theorem map_cellOf {row : Row} (h : (row.map Prod.fst).Nodup) :
    (row.map Prod.fst).map (fun c => (c, cellOf row c)) = row := by
  induction row with
  | nil => rfl
  | cons x row ih =>
    obtain ⟨c, v⟩ := x
    rw [List.map_cons, List.nodup_cons] at h
    have hrest : ∀ c' ∈ row.map Prod.fst, (c', cellOf ((c, v) :: row) c') = (c', cellOf row c') := by
      intro c' hc'
      have hne : (c' == c) = false := beq_eq_false_iff_ne.mpr fun heq => h.1 (heq ▸ hc')
      unfold cellOf
      rw [List.lookup_cons, hne]
    have hhead : cellOf ((c, v) :: row) c = v := by
      unfold cellOf
      rw [List.lookup_cons, beq_self_eq_true]
      rfl
    rw [List.map_cons, List.map_cons, List.map_congr_left hrest, ih h.2, hhead]

variable {db : MySql} {code : Code} {t : String} {table : Table}

/-- A cell that was exported is stored as it was. -/
theorem storeCell_exported (h : table.Sound db t) {row : Row} (hrow : row ∈ table.rows) {c : String}
    (hc : c ∈ table.columns) :
    (match (table.columns.zip (table.columns.map fun c => boundOf (cellOf row c))).lookup c with
      | some v => (db.store t c v).map fun cell => (c, cell)
      | none => some (c, db.default t c)) = some (c, cellOf row c) := by
  rw [lookup_zip_map hc]
  dsimp only
  rw [h.stored row hrow c hc]
  rfl

/-- A row that was exported is stored as it was. -/
theorem insertRow_exported (h : table.Sound db t) {row : Row} (hrow : row ∈ table.rows) :
    insertRow db t table.columns table.columns (table.columns.map fun c => boundOf (cellOf row c)) = some row := by
  refine (Loop.mapM_eq_pure fun c hc => storeCell_exported h hrow hc).trans (congrArg some ?_)
  rw [← h.keys row hrow]
  exact map_cellOf (h.keys row hrow ▸ h.nodup)

/-- The rows that were exported are stored as they were. -/
theorem insertRows_exported (h : table.Sound db t) :
    (table.rows.map fun row => table.columns.map fun c => boundOf (cellOf row c)).mapM
      (insertRow db t table.columns table.columns) = some table.rows := by
  rw [List.mapM_map]
  refine (Loop.mapM_eq_pure fun row hrow => insertRow_exported h hrow).trans (congrArg some ?_)
  exact List.map_id _

/-- The columns of the exported rows are the table's. -/
theorem columnsOf_exported (h : table.Sound db t) (hrows : table.rows ≠ []) :
    Restore.columnsOf (table.rows.map cleanRow) table.columns = table.columns := by
  obtain ⟨row, rows, hsplit⟩ := List.exists_cons_of_ne_nil hrows
  have hkeys : row.map Prod.fst = table.columns := h.keys row (hsplit ▸ List.mem_cons_self)
  have hhead : ((table.rows.map cleanRow).headD []).map Prod.fst = table.columns := by
    rw [hsplit, List.map_cons, List.headD_cons, ← hkeys]
    unfold cleanRow
    rw [List.map_map]
    rfl
  unfold Restore.columnsOf
  rw [hhead]
  exact List.filter_eq_self.mpr fun c hc => decide_eq_true hc

/-! ## Statements that do not fail -/

/-- The plugin whose restore a statement is part of. -/
def Statement.plugin : Statement → Option String
  | .begin p | .tableExists p _ | .columns p _ | .binaryColumns p _ | .delete p _ | .insert p _ _ _ _ | .commit p => p
  | _ => none

/-- No plugin fails here: neither a statement of the restore of its rows nor its migrations. -/
structure Healthy (f : Statement → Decision) : Prop where
  error : ∀ s, s.plugin ≠ none → (f s).error = none
  ok : ∀ plugin, (f (.migrate plugin)).ok = true

/-- The database, where no plugin fails. -/
abbrev healthy (db : MySql) (code : Code) : Handler Db {f // Healthy f} World := Prog.under (handle db code) Healthy

variable {may : Prop} {w : World}

/-- A statement does what it does, or raises, where it may. -/
theorem does_ask {s : Statement} {Q : s.Answer → World → Prop} (hmay : s.plugin = none → may)
    (h : ∀ f, Healthy f → ∃ a, (effect db code s (f s) w).1 = .ok a ∧ Q a (effect db code s (f s) w).2) :
    (ask s).Does may (healthy db code) Q w := by
  refine Prog.does_call fun ⟨f, hf⟩ => ?_
  have hhandle : healthy db code s ⟨f, hf⟩ w = handle db code s f w := rfl
  rw [hhandle]
  unfold handle
  cases herror : (f s).error with
  | none =>
    obtain ⟨a, ha, hQ⟩ := h f hf
    dsimp only
    rw [ha]
    exact hQ
  | some e => exact hmay (by_contra fun hne => by rw [hf.error s hne] at herror; cases herror)

/-- A statement, and what follows it. -/
theorem does_ask_bind {α : Type} {s : Statement} {k : s.Answer → Run α} {Q : α → World → Prop}
    (hmay : s.plugin = none → may)
    (h : ∀ f, Healthy f → ∃ a, (effect db code s (f s) w).1 = .ok a ∧
      (k a).Does may (healthy db code) Q (effect db code s (f s) w).2) :
    (ask s >>= k).Does may (healthy db code) Q w :=
  Prog.Does.bind (does_ask hmay h) fun _ _ hk => hk

/-! ## One table -/

section

variable {r : Restore} {plugin : Option String} (hmay : plugin = none → may) {c p : Tables} {old : Table}

/-- The open transaction, in which a table is written. -/
abbrev during (c p : Tables) : World := ⟨c, some p⟩

theorem effect_delete {d : Decision} (hold : p t = some old) :
    effect db code (.delete plugin t) d (during c p) =
      (.ok (), during c (Function.update p t (some { old with rows := [] }))) := by
  have hview : (during c p).view t = some old := hold
  simp only [effect, hview]
  rfl

theorem effect_insert {d : Decision} {ignore : Bool} {cols : List String} {rows : List (List Value)}
    {new : List Row} (hold : p t = some old) (hplain : ignore = false)
    (hnew : rows.mapM (insertRow db t old.columns cols) = some new) :
    effect db code (.insert plugin ignore t cols rows) d (during c p) =
      (.ok new.length, during c (Function.update p t (some { old with rows := old.rows ++ new }))) := by
  have hview : (during c p).view t = some old := hold
  simp only [effect, hview, hplain, Bool.false_eq_true, if_false, hnew]
  rfl

include hmay

/-- The rows of a table that was emptied are inserted. -/
theorem does_insertRows {cols : List String} (htruncate : r.truncate = true) (hsound : table.Sound db t)
    (hcols : table.rows ≠ [] → cols = table.columns) (hold : p t = some ⟨table.columns, []⟩) :
    (r.insertRows plugin t (table.rows.map cleanRow) cols).Does may (healthy db code)
      (fun n w => n = table.rows.length ∧ w = during c (Function.update p t (some table))) (during c p) := by
  unfold Restore.insertRows
  split_ifs with hnil
  · have hempty : table.rows = [] := List.map_eq_nil_iff.mp hnil
    refine Prog.does_pure ⟨by rw [hempty]; rfl, ?_⟩
    have hsame : Function.update p t (some table) = p := by
      rw [Function.update_eq_self_iff, hold, ← hempty]
    rw [hsame]
  · obtain rfl := hcols fun hempty => hnil (by rw [hempty]; rfl)
    refine does_ask_bind hmay fun _ _ => ⟨_, rfl, ?_⟩
    -- the columns that the database says are binary are so
    have hbinary : ∀ row ∈ table.rows, ∀ c' ∈ table.columns,
        c' ∈ (((during c p).view t).elim [] Table.columns).filter (db.binary t) → (cellOf row c').IsBinary := by
      intro row hrow c' hc hmem
      exact hsound.binary row hrow c' hc (List.mem_filter.mp hmem).2
    rw [decodeImportRows_cleanRow hbinary]
    -- asking which columns are binary changes nothing
    show (ask (.insert plugin (!r.truncate) t table.columns
      (table.rows.map fun row => table.columns.map fun c => boundOf (cellOf row c)))).Does may
        (healthy db code) _ (during c p)
    refine does_ask hmay fun f _ => ⟨table.rows.length, ?_⟩
    have hplain : (!r.truncate) = false := by rw [htruncate]; rfl
    have hnew : (table.rows.map fun row => table.columns.map fun c => boundOf (cellOf row c)).mapM
        (insertRow db t (⟨table.columns, []⟩ : Table).columns table.columns) = some table.rows :=
      insertRows_exported hsound
    rw [effect_insert hold hplain hnew, List.nil_append]
    exact ⟨rfl, rfl, rfl⟩

/-- A table is filled with what was exported. -/
theorem does_fill {cols : List String} (htruncate : r.truncate = true) (hsound : table.Sound db t)
    (hcols : table.rows ≠ [] → cols = table.columns) (hold : p t = some old)
    (hcolumns : old.columns = table.columns) :
    (r.fill plugin t (table.rows.map cleanRow) cols).Does may (healthy db code)
      (fun _ w => w = during c (Function.update p t (some table))) (during c p) := by
  unfold Restore.fill Restore.clear
  rw [if_pos htruncate]
  refine does_ask_bind hmay fun f _ => ⟨(), ?_⟩
  rw [effect_delete hold, hcolumns]
  refine ⟨rfl, Prog.Does.bind (does_insertRows hmay htruncate hsound hcols (Function.update_self _ _ _)) ?_⟩
  rintro n w ⟨rfl, rfl⟩
  unfold Restore.report
  rw [if_pos htruncate, List.length_map, if_neg (not_not.mpr rfl)]
  refine Prog.does_pure ?_
  rw [Function.update_idem]

/-- The columns of a table that is there. -/
theorem does_realColumns (hold : p t = some old) {rows : List Fields} :
    (Restore.realColumns plugin t rows).Does may (healthy db code)
      (fun real w => (rows ≠ [] → real = old.columns) ∧ w = during c p) (during c p) := by
  unfold Restore.realColumns
  split_ifs with hnil
  · exact Prog.does_pure ⟨fun hne => absurd hnil hne, rfl⟩
  · refine does_ask hmay fun f _ => ⟨old.columns, ?_, fun _ => rfl, rfl⟩
    show Except.ok ((p t).elim [] Table.columns) = _
    rw [hold]
    rfl

/-- A table that is there is filled with what was exported. -/
theorem does_importRows (htruncate : r.truncate = true) (hsound : table.Sound db t)
    (hrows : r.file.rows? t = some (table.rows.map cleanRow)) (hold : p t = some old)
    (hcolumns : old.columns = table.columns) :
    (r.importRows plugin t).Does may (healthy db code)
      (fun _ w => w = during c (Function.update p t (some table))) (during c p) := by
  unfold Restore.importRows
  rw [hrows]
  dsimp only
  refine does_ask_bind hmay fun f _ => ⟨true, ?_, ?_⟩
  · show Except.ok (p t).isSome = _
    rw [hold]
    rfl
  rw [if_pos rfl]
  refine Prog.Does.bind (does_realColumns hmay hold) ?_
  rintro real w ⟨hreal, rfl⟩
  have hcols : table.rows ≠ [] → Restore.columnsOf (table.rows.map cleanRow) real = table.columns := by
    intro hne
    have hmap : table.rows.map cleanRow ≠ [] := fun hnil => hne (List.map_eq_nil_iff.mp hnil)
    rw [hreal hmap, hcolumns, columnsOf_exported hsound hne]
  have hfound : ¬ (table.rows.map cleanRow ≠ [] ∧ Restore.columnsOf (table.rows.map cleanRow) real = []) := by
    rintro ⟨hne, hnone⟩
    rw [hcols fun hempty => hne (by rw [hempty]; rfl)] at hnone
    exact hsound.nonempty hnone
  rw [if_neg hfound]
  exact does_fill hmay htruncate hsound hcols hold hcolumns

end

end JenKea.Export
