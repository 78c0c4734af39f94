import JenKea.Export.Import

/-!
# What an import writes

Which tables an import can empty or fill: the core tables that it selected, never
`plugin_schema_migrations`, and for each plugin whose code is there the tables that the file lists for it. The
code never compares that list with what the plugin owns, so a file stays within the plugins' own tables exactly
where it lists no other (`framed_iff`), and one that does writes anywhere (`not_framed`).
-/

namespace JenKea.Export

open Json (Fields lookup)

/-- What an import may write: a core table, except the migration rows, or for a plugin a table that its code
owns. -/
def Code.Allowed (code : Code) : Option String × String → Prop
  | (none, table) => table ∈ JEN_TABLES ∧ table ≠ "plugin_schema_migrations"
  | (some plugin, table) => table ∈ code.ownedTables plugin

/-- The statement writes rows of this table for this plugin, or takes them out. -/
def Targets (x : Option String × String) (s : Statement) : Prop := s.target = some x

section Ask

variable {A : Statement → Prop} {s : Statement}

@[simp] theorem calls_ask : (ask s).Calls A ↔ A s := by
  constructor
  · rintro (h | ⟨a | a, h⟩)
    · exact h
    · exact h.elim
    · exact h.elim
  · exact fun h => .inl h

@[simp] theorem returns_ask {a : s.Answer} : (ask s).Returns (.ok a) ↔ True :=
  iff_of_true ⟨.ok a, rfl⟩ trivial

end Ask

namespace Restore

/-! ## What a file can do -/

variable (r : Restore) (table : String) (rows : List Fields)

/-- The rows decode under the columns of some database. -/
def Decodes : Prop :=
  ∃ real binary params, columnsOf rows real ≠ [] ∧
    decodeImportRows table rows (columnsOf rows real) binary r.file.format = .ok params

/-- The table can be passed without an error: always where the import is not strict, and else where the file has
rows for it that decode, or none. -/
def Passes : Prop :=
  r.strict = false ∨ ∃ rows, r.file.rows? table = some rows ∧ (rows = [] ∨ r.Decodes table rows)

/-- The table can be emptied or filled. -/
def Writes : Prop :=
  ∃ rows, r.file.rows? table = some rows ∧
    if r.truncate then rows = [] ∨ rows.headD [] ≠ [] else rows ≠ [] ∧ r.Decodes table rows

/-- Among these tables, taken in order up to the first that cannot be passed, this one can be written. -/
def Reaches (tables : List String) : Prop :=
  ∃ before after, tables = before ++ table :: after ∧ (∀ t ∈ before, r.Passes t) ∧ r.Writes table

/-- The file lists for each plugin that is restored no table that can be written except the plugin's own. -/
def OnlyOwned : Prop :=
  r.refusal = [] → (∀ t ∈ r.coreSelected, r.Passes t) → ∀ x ∈ r.repaired, r.code.manifest x.1 ≠ none →
    ∀ t, r.Reaches t (x.2.filter (· ∈ r.selected)) → t ∈ r.code.ownedTables x.1

variable {r table rows} {plugin : Option String} {x : Option String × String} {A : Statement → Prop}

/-! ## One table -/

@[simp] theorem calls_unrestorable {message : String} : (r.unrestorable message).Calls A ↔ False := by
  unfold unrestorable
  split_ifs <;> exact Iff.rfl

theorem returns_unrestorable {message : String} :
    (∃ line, (r.unrestorable message).Returns (.ok line)) ↔ r.strict = false := by
  unfold unrestorable
  split_ifs with h
  · simp [h]
  · simp [h]

@[simp] theorem calls_report {n m : ℕ} : (r.report table n m).Calls A ↔ False := by
  unfold report
  dsimp only
  split_ifs <;> simp

/-- The count that the file has is no error. -/
theorem returns_report (n : ℕ) : ∃ line, (r.report table n n).Returns (.ok line) := by
  unfold report
  dsimp only
  have hskipped : ¬ (n : ℤ) - n ≠ 0 := by omega
  split_ifs with htruncate hne
  · exact absurd rfl hne
  · exact ⟨_, rfl⟩
  · exact ⟨_, rfl⟩

theorem calls_clear : (r.clear plugin table).Calls (Targets x) ↔ x = (plugin, table) ∧ r.truncate = true := by
  unfold clear
  split_ifs with h
  · rw [calls_ask, Targets, Statement.target, Option.some.injEq, eq_comm, and_iff_left h]
  · simp [h]

theorem returns_clear : (r.clear plugin table).Returns (.ok ()) := by
  unfold clear
  split_ifs
  · exact returns_ask.mpr trivial
  · rfl

/-- Rows are inserted where they decode. -/
theorem calls_insertRows {cols : List String} :
    (r.insertRows plugin table rows cols).Calls (Targets x) ↔ x = (plugin, table) ∧ rows ≠ [] ∧
      ∃ binary params, decodeImportRows table rows cols binary r.file.format = .ok params := by
  unfold insertRows
  split_ifs with hrows
  · simp [hrows]
  · constructor
    · intro h
      rcases Prog.calls_bind.mp h with h | ⟨binary, -, h⟩
      · cases calls_ask.mp h
      · rcases Prog.calls_bind.mp h with h | ⟨params, hparams, h⟩
        · exact absurd h (Prog.calls_ofExcept _).mp
        · have hx : (plugin, table) = x := Option.some.inj (calls_ask.mp h)
          exact ⟨hx.symm, hrows, binary, params, ((Prog.returns_ofExcept _).mp hparams).symm⟩
    · rintro ⟨rfl, -, binary, params, hparams⟩
      refine Prog.calls_bind.mpr (.inr ⟨binary, returns_ask.mpr trivial, ?_⟩)
      refine Prog.calls_bind.mpr (.inr ⟨params, (Prog.returns_ofExcept _).mpr hparams.symm, ?_⟩)
      exact calls_ask.mpr rfl

theorem returns_insertRows {cols : List String} {n : ℕ} :
    (r.insertRows plugin table rows cols).Returns (.ok n) ↔ (rows = [] ∧ n = 0) ∨ rows ≠ [] ∧
      ∃ binary params, decodeImportRows table rows cols binary r.file.format = .ok params := by
  unfold insertRows
  split_ifs with hrows
  · simp [hrows]
  · constructor
    · intro h
      rcases Prog.returns_bind.mp h with ⟨e, he, -⟩ | ⟨binary, -, h⟩
      · cases he
      · rcases Prog.returns_bind.mp h with ⟨e, he, -⟩ | ⟨params, hparams, -⟩
        · cases he
        · exact .inr ⟨hrows, binary, params, ((Prog.returns_ofExcept _).mp hparams).symm⟩
    · rintro (⟨hnil, -⟩ | ⟨-, binary, params, hparams⟩)
      · exact absurd hnil hrows
      · refine Prog.returns_bind.mpr (.inr ⟨binary, returns_ask.mpr trivial, ?_⟩)
        refine Prog.returns_bind.mpr (.inr ⟨params, (Prog.returns_ofExcept _).mpr hparams.symm, ?_⟩)
        exact returns_ask.mpr trivial

/-- What filling a table writes. -/
theorem calls_fill {cols : List String} : (r.fill plugin table rows cols).Calls (Targets x) ↔
    x = (plugin, table) ∧ (r.truncate = true ∨ rows ≠ [] ∧
      ∃ binary params, decodeImportRows table rows cols binary r.file.format = .ok params) := by
  unfold fill
  rw [Prog.calls_bind, calls_clear]
  constructor
  · rintro (⟨rfl, h⟩ | ⟨-, -, h⟩)
    · exact ⟨rfl, .inl h⟩
    · rcases Prog.calls_bind.mp h with h | ⟨n, -, h⟩
      · obtain ⟨rfl, hdecodes⟩ := calls_insertRows.mp h
        exact ⟨rfl, .inr hdecodes⟩
      · exact absurd h calls_report.mp
  · rintro ⟨rfl, h | h⟩
    · exact .inl ⟨rfl, h⟩
    · exact .inr ⟨(), returns_clear, Prog.calls_bind.mpr (.inl (calls_insertRows.mpr ⟨rfl, h⟩))⟩

/-- A table is filled without an error exactly where its rows decode. -/
theorem returns_fill {cols : List String} : (∃ line, (r.fill plugin table rows cols).Returns (.ok line)) ↔
    rows = [] ∨ ∃ binary params, decodeImportRows table rows cols binary r.file.format = .ok params := by
  unfold fill
  constructor
  · rintro ⟨line, h⟩
    rcases Prog.returns_bind.mp h with ⟨e, he, -⟩ | ⟨-, -, h⟩
    · cases he
    · rcases Prog.returns_bind.mp h with ⟨e, he, -⟩ | ⟨n, hn, -⟩
      · cases he
      · rcases returns_insertRows.mp hn with ⟨hnil, -⟩ | ⟨-, h⟩
        · exact .inl hnil
        · exact .inr h
  · intro h
    obtain ⟨line, hline⟩ := @returns_report r table rows.length
    refine ⟨line, Prog.returns_bind.mpr (.inr ⟨(), returns_clear, ?_⟩)⟩
    refine Prog.returns_bind.mpr (.inr ⟨rows.length, returns_insertRows.mpr ?_, hline⟩)
    by_cases hrows : rows = []
    · exact .inl ⟨hrows, by rw [hrows]; rfl⟩
    · exact .inr ⟨hrows, h.resolve_left hrows⟩

/-- Some database has one of the columns, where the first row has any. -/
theorem exists_columnsOf (rows : List Fields) : (∃ real, columnsOf rows real ≠ []) ↔ rows.headD [] ≠ [] := by
  constructor
  · rintro ⟨real, hreal⟩ hnil
    refine hreal ?_
    rw [columnsOf, hnil]
    rfl
  · intro hhead
    refine ⟨(rows.headD []).map Prod.fst, fun hnil => hhead ?_⟩
    have hall : columnsOf rows ((rows.headD []).map Prod.fst) = (rows.headD []).map Prod.fst :=
      List.filter_eq_self.mpr fun c hc => decide_eq_true hc
    rw [hall] at hnil
    exact List.map_eq_nil_iff.mp hnil

/-- The columns that are asked for can be any. -/
theorem returns_realColumns {real : List String} :
    (realColumns plugin table rows).Returns (.ok real) ↔ rows = [] → real = [] := by
  unfold realColumns
  split_ifs with hrows
  · simp [hrows]
  · exact iff_of_true (returns_ask.mpr trivial) fun hnil => absurd hnil hrows

theorem calls_realColumns : ¬ (realColumns plugin table rows).Calls (Targets x) := by
  unfold realColumns
  split_ifs
  · exact id
  · intro h
    cases calls_ask.mp h

/-- What `_import_rows` writes. -/
theorem calls_importRows :
    (r.importRows plugin table).Calls (Targets x) ↔ x = (plugin, table) ∧ r.Writes table := by
  unfold importRows Writes
  cases hrows : r.file.rows? table with
  | none => simp
  | some rows =>
    have hwrites : (∃ rows', some rows = some rows' ∧
        if r.truncate then rows' = [] ∨ rows'.headD [] ≠ [] else rows' ≠ [] ∧ r.Decodes table rows') ↔
        if r.truncate then rows = [] ∨ rows.headD [] ≠ [] else rows ≠ [] ∧ r.Decodes table rows := by
      simp only [Option.some.injEq, exists_eq_left']
    rw [hwrites]
    dsimp only
    constructor
    · intro h
      rcases Prog.calls_bind.mp h with h | ⟨there, -, h⟩
      · cases calls_ask.mp h
      split_ifs at h with hthere
      · rcases Prog.calls_bind.mp h with h | ⟨real, -, h⟩
        · exact absurd h calls_realColumns
        split_ifs at h with hcols
        · exact absurd h calls_unrestorable.mp
        · obtain ⟨rfl, hfill⟩ := calls_fill.mp h
          refine ⟨rfl, ?_⟩
          split_ifs with htruncate
          · by_cases hnil : rows = []
            · exact .inl hnil
            · exact .inr ((exists_columnsOf rows).mp ⟨real, fun hempty => hcols ⟨hnil, hempty⟩⟩)
          · obtain ⟨hne, binary, params, hparams⟩ := hfill.resolve_left htruncate
            exact ⟨hne, real, binary, params, fun hempty => hcols ⟨hne, hempty⟩, hparams⟩
      · exact absurd h calls_unrestorable.mp
    · rintro ⟨rfl, h⟩
      -- the table is there, and has the columns that the rows need
      have hreach : ∃ real, (rows = [] → real = []) ∧ ¬ (rows ≠ [] ∧ columnsOf rows real = []) ∧
          (r.truncate = true ∨ rows ≠ [] ∧ ∃ binary params,
            decodeImportRows table rows (columnsOf rows real) binary r.file.format = .ok params) := by
        split_ifs at h with htruncate
        · by_cases hnil : rows = []
          · exact ⟨[], fun _ => rfl, fun hne => hne.1 hnil, .inl htruncate⟩
          · obtain ⟨real, hreal⟩ := (exists_columnsOf rows).mpr (h.resolve_left hnil)
            exact ⟨real, fun hempty => absurd hempty hnil, fun hne => hreal hne.2, .inl htruncate⟩
        · obtain ⟨hne, real, binary, params, hreal, hparams⟩ := h
          exact ⟨real, fun hempty => absurd hempty hne, fun hno => hreal hno.2,
            .inr ⟨hne, binary, params, hparams⟩⟩
      obtain ⟨real, hreal, hcols, hfill⟩ := hreach
      refine Prog.calls_bind.mpr (.inr ⟨true, returns_ask.mpr trivial, ?_⟩)
      rw [if_pos rfl]
      refine Prog.calls_bind.mpr (.inr ⟨real, returns_realColumns.mpr hreal, ?_⟩)
      rw [if_neg hcols]
      exact calls_fill.mpr ⟨rfl, hfill⟩

/-- Whether `_import_rows` can return. -/
theorem returns_importRows : (∃ line, (r.importRows plugin table).Returns (.ok line)) ↔ r.Passes table := by
  unfold importRows Passes
  cases hrows : r.file.rows? table with
  | none =>
    dsimp only
    rw [returns_unrestorable]
    simp
  | some rows =>
    have hpasses : (∃ rows', some rows = some rows' ∧ (rows' = [] ∨ r.Decodes table rows')) ↔
        (rows = [] ∨ r.Decodes table rows) := by
      simp only [Option.some.injEq, exists_eq_left']
    rw [hpasses]
    dsimp only
    constructor
    · rintro ⟨line, h⟩
      rcases Prog.returns_bind.mp h with ⟨e, he, -⟩ | ⟨there, -, h⟩
      · cases he
      split_ifs at h with hthere
      · rcases Prog.returns_bind.mp h with ⟨e, he, -⟩ | ⟨real, -, h⟩
        · cases he
        split_ifs at h with hcols
        · exact .inl (returns_unrestorable.mp ⟨line, h⟩)
        · right
          by_cases hnil : rows = []
          · exact .inl hnil
          · obtain ⟨binary, params, hparams⟩ := (returns_fill.mp ⟨line, h⟩).resolve_left hnil
            exact .inr ⟨real, binary, params, fun hempty => hcols ⟨hnil, hempty⟩, hparams⟩
      · exact .inl (returns_unrestorable.mp ⟨line, h⟩)
    · rintro (hstrict | h)
      · -- a table that is not there is only a line
        obtain ⟨line, hline⟩ := (@returns_unrestorable r (s!"{table}: table does not exist in current schema — skipped")).mpr hstrict
        exact ⟨line, Prog.returns_bind.mpr (.inr ⟨false, returns_ask.mpr trivial, hline⟩)⟩
      · have hreach : ∃ real, (rows = [] → real = []) ∧ ¬ (rows ≠ [] ∧ columnsOf rows real = []) ∧
            (rows = [] ∨ ∃ binary params,
              decodeImportRows table rows (columnsOf rows real) binary r.file.format = .ok params) := by
          rcases h with hnil | ⟨real, binary, params, hreal, hparams⟩
          · exact ⟨[], fun _ => rfl, fun hne => hne.1 hnil, .inl hnil⟩
          · refine ⟨real, fun hempty => ?_, fun hno => hreal hno.2, .inr ⟨binary, params, hparams⟩⟩
            rw [hempty] at hreal
            exact absurd rfl hreal
        obtain ⟨real, hreal, hcols, hfill⟩ := hreach
        obtain ⟨line, hline⟩ := (@returns_fill r table rows plugin _).mpr hfill
        refine ⟨line, Prog.returns_bind.mpr (.inr ⟨true, returns_ask.mpr trivial, ?_⟩)⟩
        rw [if_pos rfl]
        refine Prog.returns_bind.mpr (.inr ⟨real, returns_realColumns.mpr hreal, ?_⟩)
        rw [if_neg hcols]
        exact hline

/-! ## Several tables -/

/-- The first table that cannot be passed is the last that is written. -/
theorem reaches_cons {t : String} {tables : List String} :
    r.Reaches table (t :: tables) ↔ (t = table ∧ r.Writes table) ∨ r.Passes t ∧ r.Reaches table tables := by
  unfold Reaches
  constructor
  · rintro ⟨before, after, hsplit, hbefore, hwrites⟩
    cases before with
    | nil => exact .inl ⟨(List.cons.inj hsplit).1, hwrites⟩
    | cons u before =>
      obtain ⟨rfl, rfl⟩ := List.cons.inj hsplit
      obtain ⟨hpasses, hbefore⟩ := List.forall_mem_cons.mp hbefore
      exact .inr ⟨hpasses, before, after, rfl, hbefore, hwrites⟩
  · rintro (⟨rfl, hwrites⟩ | ⟨hpasses, before, after, rfl, hbefore, hwrites⟩)
    · exact ⟨[], tables, rfl, fun _ h => absurd h List.not_mem_nil, hwrites⟩
    · exact ⟨t :: before, after, rfl, List.forall_mem_cons.mpr ⟨hpasses, hbefore⟩, hwrites⟩

/-- What the import of several tables writes. -/
theorem calls_importTables {tables results : List String} :
    (r.importTables plugin tables results).Calls (Targets x) ↔ x.1 = plugin ∧ r.Reaches x.2 tables := by
  induction tables generalizing results with
  | nil =>
    refine iff_of_false id fun h => ?_
    obtain ⟨before, after, hsplit, -⟩ := h.2
    cases before <;> cases hsplit
  | cons t tables ih =>
    rw [importTables, Prog.calls_bind, Prog.calls_attempt, calls_importRows, reaches_cons]
    constructor
    · rintro (⟨rfl, hwrites⟩ | ⟨line, hline, h⟩)
      · exact ⟨rfl, .inl ⟨rfl, hwrites⟩⟩
      · cases line with
        | error e => exact h.elim
        | ok line =>
          obtain ⟨result, hresult, hreturns⟩ := Prog.returns_attempt.mp hline
          obtain rfl := Except.ok.inj hresult
          obtain ⟨hplugin, hreaches⟩ := ih.mp h
          exact ⟨hplugin, .inr ⟨returns_importRows.mp ⟨line, hreturns⟩, hreaches⟩⟩
    · rintro ⟨hplugin, ⟨rfl, hwrites⟩ | ⟨hpasses, hreaches⟩⟩
      · exact .inl ⟨Prod.ext hplugin rfl, hwrites⟩
      · obtain ⟨line, hline⟩ := (@returns_importRows r t plugin).mpr hpasses
        exact .inr ⟨.ok line, Prog.returns_attempt.mpr ⟨_, rfl, hline⟩, ih.mpr ⟨hplugin, hreaches⟩⟩

/-- The tables are all passed, or the import of them stops. -/
theorem returns_importTables {tables results : List String} :
    (∃ lines, (r.importTables plugin tables results).Returns (.ok (lines, none))) ↔ ∀ t ∈ tables, r.Passes t := by
  induction tables generalizing results with
  | nil => exact iff_of_true ⟨results, rfl⟩ fun _ h => absurd h List.not_mem_nil
  | cons t tables ih =>
    rw [List.forall_mem_cons, importTables]
    constructor
    · rintro ⟨lines, h⟩
      rcases Prog.returns_bind.mp h with ⟨e, he, -⟩ | ⟨line, hline, h⟩
      · cases he
      cases line with
      | error e =>
        have herror : (lines, (none : Option (String × ImportError))) = (results, some (t, e)) := Except.ok.inj h
        cases herror
      | ok line =>
        obtain ⟨result, hresult, hreturns⟩ := Prog.returns_attempt.mp hline
        obtain rfl := Except.ok.inj hresult
        exact ⟨returns_importRows.mp ⟨line, hreturns⟩, ih.mp ⟨lines, h⟩⟩
    · rintro ⟨hpasses, hall⟩
      obtain ⟨line, hline⟩ := (@returns_importRows r t plugin).mpr hpasses
      obtain ⟨lines, hlines⟩ := (@ih (results ++ [line])).mpr hall
      exact ⟨lines, Prog.returns_bind.mpr (.inr ⟨.ok line, Prog.returns_attempt.mpr ⟨_, rfl, hline⟩, hlines⟩)⟩

/-! ## The core tables -/

theorem calls_importCore :
    r.importCore.Calls (Targets x) ↔ x.1 = none ∧ r.Reaches x.2 r.coreSelected := by
  unfold importCore
  constructor
  · intro h
    rcases Prog.calls_bind.mp h with h | ⟨-, -, h⟩
    · cases calls_ask.mp h
    rcases Prog.calls_bind.mp h with h | ⟨-, -, h⟩
    · cases calls_ask.mp h
    rcases Prog.calls_bind.mp h with h | ⟨⟨results, failed⟩, -, h⟩
    · exact calls_importTables.mp h
    cases failed with
    | some failure => exact h.elim
    | none =>
      rcases Prog.calls_bind.mp h with h | ⟨-, -, h⟩
      · cases calls_ask.mp h
      rcases Prog.calls_bind.mp h with h | ⟨-, -, h⟩
      · cases calls_ask.mp h
      · exact h.elim
  · intro h
    refine Prog.calls_bind.mpr (.inr ⟨(), returns_ask.mpr trivial, ?_⟩)
    refine Prog.calls_bind.mpr (.inr ⟨(), returns_ask.mpr trivial, ?_⟩)
    exact Prog.calls_bind.mpr (.inl (calls_importTables.mpr h))

theorem returns_importCore :
    (∃ lines, r.importCore.Returns (.ok lines)) ↔ ∀ t ∈ r.coreSelected, r.Passes t := by
  unfold importCore
  rw [← @returns_importTables r none r.coreSelected []]
  constructor
  · rintro ⟨lines, h⟩
    rcases Prog.returns_bind.mp h with ⟨e, he, -⟩ | ⟨-, -, h⟩
    · cases he
    rcases Prog.returns_bind.mp h with ⟨e, he, -⟩ | ⟨-, -, h⟩
    · cases he
    rcases Prog.returns_bind.mp h with ⟨e, he, -⟩ | ⟨⟨results, failed⟩, hresults, h⟩
    · cases he
    cases failed with
    | some failure => cases h
    | none => exact ⟨results, hresults⟩
  · rintro ⟨lines, h⟩
    refine ⟨lines, Prog.returns_bind.mpr (.inr ⟨(), returns_ask.mpr trivial, ?_⟩)⟩
    refine Prog.returns_bind.mpr (.inr ⟨(), returns_ask.mpr trivial, ?_⟩)
    refine Prog.returns_bind.mpr (.inr ⟨_, h, ?_⟩)
    refine Prog.returns_bind.mpr (.inr ⟨(), returns_ask.mpr trivial, ?_⟩)
    exact Prog.returns_bind.mpr (.inr ⟨(), returns_ask.mpr trivial, rfl⟩)

theorem calls_importCoreOrRollBack :
    r.importCoreOrRollBack.Calls (Targets x) ↔ x.1 = none ∧ r.Reaches x.2 r.coreSelected := by
  unfold importCoreOrRollBack
  rw [Prog.calls_handle, calls_importCore]
  refine or_iff_left fun ⟨e, _, h⟩ => ?_
  rcases Prog.calls_bind.mp h with h | ⟨-, -, h⟩
  · cases calls_ask.mp h
  rcases Prog.calls_bind.mp h with h | ⟨-, -, h⟩
  · cases calls_ask.mp h
  · exact h

theorem returns_importCoreOrRollBack :
    (∃ lines, r.importCoreOrRollBack.Returns (.ok lines)) ↔ ∀ t ∈ r.coreSelected, r.Passes t := by
  rw [← returns_importCore]
  refine exists_congr fun lines => ?_
  unfold importCoreOrRollBack
  rw [Prog.returns_handle]
  constructor
  · rintro (⟨lines', heq, h⟩ | ⟨e, -, h⟩)
    · rw [Except.ok.inj heq]
      exact h
    · rcases Prog.returns_bind.mp h with ⟨e, he, -⟩ | ⟨-, -, h⟩
      · cases he
      rcases Prog.returns_bind.mp h with ⟨e, he, -⟩ | ⟨-, -, h⟩
      · cases he
      · cases h
  · intro h
    exact .inl ⟨lines, rfl, h⟩

/-! ## The plugins -/

theorem calls_importPluginRows {name : String} {tables results : List String} :
    (r.importPluginRows name tables results).Calls (Targets x) ↔ x.1 = some name ∧ r.Reaches x.2 tables := by
  unfold importPluginRows
  constructor
  · intro h
    rcases Prog.calls_bind.mp h with h | ⟨began, -, h⟩
    · cases calls_ask.mp (Prog.calls_attempt.mp h)
    cases began with
    | error e => exact h.elim
    | ok _ =>
      rcases Prog.calls_bind.mp h with h | ⟨⟨lines, failed⟩, -, h⟩
      · exact calls_importTables.mp h
      cases failed with
      | some failure => exact h.elim
      | none =>
        rcases Prog.calls_bind.mp h with h | ⟨committed, -, h⟩
        · cases calls_ask.mp (Prog.calls_attempt.mp h)
        cases committed <;> exact h.elim
  · intro h
    refine Prog.calls_bind.mpr (.inr ⟨.ok (), Prog.returns_attempt.mpr ⟨_, rfl, returns_ask.mpr trivial⟩, ?_⟩)
    exact Prog.calls_bind.mpr (.inl (calls_importTables.mpr h))

theorem not_reaches_nil : ¬ r.Reaches table [] := by
  rintro ⟨before, after, hsplit, -⟩
  cases before <;> cases hsplit

theorem calls_importPlugin {y : String × List String} {o : Outcome} :
    (r.importPlugin y o).Calls (Targets x) ↔
      x.1 = some y.1 ∧ r.Reaches x.2 (y.2.filter (· ∈ r.selected)) := by
  unfold importPlugin
  dsimp only
  split_ifs with hnone
  · rw [hnone]
    exact iff_of_false id fun h => not_reaches_nil h.2
  constructor
  · intro h
    rcases Prog.calls_bind.mp h with h | ⟨⟨lines, failed⟩, -, h⟩
    · exact calls_importPluginRows.mp h
    cases failed with
    | none => exact h.elim
    | some failure =>
      rcases Prog.calls_bind.mp h with h | ⟨-, -, h⟩
      · cases calls_ask.mp h
      · exact h.elim
  · exact fun h => Prog.calls_bind.mpr (.inl (calls_importPluginRows.mpr h))

/-- A plugin is restored where its code is there. -/
theorem calls_restorePlugin {y : String × List String} {o : Outcome} :
    (r.restorePlugin y o).Calls (Targets x) ↔
      r.code.manifest y.1 ≠ none ∧ x.1 = some y.1 ∧ r.Reaches x.2 (y.2.filter (· ∈ r.selected)) := by
  unfold restorePlugin
  dsimp only
  split_ifs with hempty
  · rw [hempty, List.filter_nil]
    exact iff_of_false id fun h => not_reaches_nil h.2.2
  cases hmanifest : r.code.manifest y.1 with
  | none => exact iff_of_false id fun h => h.1 rfl
  | some m =>
    rw [and_iff_right (Option.some_ne_none m)]
    dsimp only
    unfold replayPlugin
    constructor
    · intro h
      rcases Prog.calls_bind.mp h with h | ⟨-, -, h⟩
      · cases calls_ask.mp h
      rcases Prog.calls_bind.mp h with h | ⟨⟨ok, msg⟩, -, h⟩
      · cases calls_ask.mp h
      cases ok with
      | true => exact calls_importPlugin.mp h
      | false => exact h.elim
    · intro h
      refine Prog.calls_bind.mpr (.inr ⟨(), returns_ask.mpr trivial, ?_⟩)
      refine Prog.calls_bind.mpr (.inr ⟨(true, ""), returns_ask.mpr trivial, ?_⟩)
      exact calls_importPlugin.mpr h

/-- A plugin whose migrations fail is passed. -/
theorem returns_restorePlugin (y : String × List String) (o : Outcome) :
    ∃ o', (r.restorePlugin y o).Returns (.ok o') := by
  unfold restorePlugin
  dsimp only
  split_ifs
  · exact ⟨o, rfl⟩
  cases r.code.manifest y.1 with
  | none => exact ⟨_, rfl⟩
  | some m =>
    dsimp only
    unfold replayPlugin
    refine Exists.imp (fun o' h => Prog.returns_bind.mpr (.inr ⟨(), returns_ask.mpr trivial, h⟩)) ?_
    refine Exists.imp (fun o' h => Prog.returns_bind.mpr (.inr ⟨(false, ""), returns_ask.mpr trivial, h⟩)) ?_
    exact ⟨_, rfl⟩

theorem calls_thenClose {α : Type} {p : Run α} : (thenClose p).Calls (Targets x) ↔ p.Calls (Targets x) := by
  unfold thenClose
  rw [Prog.calls_bind, Prog.calls_attempt]
  refine or_iff_left fun ⟨result, _, h⟩ => ?_
  rcases Prog.calls_bind.mp h with h | ⟨-, -, h⟩
  · cases calls_ask.mp h
  · exact absurd h (Prog.calls_ofExcept _).mp

theorem calls_restorePlugins {results : List String} : (r.restorePlugins results).Calls (Targets x) ↔
    ∃ y ∈ r.repaired, r.code.manifest y.1 ≠ none ∧ x.1 = some y.1 ∧
      r.Reaches x.2 (y.2.filter (· ∈ r.selected)) := by
  unfold restorePlugins
  rw [Prog.calls_fold returns_restorePlugin fun y o => calls_restorePlugin]
  simp only [List.mem_insertionSort]

/-- The check at the end writes nothing. -/
theorem calls_pluginInvariantViolations {code : Code} :
    ¬ (pluginInvariantViolations code).Calls (Targets x) := by
  have hmissing : ∀ plugin tables missing, ¬ (missingTables plugin tables missing).Calls (Targets x) := by
    intro plugin tables
    induction tables with
    | nil => exact fun _ => id
    | cons t tables ih =>
      intro missing h
      rcases Prog.calls_bind.mp h with h | ⟨missing', -, h⟩
      · rcases Prog.calls_bind.mp h with h | ⟨there, -, h⟩
        · cases calls_ask.mp h
        · cases there <;> exact h
      · exact ih missing' h
  have hfold : ∀ plugins missing, ¬ (Prog.fold (fun plugin missing =>
      missingTables plugin (code.ownedTables plugin) missing) plugins missing).Calls (Targets x) := by
    intro plugins
    induction plugins with
    | nil => exact fun _ => id
    | cons plugin plugins ih =>
      intro missing h
      rcases Prog.calls_bind.mp h with h | ⟨missing', -, h⟩
      · exact hmissing _ _ _ h
      · exact ih missing' h
  unfold pluginInvariantViolations
  intro h
  rcases Prog.calls_bind.mp h with h | ⟨migrated, -, h⟩
  · cases calls_ask.mp h
  · exact hfold _ _ h

/-! ## The import -/

/-- What the import of an accepted file writes. -/
theorem calls_run : r.run.Calls (Targets x) ↔ r.refusal = [] ∧
    ((x.1 = none ∧ r.Reaches x.2 r.coreSelected) ∨ (∀ t ∈ r.coreSelected, r.Passes t) ∧
      ∃ y ∈ r.repaired, r.code.manifest y.1 ≠ none ∧ x.1 = some y.1 ∧
        r.Reaches x.2 (y.2.filter (· ∈ r.selected))) := by
  unfold run
  cases hrefusal : r.refusal with
  | cons refused more => exact iff_of_false id fun h => absurd h.1 (List.cons_ne_nil _ _)
  | nil =>
    rw [and_iff_right rfl]
    dsimp only
    constructor
    · intro h
      rcases Prog.calls_bind.mp h with h | ⟨-, -, h⟩
      · cases calls_ask.mp h
      rcases Prog.calls_bind.mp h with h | ⟨results, hresults, h⟩
      · exact .inl (calls_importCoreOrRollBack.mp h)
      have hpasses := returns_importCoreOrRollBack.mp ⟨results, hresults⟩
      rcases Prog.calls_bind.mp h with h | ⟨o, -, h⟩
      · exact .inr ⟨hpasses, calls_restorePlugins.mp (calls_thenClose.mp h)⟩
      rcases Prog.calls_bind.mp h with h | ⟨-, -, h⟩
      · cases calls_ask.mp h
      rcases Prog.calls_bind.mp h with h | ⟨violations, -, h⟩
      · exact absurd (calls_thenClose.mp h) calls_pluginInvariantViolations
      · unfold finish at h
        split_ifs at h <;> exact h.elim
    · intro h
      refine Prog.calls_bind.mpr (.inr ⟨(), returns_ask.mpr trivial, ?_⟩)
      rcases h with h | ⟨hpasses, h⟩
      · exact Prog.calls_bind.mpr (.inl (calls_importCoreOrRollBack.mpr h))
      · obtain ⟨results, hresults⟩ := returns_importCoreOrRollBack.mpr hpasses
        refine Prog.calls_bind.mpr (.inr ⟨results, hresults, ?_⟩)
        exact Prog.calls_bind.mpr (.inl (calls_thenClose.mpr (calls_restorePlugins.mpr h)))

/-- The import of an accepted file stays within what it may write exactly where the file lists no other table. -/
theorem allowed_run : (∀ x, r.run.Calls (Targets x) → r.code.Allowed x) ↔ r.OnlyOwned := by
  constructor
  · intro h hrefusal hpasses y hy hmanifest t hreaches
    exact h (some y.1, t) (calls_run.mpr ⟨hrefusal, .inr ⟨hpasses, y, hy, hmanifest, rfl, hreaches⟩⟩)
  · rintro h ⟨plugin, t⟩ hcalls
    obtain ⟨hrefusal, ⟨rfl, hreaches⟩ | ⟨hpasses, y, hy, hmanifest, rfl, hreaches⟩⟩ := calls_run.mp hcalls
    · obtain ⟨before, after, hsplit, -, -⟩ := hreaches
      have hmem : t ∈ r.coreSelected := hsplit ▸ List.mem_append_right _ List.mem_cons_self
      have hcore : t ∈ JEN_TABLES ∧ t ≠ "plugin_schema_migrations" :=
        of_decide_eq_true (List.mem_filter.mp hmem).2
      exact hcore
    · exact h hrefusal hpasses y hy hmanifest t hreaches

/-- What `all_owned_tables` gives a plugin is its own. -/
theorem mem_ownedTables_of_claimTables {code : Code} {ids claimed : List String} {y : String × List String}
    (hy : y ∈ code.claimTables ids claimed) : ∀ t ∈ y.2, t ∈ code.ownedTables y.1 := by
  induction ids generalizing claimed with
  | nil => exact absurd hy List.not_mem_nil
  | cons id ids ih =>
    unfold Code.claimTables at hy
    cases hmanifest : code.manifest id with
    | none =>
      rw [hmanifest] at hy
      exact ih hy
    | some m =>
      rw [hmanifest] at hy
      rcases List.mem_cons.mp hy with rfl | hy
      · intro t ht
        show t ∈ code.ownedTables id
        unfold Code.ownedTables
        rw [hmanifest]
        exact (List.mem_filter.mp ht).1
      · exact ih hy

/-- A file that names no plugin is restored by what the plugins own. -/
theorem onlyOwned_of_unnamed (h : r.file.pluginTables = []) : r.OnlyOwned := by
  intro _ _ y hy _ t hreaches
  have hall : y ∈ r.code.allOwnedTables := by
    have hexport : r.exportPlugins = r.code.allOwnedTables := if_pos h
    unfold repaired at hy
    rw [hexport] at hy
    split_ifs at hy
    · exact hy
    · exact (List.mem_filter.mp hy).1
  obtain ⟨before, after, hsplit, -, -⟩ := hreaches
  have hmem : t ∈ y.2.filter (· ∈ r.selected) := hsplit ▸ List.mem_append_right _ List.mem_cons_self
  exact mem_ownedTables_of_claimTables hall t (List.mem_filter.mp hmem).1

end Restore

/-- For every file and every selection, an import writes only core tables, never the migration rows, and for
each plugin tables that it owns, exactly where the file lists only such tables among those that it can write. -/
theorem framed_iff (code : Code) (payload : Option Json) (tablesToRestore : List String) (truncate strict : Bool)
    (strictPlugins : Option Bool) :
    (∀ x, (importJen code payload tablesToRestore truncate strict strictPlugins).Calls (Targets x) →
      code.Allowed x) ↔
    ∀ file, parseImportFile payload = .ok file → file.database = "jen" →
      (⟨code, file, tablesToRestore, truncate, strict, strictPlugins.getD strict⟩ : Restore).OnlyOwned := by
  unfold importJen
  cases parseImportFile payload with
  | error e => exact iff_of_true (fun x h => h.elim) fun file hfile => nomatch hfile
  | ok file =>
    dsimp only
    split_ifs with hdatabase
    · exact iff_of_true (fun x h => h.elim) fun file' hfile hjen =>
        absurd (Except.ok.inj hfile ▸ hjen) hdatabase
    · refine Restore.allowed_run.trans ⟨fun h file' hfile _ => Except.ok.inj hfile ▸ h, fun h => ?_⟩
      exact h file rfl (not_not.mp hdatabase)

/-! ## A file that lists another table -/

/-- One plugin is there, which owns one table. -/
def wolCode : Code where
  installed := ["wol"]
  manifest id := if id = "wol" then some ⟨["wol_hosts"], none⟩ else none

/-- A file that lists the migration rows among the plugin's tables, and carries one. -/
def editedFile : Json :=
  .obj [("_meta", .obj [("database", .str "jen"), ("format", .int 3),
      ("plugin_tables", .obj [("wol", .obj [("tables", .arr [.str "plugin_schema_migrations"])])])]),
    ("data", .obj [("plugin_schema_migrations", .arr
      [.obj [("plugin_id", .str "ipam"), ("version", .int 99)]])])]

/-- A database in which everything succeeds. -/
def healthyAnswer : (s : Statement) → Except String s.Answer
  | .tableExists _ _ => .ok true
  | .columns _ _ => .ok ["plugin_id", "version"]
  | .binaryColumns _ _ => .ok []
  | .insert _ _ _ _ rows => .ok rows.length
  | .migrate _ => .ok (true, "")
  | .migratedPlugins => .ok ["wol"]
  | .rows _ | .migrationRows => .ok []
  | .binaryMap _ | .recordedTables | .pluginVersions => .ok []
  | .tableNames => .ok fun _ => true
  | .connect | .begin _ | .foreignKeyChecks _ | .delete _ _ | .commit _ | .rollback | .close | .clearMigrations _
  | .noteSeen | .deleteMigrationRows | .insertMigrationRows _ | .dropTable _ | .files => .ok ()

/-- The migration rows are emptied and filled from the file. -/
theorem not_framed :
    (parseImportFile (some editedFile)).isOk ∧
    (importJen wolCode (some editedFile) [] true true none).Calls (fun s =>
      s = Statement.insert (some "wol") false "plugin_schema_migrations" ["plugin_id", "version"]
        [[.json (.str "ipam"), .json (.int 99)]]) ∧
    (importJen wolCode (some editedFile) [] true true none).Calls
      (Targets (some "wol", "plugin_schema_migrations")) ∧
    ¬ wolCode.Allowed (some "wol", "plugin_schema_migrations") := by
  have htrace : Statement.insert (some "wol") false "plugin_schema_migrations" ["plugin_id", "version"]
      [[.json (.str "ipam"), .json (.int 99)]] ∈
        (importJen wolCode (some editedFile) [] true true none).trace healthyAnswer := by decide
  refine ⟨by decide, Prog.calls_of_trace htrace rfl, Prog.calls_of_trace htrace rfl, ?_⟩
  show "plugin_schema_migrations" ∉ wolCode.ownedTables "wol"
  decide

end JenKea.Export
