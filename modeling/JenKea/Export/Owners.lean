import JenKea.Export.Snapshot
import JenKea.Export.Frame

/-!
# Whose the tables of a snapshot are

A snapshot lists every table that is there of a plugin whose code is there, and lists no such table for a plugin
whose code is gone (`ownedIn_accounts`).
-/

namespace JenKea.Export

/-- Every plugin whose code is there was discovered, once, and no two plugins own a table. -/
structure Code.Sound (code : Code) : Prop where
  nodup : code.installed.Nodup
  discovered : ∀ plugin, code.manifest plugin ≠ none → plugin ∈ code.installed
  apart : ∀ plugin plugin' t, t ∈ code.ownedTables plugin → t ∈ code.ownedTables plugin' → plugin = plugin'

variable {code : Code} {tables : Tables}

theorem ownedTables_of_none {plugin : String} (h : code.manifest plugin = none) : code.ownedTables plugin = [] := by
  unfold Code.ownedTables
  rw [h]
  rfl

/-- A plugin owns no table of Jen's own. -/
theorem not_mem_core {plugin t : String} (ht : t ∈ code.ownedTables plugin) : t ∉ JEN_TABLES := by
  unfold Code.ownedTables at ht
  cases hmanifest : code.manifest plugin with
  | none =>
    rw [hmanifest] at ht
    exact absurd ht List.not_mem_nil
  | some m =>
    rw [hmanifest] at ht
    exact (of_decide_eq_true (List.mem_filter.mp ht).2).2

/-- Where no two plugins own a table, each is left with what it owns. -/
theorem mem_claimTables (hcode : code.Sound) {ids claimed : List String} (hids : ids.Nodup)
    (hclaimed : ∀ t ∈ claimed, ∀ id ∈ ids, t ∉ code.ownedTables id) {x : String × List String} :
    x ∈ code.claimTables ids claimed ↔
      x.1 ∈ ids ∧ code.manifest x.1 ≠ none ∧ x.2 = code.ownedTables x.1 := by
  induction ids generalizing claimed with
  | nil =>
    refine iff_of_false List.not_mem_nil ?_
    rintro ⟨h, -⟩
    exact List.not_mem_nil h
  | cons id ids ih =>
    obtain ⟨hid, hids⟩ := List.nodup_cons.mp hids
    unfold Code.claimTables
    cases hmanifest : code.manifest id with
    | none =>
      dsimp only
      rw [ih hids fun t ht id' hid' => hclaimed t ht id' (List.mem_cons_of_mem id hid')]
      constructor
      · rintro ⟨hmem, hrest⟩
        exact ⟨List.mem_cons_of_mem id hmem, hrest⟩
      · rintro ⟨hmem, hsome, heq⟩
        refine ⟨(List.mem_cons.mp hmem).resolve_left fun hx => ?_, hsome, heq⟩
        exact hsome (hx ▸ hmanifest)
    | some m =>
      have howned : m.ownedTables = code.ownedTables id := by
        unfold Code.ownedTables
        rw [hmanifest]
        rfl
      have hkept : m.ownedTables.filter (· ∉ claimed) = code.ownedTables id := by
        rw [howned]
        refine List.filter_eq_self.mpr fun t ht => decide_eq_true fun hin => ?_
        exact hclaimed t hin id List.mem_cons_self ht
      have hclaimed' : ∀ t ∈ claimed ++ code.ownedTables id, ∀ id' ∈ ids, t ∉ code.ownedTables id' := by
        intro t ht id' hid' ht'
        rcases List.mem_append.mp ht with hin | hin
        · exact hclaimed t hin id' (List.mem_cons_of_mem id hid') ht'
        · exact hid (hcode.apart id id' t hin ht' ▸ hid')
      dsimp only
      rw [hkept, List.mem_cons, ih hids hclaimed']
      constructor
      · rintro (rfl | ⟨hmem, hrest⟩)
        · exact ⟨List.mem_cons_self, by rw [hmanifest]; exact (by rintro ⟨⟩), rfl⟩
        · exact ⟨List.mem_cons_of_mem id hmem, hrest⟩
      · rintro ⟨hmem, hsome, heq⟩
        rcases List.mem_cons.mp hmem with hx | hmem
        · exact .inl (Prod.ext hx (hx ▸ heq))
        · exact .inr ⟨hmem, hsome, heq⟩

theorem mem_allOwnedTables (hcode : code.Sound) {x : String × List String} :
    x ∈ code.allOwnedTables ↔ code.manifest x.1 ≠ none ∧ x.2 = code.ownedTables x.1 := by
  refine (mem_claimTables hcode hcode.nodup fun t ht => absurd ht List.not_mem_nil).trans ?_
  exact and_iff_right_of_imp fun h => hcode.discovered _ h.1

theorem mem_flatMap_allOwnedTables (hcode : code.Sound) {t : String} :
    t ∈ code.allOwnedTables.flatMap Prod.snd ↔ ∃ plugin, t ∈ code.ownedTables plugin := by
  rw [List.mem_flatMap]
  constructor
  · rintro ⟨x, hx, ht⟩
    exact ⟨x.1, ((mem_allOwnedTables hcode).mp hx).2 ▸ ht⟩
  · rintro ⟨plugin, ht⟩
    refine ⟨(plugin, code.ownedTables plugin), (mem_allOwnedTables hcode).mpr ⟨fun hnone => ?_, rfl⟩, ht⟩
    rw [ownedTables_of_none hnone] at ht
    exact List.not_mem_nil ht

/-! ## The tables of each plugin -/

theorem mem_addTable {plugin t : String} {owned : List (String × List String)} {y : String × List String}
    (hy : y ∈ addTable plugin t owned) : y ∈ owned ∨ (y.1 = plugin ∧ y.2 = [t] ∧ ∀ x ∈ owned, x.1 ≠ plugin) ∨
      ∃ x ∈ owned, x.1 = plugin ∧ y = (x.1, x.2 ++ [t]) := by
  induction owned with
  | nil =>
    obtain rfl := List.mem_singleton.mp hy
    exact .inr (.inl ⟨rfl, rfl, fun x hx => absurd hx List.not_mem_nil⟩)
  | cons x owned ih =>
    unfold addTable at hy
    split_ifs at hy with hx
    · rcases List.mem_cons.mp hy with rfl | hy
      · exact .inr (.inr ⟨x, List.mem_cons_self, hx, rfl⟩)
      · exact .inl (List.mem_cons_of_mem x hy)
    · rcases List.mem_cons.mp hy with rfl | hy
      · exact .inl List.mem_cons_self
      · rcases ih hy with hmem | ⟨hplugin, hone, hnone⟩ | ⟨z, hz, hzplugin, heq⟩
        · exact .inl (List.mem_cons_of_mem x hmem)
        · refine .inr (.inl ⟨hplugin, hone, fun z hz => ?_⟩)
          rcases List.mem_cons.mp hz with rfl | hz
          · exact hx
          · exact hnone z hz
        · exact .inr (.inr ⟨z, List.mem_cons_of_mem x hz, hzplugin, heq⟩)

/-- No plugin is lost. -/
theorem exists_mem_addTable {plugin t : String} {owned : List (String × List String)} {x : String × List String}
    (hx : x ∈ owned) : ∃ y ∈ addTable plugin t owned, y.1 = x.1 := by
  induction owned with
  | nil => exact absurd hx List.not_mem_nil
  | cons z owned ih =>
    unfold addTable
    split_ifs with hz
    · rcases List.mem_cons.mp hx with rfl | hx
      · exact ⟨_, List.mem_cons_self, rfl⟩
      · exact ⟨x, List.mem_cons_of_mem _ hx, rfl⟩
    · rcases List.mem_cons.mp hx with rfl | hx
      · exact ⟨x, List.mem_cons_self, rfl⟩
      · obtain ⟨y, hy, heq⟩ := ih hx
        exact ⟨y, List.mem_cons_of_mem z hy, heq⟩

/-- The tables of the plugins are accounted for: every table that is there, of a plugin whose code is there, is
listed for it, and none is listed for a plugin whose code is gone. -/
structure Accounts (code : Code) (tables : Tables) (owned : List (String × List String)) : Prop where
  known : ∀ plugin, code.manifest plugin ≠ none → ∃ x ∈ owned, x.1 = plugin
  full : ∀ x ∈ owned, ∀ t ∈ code.ownedTables x.1, (tables t).isSome → t ∈ x.2
  there : ∀ x ∈ owned, ∀ t ∈ x.2, t ∉ JEN_TABLES ∧ (tables t).isSome
  gone : ∀ x ∈ owned, ∀ t ∈ x.2, code.manifest x.1 = none → ∀ plugin, t ∉ code.ownedTables plugin

theorem foundIn_accounts (hcode : code.Sound) : Accounts code tables (foundIn code tables) := by
  have hfound : ∀ x ∈ foundIn code tables,
      code.manifest x.1 ≠ none ∧ x.2 = existingIn tables (code.ownedTables x.1) := by
    intro x hx
    obtain ⟨y, hy, rfl⟩ := List.mem_map.mp hx
    obtain ⟨hmanifest, howned⟩ := (mem_allOwnedTables hcode).mp hy
    exact ⟨hmanifest, by rw [howned]⟩
  constructor
  · intro plugin hmanifest
    refine ⟨(plugin, existingIn tables (code.ownedTables plugin)), ?_, rfl⟩
    exact List.mem_map.mpr ⟨(plugin, code.ownedTables plugin),
      (mem_allOwnedTables hcode).mpr ⟨hmanifest, rfl⟩, rfl⟩
  · intro x hx t ht hthere
    rw [(hfound x hx).2]
    exact List.mem_filter.mpr ⟨ht, hthere⟩
  · intro x hx t ht
    rw [(hfound x hx).2] at ht
    obtain ⟨hmem, hthere⟩ := List.mem_filter.mp ht
    exact ⟨not_mem_core hmem, hthere⟩
  · intro x hx t _ hnone
    exact absurd hnone (hfound x hx).1

/-- A table of the record is listed. -/
theorem Accounts.addRecorded {o : Owned} (h : Accounts code tables o.tables)
    (hclaimed : ∀ plugin, ∀ t ∈ code.ownedTables plugin, t ∈ o.claimed) (x : String × String) :
    Accounts code tables (addRecordedIn tables o x).tables ∧
      ∀ plugin, ∀ t ∈ code.ownedTables plugin, t ∈ (addRecordedIn tables o x).claimed := by
  unfold addRecordedIn
  split_ifs with htaken hthere
  · exact ⟨h, hclaimed⟩
  · refine ⟨?_, fun plugin t ht => List.mem_append_left _ (hclaimed plugin t ht)⟩
    obtain ⟨hfree, hcore, -⟩ := not_or.mp htaken |>.imp_right not_or.mp
    constructor
    · intro plugin hmanifest
      obtain ⟨y, hy, rfl⟩ := h.known plugin hmanifest
      exact exists_mem_addTable hy
    · intro y hy t ht hsome
      rcases mem_addTable hy with hy | ⟨hplugin, -, hnew⟩ | ⟨z, hz, hzplugin, rfl⟩
      · exact h.full y hy t ht hsome
      · -- a plugin that is new has no code
        by_cases hmanifest : code.manifest y.1 = none
        · rw [ownedTables_of_none hmanifest] at ht
          exact absurd ht List.not_mem_nil
        · obtain ⟨z, hz, hzplugin⟩ := h.known y.1 hmanifest
          exact absurd (hzplugin.trans hplugin) (hnew z hz)
      · exact List.mem_append_left _ (h.full z hz t ht hsome)
    · intro y hy t ht
      rcases mem_addTable hy with hy | ⟨-, hone, -⟩ | ⟨z, hz, -, rfl⟩
      · exact h.there y hy t ht
      · obtain rfl := List.mem_singleton.mp (hone ▸ ht)
        exact ⟨hcore, hthere⟩
      · rcases List.mem_append.mp ht with ht | ht
        · exact h.there z hz t ht
        · obtain rfl := List.mem_singleton.mp ht
          exact ⟨hcore, hthere⟩
    · intro y hy t ht hnone plugin howned
      rcases mem_addTable hy with hy | ⟨-, hone, -⟩ | ⟨z, hz, -, rfl⟩
      · exact h.gone y hy t ht hnone plugin howned
      · obtain rfl := List.mem_singleton.mp (hone ▸ ht)
        exact hfree (hclaimed plugin _ howned)
      · rcases List.mem_append.mp ht with ht | ht
        · exact h.gone z hz t ht hnone plugin howned
        · obtain rfl := List.mem_singleton.mp ht
          exact hfree (hclaimed plugin _ howned)
  · exact ⟨h, hclaimed⟩

theorem ownedIn_accounts (hcode : code.Sound) : Accounts code tables (ownedIn code tables) := by
  have hfold : ∀ recorded : List (String × String), ∀ o : Owned, Accounts code tables o.tables →
      (∀ plugin, ∀ t ∈ code.ownedTables plugin, t ∈ o.claimed) →
      Accounts code tables (recorded.foldl (addRecordedIn tables) o).tables := by
    intro recorded
    induction recorded with
    | nil => exact fun o h _ => h
    | cons x recorded ih =>
      intro o h hclaimed
      obtain ⟨h', hclaimed'⟩ := h.addRecorded hclaimed x
      exact ih _ h' hclaimed'
  unfold ownedIn
  split_ifs
  · refine hfold _ _ (foundIn_accounts hcode) fun plugin t ht => ?_
    exact (mem_flatMap_allOwnedTables hcode).mpr ⟨plugin, ht⟩
  · exact foundIn_accounts hcode

end JenKea.Export
