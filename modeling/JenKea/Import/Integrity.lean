import JenKea.Import.Edits
import JenKea.Import.Pools
import JenKea.Lib.Loop

/-!
# The guards of an import

Whether the policies of the imported scopes are guarded, in the configuration that an import makes, by
classes with their own tests, and whether the classes that were there keep theirs. Classes are written
over by name, and in the old spelling a container has one guard at most; the import is whole exactly
when neither takes anything away (`Undisturbed`).
-/

namespace JenKea.Import

open Json

/-! ## What a scope is mapped to -/

/-- What the walk through some policies has come to: a class for each that becomes one, and a guard for
each class. -/
structure Tallied (optionsToKea : OptionsToKea) (context : String) (policies : List Policy)
    (c : Carving) : Prop where
  classes : c.classes = policies.filterMap fun p => (policyToClass optionsToKea p context).1
  attached : ∀ cls ∈ c.classes, cls.name ∈ c.subnetGuards ∨ ∃ text, (text, cls.name) ∈ c.poolGuards
  subnet : c.subnetGuards.Sublist (c.classes.map ClassDict.name)
  pool : (c.poolGuards.map Prod.snd).Sublist (c.classes.map ClassDict.name)
  texts : ∀ guard ∈ c.poolGuards, ∃ r ∈ c.carved, poolText r = some guard.1

section Walk

variable {optionsToKea : OptionsToKea} {context : String} {policies : List Policy}
  {c c' : Carving} {p : Policy}

/-- What one policy adds. -/
theorem carvePolicy_cases (h : carvePolicy optionsToKea context c p = some c') :
    ((policyToClass optionsToKea p context).1 = none ∧ c'.classes = c.classes ∧
        c'.carved = c.carved ∧ c'.poolGuards = c.poolGuards ∧ c'.subnetGuards = c.subnetGuards) ∨
      ∃ cls, (policyToClass optionsToKea p context).1 = some cls ∧
        c'.classes = c.classes ++ [cls] ∧
          ((∃ r text, poolText r = some text ∧ c'.carved = c.carved ++ [r] ∧
              c'.poolGuards = c.poolGuards ++ [(text, cls.name)] ∧
              c'.subnetGuards = c.subnetGuards) ∨
            c'.carved = c.carved ∧ c'.poolGuards = c.poolGuards ∧
              c'.subnetGuards = c.subnetGuards ++ [cls.name]) := by
  unfold carvePolicy at h
  split at h
  · next hclass =>
    obtain rfl := Option.some.inj h
    exact .inl ⟨by rw [hclass], rfl, rfl, rfl, rfl⟩
  · next cls warnings hclass =>
    refine .inr ⟨cls, by rw [hclass], ?_⟩
    simp only [Option.bind_eq_bind, Option.bind_eq_some_iff] at h
    obtain ⟨⟨segments, carved, failed⟩, -, h⟩ := h
    dsimp only at h
    cases carved with
    | none =>
      obtain rfl := Option.some.inj h
      exact ⟨rfl, .inr ⟨rfl, rfl, rfl⟩⟩
    | some r =>
      simp only [Option.bind_eq_some_iff] at h
      obtain ⟨text, htext, h⟩ := h
      obtain rfl := Option.some.inj h
      exact ⟨rfl, .inl ⟨r, text, htext, rfl, rfl, rfl⟩⟩

theorem Tallied.step (hc : Tallied optionsToKea context policies c)
    (h : carvePolicy optionsToKea context c p = some c') :
    Tallied optionsToKea context (policies ++ [p]) c' := by
  rcases carvePolicy_cases h with ⟨hnone, hclasses, hcarved, hpool, hsubnet⟩ |
    ⟨cls, hsome, hclasses, hguard⟩
  · constructor
    · rw [hclasses, hc.classes]
      simp [hnone]
    · rw [hclasses, hpool, hsubnet]
      exact hc.attached
    · rw [hclasses, hsubnet]
      exact hc.subnet
    · rw [hclasses, hpool]
      exact hc.pool
    · rw [hpool, hcarved]
      exact hc.texts
  · have hnames : c'.classes.map ClassDict.name = c.classes.map ClassDict.name ++ [cls.name] := by
      rw [hclasses, List.map_append, List.map_singleton]
    have hmapped : c'.classes =
        (policies ++ [p]).filterMap fun p => (policyToClass optionsToKea p context).1 := by
      rw [hclasses, hc.classes]
      simp [hsome]
    rcases hguard with ⟨r, text, htext, hcarved, hpool, hsubnet⟩ | ⟨hcarved, hpool, hsubnet⟩
    · refine ⟨hmapped, ?_, ?_, ?_, ?_⟩
      · rw [hclasses, hpool, hsubnet, List.forall_mem_append]
        refine ⟨fun cls' hcls' => ?_, by simp⟩
        rcases hc.attached cls' hcls' with hin | ⟨text', hin⟩
        · exact .inl hin
        · exact .inr ⟨text', List.mem_append_left _ hin⟩
      · rw [hnames, hsubnet]
        exact hc.subnet.trans (List.sublist_append_left _ _)
      · rw [hnames, hpool, List.map_append]
        exact hc.pool.append (List.Sublist.refl _)
      · rw [hpool, hcarved, List.forall_mem_append]
        refine ⟨fun guard hmem => ?_, by simpa using .inr htext⟩
        obtain ⟨r', hr', htext'⟩ := hc.texts guard hmem
        exact ⟨r', List.mem_append_left _ hr', htext'⟩
    · refine ⟨hmapped, ?_, ?_, ?_, ?_⟩
      · rw [hclasses, hpool, hsubnet, List.forall_mem_append]
        refine ⟨fun cls' hcls' => ?_, by simp⟩
        rcases hc.attached cls' hcls' with hin | hin
        · exact .inl (List.mem_append_left _ hin)
        · exact .inr hin
      · rw [hnames, hsubnet]
        exact hc.subnet.append (List.Sublist.refl _)
      · rw [hnames, hpool]
        exact hc.pool.trans (List.sublist_append_left _ _)
      · rw [hpool, hcarved]
        exact hc.texts

theorem Tallied.foldlM {more : List Policy} (hc : Tallied optionsToKea context policies c)
    (h : more.foldlM (carvePolicy optionsToKea context) c = some c') :
    Tallied optionsToKea context (policies ++ more) c' := by
  induction more generalizing policies c with
  | nil =>
    obtain rfl := Option.some.inj h
    rw [List.append_nil]
    exact hc
  | cons p more ih =>
    rw [List.foldlM_cons, Option.bind_eq_bind, Option.bind_eq_some_iff] at h
    obtain ⟨c₁, hc₁, h⟩ := h
    rw [← List.singleton_append, ← List.append_assoc]
    exact ih (hc.step hc₁) h

end Walk

/-- The classes of the policies of a scope. -/
def Scope.classes (optionsToKea : OptionsToKea) (scope : Scope) : List ClassDict :=
  scope.inOrder.filterMap fun p => (policyToClass optionsToKea p ("scope " ++ scope.name)).1

/-- What a scope is mapped to: the classes of its policies, and guards of the subnet and of its pools
that come to these classes, one each. -/
structure Mapped (optionsToKea : OptionsToKea) (scope : Scope) (id : ℤ) (m : MappedScope) :
    Prop where
  id : m.subnet.id = id
  classes : m.classes = scope.classes optionsToKea
  attached : ∀ cls ∈ m.classes, cls.name ∈ m.subnetGuards ∨ ∃ text, (text, cls.name) ∈ m.poolGuards
  subnet : m.subnetGuards.Sublist (m.classes.map ClassDict.name)
  pool : (m.poolGuards.map Prod.snd).Sublist (m.classes.map ClassDict.name)
  texts : ∀ guard ∈ m.poolGuards, guard.1 ∈ m.subnet.pools

theorem mapped_scopeToSubnet {optionsToKea : OptionsToKea} {scope : Scope} {id : ℤ}
    {m : MappedScope} (h : scopeToSubnet optionsToKea scope id = some m) :
    Mapped optionsToKea scope id m := by
  unfold scopeToSubnet at h
  simp only [Option.bind_eq_bind, Option.bind_eq_some_iff, Option.pure_def,
    Option.some.injEq] at h
  obtain ⟨segments, -, c, hc, pools, hpools, rfl⟩ := h
  have htallied : Tallied optionsToKea ("scope " ++ scope.name) ([] ++ scope.inOrder) c :=
    Tallied.foldlM ⟨rfl, by simp, by simp, by simp, by simp⟩ hc
  rw [List.nil_append] at htallied
  refine ⟨rfl, htallied.classes, htallied.attached, htallied.subnet, htallied.pool, ?_⟩
  intro guard hguard
  obtain ⟨r, hr, htext⟩ := htallied.texts guard hguard
  obtain ⟨text, hmem, heq⟩ := Loop.exists_mem_of_mapM hpools r (List.mem_append_right _ hr)
  obtain rfl := Option.some.inj (htext.symm.trans heq)
  exact hmem

/-! ## The steps of the import -/

/-- What the import says of a scope that it added: the section that it was added to, and the one that
its guards were attached in. -/
structure AddedTo (optionsToKea : OptionsToKea) (d4 : Dhcp4) (a : Added) : Prop where
  mapped : Mapped optionsToKea a.scope a.id a.mapped
  classes : a.before.classes = a.mapped.classes.foldl upsertClass4 d4.classes
  fresh : d4.subnet4ById a.id = none
  this : a.before.subnet4ById a.id = some a.mapped.subnet.entry
  others : ∀ id, id ≠ a.id → a.before.subnet4ById id = d4.subnet4ById id

section Steps

variable {optionsToKea : OptionsToKea} {subnetNames : List (String × SubnetName)}
  {shared : List (String × List String)} {st st' : Imported} {scope : Scope}

theorem cfg_importReservations (id : ℤ) (reservations : List Reservation) :
    (reservations.foldl (importReservation optionsToKea id) st).cfg = st.cfg := by
  induction reservations generalizing st with
  | nil => rfl
  | cons res reservations ih =>
    rw [List.foldl_cons, ih]
    rfl

/-- A scope is added, with its classes and its guards, or leaves the section as it is. -/
theorem importScope_cases {added : Option Added}
    (h : importScope optionsToKea subnetNames shared st scope = some (st', added)) :
    (added = none ∧ st'.cfg = st.cfg) ∨
      ∃ a, added = some a ∧ AddedTo optionsToKea st.cfg a ∧
        Attaching a.before st'.cfg a.id (guardedEntry (attachmentKeys a.before none) a.mapped) := by
  unfold importScope at h
  dsimp only at h
  split at h
  · obtain ⟨rfl, rfl⟩ := Prod.mk.inj (Option.some.inj h)
    exact .inl ⟨rfl, rfl⟩
  · next id hid =>
    simp only [Option.bind_eq_bind, Option.bind_eq_some_iff] at h
    obtain ⟨m, hm, h⟩ := h
    split_ifs at h
    · obtain ⟨rfl, rfl⟩ := Prod.mk.inj (Option.some.inj h)
      exact .inl ⟨rfl, rfl⟩
    · split at h
      · obtain ⟨rfl, rfl⟩ := Prod.mk.inj (Option.some.inj h)
        exact .inl ⟨rfl, rfl⟩
      · next cfg hadd =>
        obtain ⟨rfl, rfl⟩ := Prod.mk.inj (Option.some.inj h)
        have hmapped := mapped_scopeToSubnet hm
        obtain ⟨hclasses, -, -⟩ := addSubnet4_ok hadd
        have hfind := fun id' => subnet4ById_addSubnet4 id' hadd
        rw [hmapped.id] at hfind
        refine .inr ⟨_, rfl, ⟨hmapped, ?_, (hfind id).1, ?_, fun id' hid' => ?_⟩, ?_⟩
        · rw [← hclasses]
        · exact (hfind id).2.trans (if_pos rfl)
        · exact (hfind id').2.trans (if_neg hid'.symm)
        · dsimp only
          rw [cfg_importReservations]
          exact Attaching.foldl m ⟨rfl, rfl, (hfind id).2.trans (if_pos rfl), fun _ _ => rfl⟩

/-- What a run through scopes has come to: every subnet that was there is as it was, every scope that
was added has its subnet with its guards, and the classes are written in order. -/
theorem importScopes_spec {scopes : List Scope} {added : List Added}
    (h : importScopes optionsToKea subnetNames shared st scopes = some (st', added)) :
    (∀ id s, st.cfg.subnet4ById id = some s → st'.cfg.subnet4ById id = some s) ∧
      (∀ a ∈ added, Mapped optionsToKea a.scope a.id a.mapped ∧ st'.cfg.subnet4ById a.id =
        some (guardedEntry (attachmentKeys a.before none) a.mapped)) ∧
      st'.cfg.classes =
        (added.flatMap fun a => a.mapped.classes).foldl upsertClass4 st.cfg.classes := by
  induction scopes generalizing st added with
  | nil =>
    obtain ⟨rfl, rfl⟩ := Prod.mk.inj (Option.some.inj h)
    exact ⟨fun _ _ hs => hs, by simp, rfl⟩
  | cons scope scopes ih =>
    simp only [importScopes, Option.bind_eq_bind, Option.bind_eq_some_iff, Option.pure_def,
      Option.some.injEq, Prod.mk.injEq] at h
    obtain ⟨⟨st₁, first⟩, hfirst, ⟨st₂, rest⟩, hrest, rfl, rfl⟩ := h
    obtain ⟨hkept, hguards, hclasses⟩ := ih hrest
    dsimp only at hkept hguards hclasses ⊢
    rcases importScope_cases hfirst with ⟨rfl, hcfg⟩ | ⟨a, rfl, ha, hattach⟩
    · rw [hcfg] at hkept hclasses
      exact ⟨hkept, hguards, hclasses⟩
    · refine ⟨fun id s hs => hkept id s ?_, ?_, ?_⟩
      · have hne : id ≠ a.id := by
          rintro rfl
          rw [ha.fresh] at hs
          cases hs
        rw [hattach.others id hne, ha.others id hne, hs]
      · rw [Option.toList_some, List.singleton_append, List.forall_mem_cons]
        exact ⟨⟨ha.mapped, hkept a.id _ hattach.this⟩, hguards⟩
      · rw [hclasses, hattach.classes, ha.classes, Option.toList_some, List.singleton_append,
          List.flatMap_cons, List.foldl_append]

/-- The classes of the plan that belong to no scope, where the review page has chosen them. -/
def globalClasses (optionsToKea : OptionsToKea) (plan : Plan) (selections : Selections) :
    List ClassDict :=
  if selections.classes then
    plan.globalClasses.filterMap fun p => (policyToClass optionsToKea p "global").1
  else []

/-- No option of the server is a class. -/
theorem classes_foldl (codes : List (Option Json)) (entries : List Json) (st : Imported) :
    (entries.foldl (fun st e =>
      match e with
      | .obj fs =>
        let code := (lookup "code" fs).getD .null
        if codes.any fun c => (c.getD .null).pyEq code then
          { st with report := st.report ++ ["server option " ++
            (match code with
              | .int n => toString n
              | _ => "None") ++ " already present at global level — kept as-is"] }
        else { st with cfg := { st.cfg with optionData := st.cfg.optionData ++ [fs] } }
      | _ => st) st).cfg.classes = st.cfg.classes := by
  induction entries generalizing st with
  | nil => rfl
  | cons e entries ih =>
    rw [List.foldl_cons, ih]
    split
    · dsimp only
      split <;> rfl
    · rfl

theorem classes_importServerOptions (plan : Plan) :
    (importServerOptions optionsToKea plan st).cfg.classes = st.cfg.classes :=
  classes_foldl _ _ _

/-- Before the scopes come the classes that belong to none. -/
theorem classes_prepare (plan : Plan) (existing : Dhcp4) (selections : Selections) :
    (prepare optionsToKea plan existing selections).cfg.classes =
      (globalClasses optionsToKea plan selections).foldl upsertClass4 existing.classes := by
  have hclasses : ∀ (policies : List Policy) (st : Imported),
      (policies.foldl (importClass optionsToKea) st).cfg.classes =
        (policies.filterMap fun p => (policyToClass optionsToKea p "global").1).foldl upsertClass4
          st.cfg.classes := by
    intro policies
    induction policies with
    | nil => exact fun _ => rfl
    | cons p policies ih =>
      intro st
      have hstep : (importClass optionsToKea st p).cfg.classes =
          (policyToClass optionsToKea p "global").1.elim st.cfg.classes
            (upsertClass4 st.cfg.classes) := rfl
      rw [List.foldl_cons, ih, hstep, List.filterMap_cons]
      cases (policyToClass optionsToKea p "global").1 <;> rfl
  have hnetworks : ∀ (names : List String) (st : Imported),
      (names.foldl importNetwork st).cfg.classes = st.cfg.classes := by
    intro names
    induction names with
    | nil => exact fun _ => rfl
    | cons name names ih =>
      intro st
      rw [List.foldl_cons, ih]
      unfold importNetwork createSharedNetwork4
      split_ifs <;> rfl
  unfold prepare globalClasses
  dsimp only
  rw [hnetworks]
  split_ifs
  · rw [hclasses, classes_importServerOptions]
  · rw [hclasses]
  · rw [classes_importServerOptions]
    rfl
  · rfl

end Steps

/-! ## An import that is whole -/

/-- The class of a policy guards its pool or its subnet in a configuration, with its own test. -/
structure Guarded (final : Dhcp4) (a : Added) (cls : ClassDict) : Prop where
  test : testOf final.classes cls.name = some (.str cls.test)
  attached : cls.name ∈ a.mapped.subnetGuards ∨ ∃ text, (text, cls.name) ∈ a.mapped.poolGuards
  subnet : cls.name ∈ a.mapped.subnetGuards →
    ∃ s, final.subnet4ById a.id = some s ∧ cls.name ∈ guardClasses s.fields
  pool : ∀ text, (text, cls.name) ∈ a.mapped.poolGuards →
    ∃ s, final.subnet4ById a.id = some s ∧
      ∃ p, s.pools.find? (has "pool" (.str text)) = some p ∧ cls.name ∈ guardClasses p

/-- Every policy of a scope that was added and that becomes a class is guarded by a class of its own,
and every class that was there has the test that it had. -/
structure Whole (optionsToKea : OptionsToKea) (existing final : Dhcp4) (added : List Added) :
    Prop where
  guarded : ∀ a ∈ added, ∀ p ∈ a.scope.policies, ∀ cls,
    (policyToClass optionsToKea p ("scope " ++ a.scope.name)).1 = some cls → Guarded final a cls
  apart : ((added.flatMap fun a => a.scope.classes optionsToKea).map ClassDict.name).Nodup
  kept : ∀ (i : ℕ) (c : Fields), existing.classes[i]? = some c →
    ∃ c', final.classes[i]? = some c' ∧ lookup "test" c' = lookup "test" c

/-- The names of the classes that the policies of a scope become. -/
def Scope.classNames (optionsToKea : OptionsToKea) (scope : Scope) : List String :=
  (scope.inOrder.filter fun p =>
    (policyToClass optionsToKea p ("scope " ++ scope.name)).1.isSome).map fun p => className p.name

/-- Nothing is written over: no two policies have names that come to one name of a class, a class that
was there has the test of the last that is imported under its name, and in the old spelling at most one
policy guards the whole subnet and no two guard a pool of the same text. -/
structure Undisturbed (optionsToKea : OptionsToKea) (plan : Plan) (selections : Selections)
    (existing : Dhcp4) (added : List Added) : Prop where
  names : (added.flatMap fun a => a.scope.classNames optionsToKea).Nodup
  tests : ∀ name e cls, existing.classes.find? (has "name" (.str name)) = some e →
    ((globalClasses optionsToKea plan selections ++
      added.flatMap fun a => a.scope.classes optionsToKea).reverse.find? fun cls =>
        cls.name = name) = some cls → lookup "test" e = some (.str cls.test)
  room : ∀ a ∈ added, attachmentKeys a.before none = false →
    a.mapped.subnetGuards.length ≤ 1 ∧ (a.mapped.poolGuards.map Prod.fst).Nodup

/-! ### Names -/

section Names

variable {optionsToKea : OptionsToKea} {scope : Scope}

theorem name_of_policyToClass {p : Policy} {context : String} {cls : ClassDict}
    (h : (policyToClass optionsToKea p context).1 = some cls) : cls.name = className p.name := by
  unfold policyToClass at h
  dsimp only at h
  split at h
  · cases h
  · rw [← Option.some.inj h]

theorem mem_classes {cls : ClassDict} : cls ∈ scope.classes optionsToKea ↔
    ∃ p ∈ scope.policies, (policyToClass optionsToKea p ("scope " ++ scope.name)).1 = some cls := by
  simp [Scope.classes, Scope.inOrder, List.mem_filterMap, List.mem_insertionSort]

theorem map_name_classes : (scope.classes optionsToKea).map ClassDict.name =
    scope.classNames optionsToKea := by
  unfold Scope.classes Scope.classNames
  induction scope.inOrder with
  | nil => rfl
  | cons p policies ih =>
    rw [List.filterMap_cons, List.filter_cons]
    cases hclass : (policyToClass optionsToKea p ("scope " ++ scope.name)).1 with
    | none => exact ih
    | some cls =>
      rw [Option.isSome_some, if_pos rfl, List.map_cons, List.map_cons, ih,
        name_of_policyToClass hclass]

end Names

/-! ### The classes that were there -/

section Kept

variable {classes : List Fields} {name : String} {i : ℕ}

theorem find?_of_placeOf (h : placeOf classes name = some i) :
    classes.find? (has "name" (.str name)) = classes[i]? := by
  obtain ⟨hi, hhas, hbefore⟩ := List.findIdx?_eq_some_iff_getElem.mp h
  rw [List.getElem?_eq_getElem hi, List.find?_eq_some_iff_getElem]
  exact ⟨hhas, i, hi, rfl, fun j hj => by simpa using hbefore j hj⟩

theorem exists_placeOf {e : Fields} (h : classes.find? (has "name" (.str name)) = some e) :
    ∃ i, placeOf classes name = some i ∧ classes[i]? = some e := by
  obtain ⟨hhas, i, hi, rfl, hbefore⟩ := List.find?_eq_some_iff_getElem.mp h
  refine ⟨i, List.findIdx?_eq_some_iff_getElem.mpr ⟨hi, hhas, fun j hj => ?_⟩, by simp⟩
  simpa using hbefore j hj

/-- A class stands first under one name at most. -/
theorem placeOf_eq_some_iff (h : placeOf classes name = some i) (name' : String) :
    placeOf classes name' = some i ↔ name' = name := by
  constructor
  · intro h'
    obtain ⟨_, hhas, -⟩ := List.findIdx?_eq_some_iff_getElem.mp h
    obtain ⟨_, hhas', -⟩ := List.findIdx?_eq_some_iff_getElem.mp h'
    exact has_name_inj hhas' hhas
  · rintro rfl
    exact h

variable (classes) in
/-- Classes keep their tests when what is written over one of them, last, has its test. -/
theorem kept_iff (written : List ClassDict) :
    (∀ (i : ℕ) (c : Fields), classes[i]? = some c → ∃ c', (written.foldl upsertClass4 classes)[i]? = some c' ∧
        lookup "test" c' = lookup "test" c) ↔
      ∀ name e cls, classes.find? (has "name" (.str name)) = some e →
        (written.reverse.find? fun cls => cls.name = name) = some cls →
          lookup "test" e = some (.str cls.test) := by
  have hlt : ∀ {i : ℕ} {c : Fields}, classes[i]? = some c → i < classes.length := by
    intro i c hc
    exact (List.getElem?_eq_some_iff.mp hc).1
  have hsame : ∀ {i : ℕ} {name : String}, placeOf classes name = some i →
      (fun cls : ClassDict => decide (placeOf classes cls.name = some i)) =
        fun cls : ClassDict => decide (cls.name = name) := by
    intro i name hplace
    funext cls
    exact decide_eq_decide.mpr (placeOf_eq_some_iff hplace cls.name)
  constructor
  · intro h name e cls he hcls
    obtain ⟨i, hplace, hi⟩ := exists_placeOf he
    obtain ⟨c', hc', htest⟩ := h i e hi
    rw [(getElem?_foldl written (hlt hi)).2.2, hsame hplace, hcls] at hc'
    rw [← htest, ← Option.some.inj hc']
    exact lookup_test_fields
  · intro h i c hc
    rw [(getElem?_foldl written (hlt hc)).2.2]
    cases hfind : written.reverse.find? fun cls => decide (placeOf classes cls.name = some i) with
    | none => exact ⟨c, hc, rfl⟩
    | some cls =>
      have hplace : placeOf classes cls.name = some i :=
        of_decide_eq_true (List.find?_some (p := fun cls : ClassDict =>
          decide (placeOf classes cls.name = some i)) hfind)
      rw [hsame hplace] at hfind
      refine ⟨cls.fields, rfl, ?_⟩
      rw [h cls.name c cls ((find?_of_placeOf hplace).trans hc) hfind]
      exact lookup_test_fields

end Kept

/-! ### The guards -/

section Attached

variable {optionsToKea : OptionsToKea} {scope : Scope} {id : ℤ} {m : MappedScope} {new : Bool}
  {name text : String}

/-- The import gives a subnet no guard of its own. -/
theorem lookup_entry {b : SubnetBlock} {k : String} (h : k = newGuard ∨ k = oldGuard) :
    lookup k b.entry.fields = none := by
  have hone : ∀ {α : Type} (o : Option α) (key : String) (v : α → Json), key ≠ k →
      lookup k (o.map fun a => (key, v a)).toList = none := by
    intro α o key v hne
    cases o <;> simp [hne]
  simp only [SubnetBlock.entry, lookup_append]
  rw [hone, hone, hone, hone] <;> rcases h with rfl | rfl <;> simp [newGuard, oldGuard]

/-- A class guards the subnet of a scope, or, in the old spelling, is the last that does. -/
theorem mem_guardClasses_subnet : name ∈ guardClasses (guardedEntry new m).fields ↔
    if new then name ∈ m.subnetGuards else m.subnetGuards.getLast? = some name :=
  mem_guardClasses_foldl _ _ (lookup_entry (.inl rfl)) (lookup_entry (.inr rfl)) _

/-- The classes that are to guard the pool of a text, in order. -/
def guardsOf (m : MappedScope) (text : String) : List String :=
  (m.poolGuards.filter fun guard => guard.1 = text).map Prod.snd

theorem mem_guardsOf : name ∈ guardsOf m text ↔ (text, name) ∈ m.poolGuards := by
  simp [guardsOf]

/-- A class guards the pool of a text, or, in the old spelling, is the last that does. -/
theorem exists_pool_iff (h : text ∈ m.subnet.pools) :
    (∃ p, (guardedEntry new m).pools.find? (has "pool" (.str text)) = some p ∧
        name ∈ guardClasses p) ↔
      if new then (text, name) ∈ m.poolGuards else (guardsOf m text).getLast? = some name := by
  have hentry : m.subnet.entry.pools.find? (has "pool" (.str text)) =
      some [("pool", .str text)] := by
    have hpool : ∀ text', has "pool" (.str text) [("pool", .str text')] = true ↔ text' = text := by
      intro text'
      rw [has_str]
      simp
    have hsome : (m.subnet.entry.pools.find? (has "pool" (.str text))).isSome :=
      List.find?_isSome.mpr ⟨_, List.mem_map.mpr ⟨text, h, rfl⟩, (hpool text).mpr rfl⟩
    obtain ⟨p, hp⟩ := Option.isSome_iff_exists.mp hsome
    obtain ⟨text', -, rfl⟩ := List.mem_map.mp (List.mem_of_find?_eq_some hp)
    rw [hp, (hpool text').mp (List.find?_some (p := has "pool" (.str text)) hp)]
  have hfind : (guardedEntry new m).pools.find? (has "pool" (.str text)) =
      some ((guardsOf m text).foldl (fun fs name => attachGuard new name fs)
        [("pool", .str text)]) := by
    rw [guardedEntry, find?_poolGuards, hentry]
    rfl
  have hguards := mem_guardClasses_foldl new name
    (c := [("pool", .str text)]) (by simp [newGuard]) (by simp [oldGuard]) (guardsOf m text)
  rw [mem_guardsOf] at hguards
  rw [← hguards, hfind]
  simp

/-- Names of which each is the last are one name at most, where none is there twice. -/
theorem length_le_one_iff {names : List String} (h : names.Nodup) :
    (∀ name ∈ names, names.getLast? = some name) ↔ names.length ≤ 1 := by
  constructor
  · intro hlast
    match names, h with
    | [], _ => simp
    | [_], _ => simp
    | a :: b :: names, h =>
      have ha := hlast a (by simp)
      have hb := hlast b (by simp)
      have hab : a = b := Option.some.inj (ha.symm.trans hb)
      simp [hab] at h
  · intro hlength name hname
    match names, hlength with
    | [_], _ => rw [List.mem_singleton.mp hname, List.getLast?_singleton]

/-- Classes of which each is the last that guards its pool guard pools of different texts. -/
theorem nodup_texts_iff (h : (m.poolGuards.map Prod.snd).Nodup) :
    (∀ text name, (text, name) ∈ m.poolGuards → (guardsOf m text).getLast? = some name) ↔
      (m.poolGuards.map Prod.fst).Nodup := by
  constructor
  · intro hlast
    -- the text of a pool says which class guards it
    have hsnd : (m.poolGuards.map Prod.fst).map (fun text => (guardsOf m text).getLast?) =
        (m.poolGuards.map Prod.snd).map some := by
      rw [List.map_map, List.map_map]
      exact List.map_congr_left fun guard hguard => hlast guard.1 guard.2 hguard
    have hnodup := h.map (Option.some_injective String)
    rw [← hsnd] at hnodup
    exact hnodup.of_map _
  · intro hnodup text name hmem
    have hne : guardsOf m text ≠ [] := List.ne_nil_of_mem (mem_guardsOf.mpr hmem)
    have hin := mem_guardsOf.mp (List.getLast_mem hne)
    have heq := List.inj_on_of_nodup_map hnodup hin hmem rfl
    rw [List.getLast?_eq_some_getLast hne, (Prod.mk.inj heq).2]

variable (new) in
/-- The guards of a scope are all there when the section is in the new spelling, or each of them has a
container of its own. -/
theorem Mapped.guards_iff (hm : Mapped optionsToKea scope id m)
    (hnames : (m.classes.map ClassDict.name).Nodup) :
    (∀ cls ∈ m.classes,
        (cls.name ∈ m.subnetGuards → cls.name ∈ guardClasses (guardedEntry new m).fields) ∧
        ∀ text, (text, cls.name) ∈ m.poolGuards →
          ∃ p, (guardedEntry new m).pools.find? (has "pool" (.str text)) = some p ∧
            cls.name ∈ guardClasses p) ↔
      (new = false → m.subnetGuards.length ≤ 1 ∧ (m.poolGuards.map Prod.fst).Nodup) := by
  have hpool : ∀ {text name}, (text, name) ∈ m.poolGuards →
      ((∃ p, (guardedEntry new m).pools.find? (has "pool" (.str text)) = some p ∧
        name ∈ guardClasses p) ↔
      if new then (text, name) ∈ m.poolGuards else (guardsOf m text).getLast? = some name) :=
    fun hmem => exists_pool_iff (hm.texts _ hmem)
  cases new with
  | true =>
    refine ⟨fun _ hfalse => absurd hfalse (by decide),
      fun _ cls _ => ⟨fun hmem => ?_, fun text hmem => ?_⟩⟩
    · rw [mem_guardClasses_subnet, if_pos rfl]
      exact hmem
    · rw [hpool hmem, if_pos rfl]
      exact hmem
  | false =>
    rw [← length_le_one_iff (hm.subnet.nodup hnames), ← nodup_texts_iff (hm.pool.nodup hnames)]
    constructor
    · intro h _
      constructor
      · intro name hname
        obtain ⟨cls, hcls, rfl⟩ := List.mem_map.mp (hm.subnet.subset hname)
        simpa using mem_guardClasses_subnet.mp ((h cls hcls).1 hname)
      · intro text name hmem
        obtain ⟨cls, hcls, rfl⟩ :=
          List.mem_map.mp (hm.pool.subset (List.mem_map.mpr ⟨_, hmem, rfl⟩))
        simpa using (hpool hmem).mp ((h cls hcls).2 text hmem)
    · intro h cls _
      obtain ⟨hsubnet, htexts⟩ := h rfl
      constructor
      · intro hmem
        rw [mem_guardClasses_subnet]
        simpa using hsubnet _ hmem
      · intro text hmem
        rw [hpool hmem]
        simpa using htexts text _ hmem

end Attached

/-! ### The import -/

/-- An import guards every policy by a class of its own and leaves the tests of the classes that were
there as they were, exactly when nothing is written over. -/
theorem toKea_whole_iff (optionsToKea : OptionsToKea) (plan : Plan) (existing : Dhcp4)
    (subnetNames : List (String × SubnetName)) (selections : Selections) {st : Imported}
    {added : List Added}
    (h : toKea optionsToKea plan existing subnetNames selections = some (st, added)) :
    Whole optionsToKea existing st.cfg added ↔
      Undisturbed optionsToKea plan selections existing added := by
  simp only [toKea, Option.bind_eq_bind, Option.bind_eq_some_iff, Option.pure_def,
    Option.some.injEq, Prod.mk.injEq] at h
  obtain ⟨⟨st₁, added₁⟩, hrun, rfl, rfl⟩ := h
  obtain ⟨-, hguards, hclasses⟩ := importScopes_spec hrun
  dsimp only at hguards hclasses ⊢
  have hflat : (added₁.flatMap fun a => a.mapped.classes) =
      added₁.flatMap fun a => a.scope.classes optionsToKea :=
    List.flatMap_congr fun a ha => (hguards a ha).1.classes
  rw [classes_prepare, hflat, ← List.foldl_append] at hclasses
  have hnames : (added₁.flatMap fun a => a.scope.classes optionsToKea).map ClassDict.name =
      added₁.flatMap fun a => a.scope.classNames optionsToKea := by
    rw [List.map_flatMap]
    exact List.flatMap_congr fun a _ => map_name_classes
  have hkept := kept_iff existing.classes (globalClasses optionsToKea plan selections ++
    added₁.flatMap fun a => a.scope.classes optionsToKea)
  rw [← hclasses] at hkept
  -- the classes of each scope have different names when those of all of them do
  have hscope : ∀ a ∈ added₁, ((added₁.flatMap fun a => a.scope.classes optionsToKea).map
      ClassDict.name).Nodup → (a.mapped.classes.map ClassDict.name).Nodup := by
    intro a ha hnodup
    have hsublist : (a.scope.classes optionsToKea).Sublist
        (added₁.flatMap fun a => a.scope.classes optionsToKea) := by
      rw [List.flatMap_def]
      exact List.sublist_flatten_of_mem (List.mem_map.mpr ⟨a, ha, rfl⟩)
    rw [(hguards a ha).1.classes]
    exact hnodup.sublist (hsublist.map _)
  constructor
  · rintro ⟨hguarded, hapart, htests⟩
    refine ⟨hnames ▸ hapart, hkept.mp htests, fun a ha hold => ?_⟩
    obtain ⟨hmapped, hthis⟩ := hguards a ha
    refine (hmapped.guards_iff (attachmentKeys a.before none) (hscope a ha hapart)).mp
      (fun cls hcls => ?_) hold
    rw [hmapped.classes] at hcls
    obtain ⟨p, hp, hclass⟩ := mem_classes.mp hcls
    obtain ⟨-, -, hsubnet, hpool⟩ := hguarded a ha p hp cls hclass
    constructor
    · intro hmem
      obtain ⟨s, hs, hguard⟩ := hsubnet hmem
      obtain rfl := Option.some.inj (hthis.symm.trans hs)
      exact hguard
    · intro text hmem
      obtain ⟨s, hs, hguard⟩ := hpool text hmem
      obtain rfl := Option.some.inj (hthis.symm.trans hs)
      exact hguard
  · rintro ⟨hapart, htests, hroom⟩
    rw [← hnames] at hapart
    refine ⟨fun a ha p hp cls hclass => ?_, hapart, hkept.mpr htests⟩
    obtain ⟨hmapped, hthis⟩ := hguards a ha
    have hcls : cls ∈ a.mapped.classes := by
      rw [hmapped.classes]
      exact mem_classes.mpr ⟨p, hp, hclass⟩
    have hmem : cls ∈ added₁.flatMap fun a => a.scope.classes optionsToKea :=
      List.mem_flatMap.mpr ⟨a, ha, mem_classes.mpr ⟨p, hp, hclass⟩⟩
    have hattached := (hmapped.guards_iff (attachmentKeys a.before none)
      (hscope a ha hapart)).mpr (hroom a ha) cls hcls
    refine ⟨?_, hmapped.attached cls hcls, fun hin => ⟨_, hthis, hattached.1 hin⟩,
      fun text hin => ⟨_, hthis, hattached.2 text hin⟩⟩
    -- no other class of a scope has the name, so the last one that was written is this one
    have hlast : (globalClasses optionsToKea plan selections ++
        added₁.flatMap fun a => a.scope.classes optionsToKea).reverse.find?
          (fun c => decide (c.name = cls.name)) = some cls := by
      have hsome : ((added₁.flatMap fun a => a.scope.classes optionsToKea).reverse.find?
          fun c => decide (c.name = cls.name)).isSome :=
        List.find?_isSome.mpr ⟨cls, List.mem_reverse.mpr hmem, by simp⟩
      obtain ⟨found, hfound⟩ := Option.isSome_iff_exists.mp hsome
      have hname : found.name = cls.name := of_decide_eq_true
        (List.find?_some (p := fun c : ClassDict => decide (c.name = cls.name)) hfound)
      have heq : found = cls := List.inj_on_of_nodup_map hapart
        (List.mem_reverse.mp (List.mem_of_find?_eq_some hfound)) hmem hname
      rw [List.reverse_append, List.find?_append, hfound, Option.some_or, heq]
    rw [hclasses, testOf_foldl, hlast]

/-- A policy of the name `phones` for clients of one vendor. -/
def vendorPolicy (vendor start end_ : String) : Policy where
  name := "phones"
  enabled := true
  processingOrder := 1
  condition := "AND"
  conditions := [⟨"VendorClass", "Equals", vendor⟩]
  ipRanges := [(start, end_)]

/-- A scope on the first floor. -/
def firstFloor : Scope where
  scopeId := "10.0.1.0"
  subnetMask := "255.255.255.0"
  name := "first"
  state := "Active"
  startRange := "10.0.1.10"
  endRange := "10.0.1.99"
  leaseSeconds := 3600
  policies := [vendorPolicy "acme" "10.0.1.10" "10.0.1.19"]

/-- A scope on the second floor, whose policy has the same name and another condition. -/
def secondFloor : Scope where
  scopeId := "10.0.2.0"
  subnetMask := "255.255.255.0"
  name := "second"
  state := "Active"
  startRange := "10.0.2.10"
  endRange := "10.0.2.99"
  leaseSeconds := 3600
  policies := [vendorPolicy "globex" "10.0.2.10" "10.0.2.19"]

/-- A plan of both floors. -/
def floors : Plan := { scopes := [firstFloor, secondFloor] }

/-- The ids of their subnets. -/
def floorNames : List (String × SubnetName) :=
  [("10.0.1.0", ⟨some 1, "First"⟩), ("10.0.2.0", ⟨some 2, "Second"⟩)]

theorem toKea_whole_iff_floors : ∃ st added,
    toKea noOptions floors {} floorNames {} = some (st, added) ∧
      (Whole noOptions {} st.cfg added ↔ Undisturbed noOptions floors {} {} added) := by
  have hsome : (toKea noOptions floors {} floorNames {}).isSome := by decide +kernel
  obtain ⟨⟨st, added⟩, h⟩ := Option.isSome_iff_exists.mp hsome
  exact ⟨st, added, h, toKea_whole_iff noOptions floors {} floorNames {} h⟩

/-- The pool of the first floor is handed to the clients of the second. -/
theorem floors_shared : ∃ st added,
    toKea noOptions floors {} floorNames {} = some (st, added) ∧
      ¬ Whole noOptions {} st.cfg added := by
  have hmap : (toKea noOptions floors {} floorNames {}).map (fun r =>
      (testOf r.1.cfg.classes "phones", r.2.map Added.scope)) =
        some (some (.str (String.ofList ("option[60].hex == ".toList ++
          [Text.singleQuote] ++ "globex".toList ++ [Text.singleQuote]))),
          [firstFloor, secondFloor]) := by decide +kernel
  have hclass : (policyToClass noOptions (vendorPolicy "acme" "10.0.1.10" "10.0.1.19")
      ("scope " ++ firstFloor.name)).1.map (fun cls => (cls.name, cls.test)) =
        some ("phones", String.ofList ("option[60].hex == ".toList ++
          [Text.singleQuote] ++ "acme".toList ++ [Text.singleQuote])) := by decide +kernel
  obtain ⟨⟨st, added⟩, h, heq⟩ := Option.map_eq_some_iff.mp hmap
  obtain ⟨htest, hscopes⟩ := Prod.mk.inj heq
  obtain ⟨cls, hcls, heq⟩ := Option.map_eq_some_iff.mp hclass
  obtain ⟨hname, hwant⟩ := Prod.mk.inj heq
  refine ⟨st, added, h, fun hwhole => ?_⟩
  have hmem : firstFloor ∈ added.map Added.scope := by
    dsimp only at hscopes
    rw [hscopes]
    exact List.mem_cons_self
  obtain ⟨a, ha, hscope⟩ := List.mem_map.mp hmem
  have hguarded := (hwhole.guarded a ha (vendorPolicy "acme" "10.0.1.10" "10.0.1.19")
    (by rw [hscope]; exact List.mem_cons_self) cls (by rw [hscope]; exact hcls)).test
  dsimp only at htest
  rw [hname, hwant, htest] at hguarded
  exact absurd hguarded (by decide)

end JenKea.Import
