import JenKea.Edit.Attach

/-!
# Attaching is exact where the spellings agree

What `attach_class4` makes of the classes of every container. The spelling that is written stays the one that was
chosen: the key that attaching writes is seen by the detaching that follows.
-/

namespace JenKea.Edit

open Json Import

/-! ## The spelling that is written -/

section Spelling

variable {d4 : Fields} {place q : Place} {mode : Mode} {new attach : Bool} {name : String} {c c' : Fields}
variable {version : Option (ℕ × ℕ × ℕ)}

theorem hasAny_scopeContainers {keys : List String} :
    hasAny (scopeContainers d4) keys = true ↔
      ∃ q ∈ places d4, ∃ c, containerAt d4 q = some c ∧ ∃ k ∈ keys, (lookup k c).isSome = true := by
  unfold hasAny scopeContainers
  rw [List.any_eq_true]
  constructor
  · rintro ⟨c, hc, hkey⟩
    obtain ⟨q, hq, hqc⟩ := List.mem_filterMap.mp hc
    exact ⟨q, hq, c, hqc, List.any_eq_true.mp hkey⟩
  · rintro ⟨q, hq, c, hqc, hkey⟩
    exact ⟨c, List.mem_filterMap.mpr ⟨q, hq, hqc⟩, List.any_eq_true.mpr hkey⟩

/-- The old spelling is written where no key of the new one is seen. -/
theorem newSeen_eq_false (h : usesNew d4 version = some false) : newSeen d4 = false := by
  unfold usesNew at h
  split_ifs at h with hiterable hnew hold hboth
  · cases h
  · rw [Bool.and_eq_true, Bool.not_eq_true'] at hold
    exact hold.2
  · cases h
  · cases hseen : newSeen d4 with
    | false => rfl
    | true => cases hseen' : oldSeen d4 <;> simp [hseen, hseen'] at hnew hboth

theorem oneSpelling_of_usesNew (hplace : place ∈ places d4) (hc : containerAt d4 place = some c)
    (h : usesNew d4 version = some new) : OneSpelling mode new c := by
  rintro rfl
  have hseen : newSeen d4 = false := newSeen_eq_false h
  unfold newSeen at hseen
  rw [Bool.or_eq_false_iff] at hseen
  by_contra hlookup
  have hany : hasAny (scopeContainers d4) [newGuard, newAdditional] = true := by
    refine hasAny_scopeContainers.mpr ⟨place, hplace, c, hc, writtenKey mode true, ?_, ?_⟩
    · cases mode <;> decide
    · exact Option.isSome_iff_ne_none.mpr hlookup
  rw [hseen.1] at hany
  cases hany

/-- Attaching leaves a key of the spelling that is written. -/
theorem isSome_lookup_write (h : write mode new true name c = some c') :
    (lookup (writtenKey mode new) c').isSome = true := by
  unfold write at h
  split_ifs at h with hold
  · obtain ⟨rfl, rfl⟩ := hold
    obtain rfl := Option.some.inj h
    show (lookup oldGuard (set oldGuard _ c)).isSome = true
    rw [lookup_set_self]
    rfl
  · obtain ⟨lst, -, rfl⟩ := Option.map_eq_some_iff.mp h
    unfold putList
    rw [if_neg edited_attach_ne_nil, lookup_set_self]
    rfl

theorem poolsIterable_changeAt {k : String} {g : Fields → Fields} (hg : OnlyAt k g) :
    poolsIterable (changeAt d4 place g) = poolsIterable d4 := by
  have hpools : k ≠ "pools" := fun h => hg.offWay (h ▸ by decide)
  unfold poolsIterable
  simp only [subnetPlaces_changeAt hg, isIterable_changeAt hg hpools]

theorem places_changeAt {k : String} {g : Fields → Fields} (hg : OnlyAt k g) :
    places (changeAt d4 place g) = places d4 := by
  unfold places
  simp only [subnetPlaces_changeAt hg, poolPlaces_changeAt hg, networkPlaces_changeAt hg]

theorem isSome_lookup_changeAt {k j : String} {g : Fields → Fields} (hg : OnlyAt k g) (hj : j ∉ onWay)
    (hne : j ≠ k) :
    (containerAt (changeAt d4 place g) q).any (fun c => (lookup j c).isSome) =
      (containerAt d4 q).any fun c => (lookup j c).isSome := by
  have hsame : (containerAt (changeAt d4 place g) q).map (lookup j) = (containerAt d4 q).map (lookup j) :=
    lookup_changeAt hg hj (Or.inr hne)
  have hany := congrArg (Option.any fun v : Option Json => v.isSome) hsame
  rw [Option.any_map, Option.any_map] at hany
  exact hany

/-- Keys that are not written are seen where they were. -/
theorem hasAny_changeAt {k : String} {keys : List String} {g : Fields → Fields} (hg : OnlyAt k g)
    (hkeys : ∀ j ∈ keys, j ∉ onWay ∧ j ≠ k) :
    hasAny (scopeContainers (changeAt d4 place g)) keys = hasAny (scopeContainers d4) keys := by
  have hany : ∀ d : Fields, hasAny (scopeContainers d) keys =
      (places d).any fun q => keys.any fun j => (containerAt d q).any fun c => (lookup j c).isSome := by
    intro d
    rw [Bool.eq_iff_iff, hasAny_scopeContainers]
    simp only [List.any_eq_true, Option.any_eq_true]
    constructor
    · rintro ⟨q, hq, c, hc, j, hj, hlookup⟩
      exact ⟨q, hq, j, hj, c, hc, hlookup⟩
    · rintro ⟨q, hq, j, hj, c, hc, hlookup⟩
      exact ⟨q, hq, c, hc, j, hj, hlookup⟩
  rw [hany, hany, places_changeAt hg, Bool.eq_iff_iff, List.any_eq_true, List.any_eq_true]
  refine exists_congr fun q => and_congr_right fun _ => ?_
  rw [List.any_eq_true, List.any_eq_true]
  refine exists_congr fun j => and_congr_right fun hj => ?_
  obtain ⟨hoff, hne⟩ := hkeys j hj
  rw [isSome_lookup_changeAt hg hoff hne]

theorem containerAt_written (hc : containerAt d4 place = some c) (hwrite : write mode new attach name c = some c') :
    containerAt (written d4 place mode new attach name) place = some c' := by
  unfold written
  rw [containerAt_changeAt_self, hc, Option.map_some, hwrite]
  rfl

/-- After an attaching, the same spelling is written. -/
theorem usesNew_attached (hplace : place ∈ places d4) (hc : containerAt d4 place = some c)
    (h : usesNew d4 version = some new) (hwrite : write mode new true name c = some c') :
    usesNew (written d4 place mode new true name) version = some new := by
  have hg : OnlyAt (writtenKey mode new) fun c => (write mode new true name c).getD c := onlyAt_write
  have hclasses : valueOf "client-classes" (written d4 place mode new true name) =
      valueOf "client-classes" d4 := valueOf_changeAt_section hg (by decide)
  have hpools : poolsIterable (written d4 place mode new true name) = poolsIterable d4 :=
    poolsIterable_changeAt hg
  have hplaces : places (written d4 place mode new true name) = places d4 := places_changeAt hg
  have hiterable : (poolsIterable d4 && isIterable (valueOf "client-classes" d4)) = true := by
    by_contra hraise
    unfold usesNew at h
    rw [if_neg hraise] at h
    cases h
  have hseen : ∀ keys, writtenKey mode new ∈ keys →
      hasAny (scopeContainers (written d4 place mode new true name)) keys = true := by
    intro keys hkeys
    refine hasAny_scopeContainers.mpr
      ⟨place, ?_, c', containerAt_written hc hwrite, _, hkeys, isSome_lookup_write hwrite⟩
    rw [hplaces]
    exact hplace
  unfold usesNew
  rw [hpools, hclasses, if_pos hiterable]
  cases new with
  | true =>
    have hnew : newSeen (written d4 place mode true true name) = true := by
      unfold newSeen
      rw [hseen _ (by cases mode <;> decide)]
      rfl
    rw [hnew]
    cases oldSeen (written d4 place mode true true name) <;> rfl
  | false =>
    have hold : oldSeen (written d4 place mode false true name) = true := by
      unfold oldSeen
      rw [hseen _ (by cases mode <;> decide)]
      rfl
    have hnew : newSeen (written d4 place mode false true name) = false := by
      have hkeys : ∀ j ∈ [newGuard, newAdditional], j ∉ onWay ∧ j ≠ writtenKey mode false := by
        cases mode <;> decide
      have hany : hasAny (scopeContainers (written d4 place mode false true name)) [newGuard, newAdditional] =
          hasAny (scopeContainers d4) [newGuard, newAdditional] := hasAny_changeAt hg hkeys
      have hbefore : newSeen d4 = false := newSeen_eq_false h
      unfold newSeen at hbefore ⊢
      rw [hany, hclasses]
      exact hbefore
    rw [hold, hnew]
    rfl

end Spelling

/-! ## The container that is found -/

section Found

variable {d4 cfg : Fields} {place : Place} {target : Target}

theorem isSome_containerAt_of_hasValueAt {key : String} {v : Json} (h : hasValueAt d4 key v place = true) :
    (containerAt d4 place).isSome = true := by
  obtain ⟨c, hc, -⟩ := (Option.any_eq_true _ _).mp h
  rw [hc]
  rfl

/-- What is found is one of the containers. -/
theorem mem_places_of_findPlace (h : findPlace d4 target = some (some place)) :
    place ∈ places d4 ∧ (containerAt d4 place).isSome = true := by
  have hsubnet : ∀ {s : Place}, s ∈ subnetPlaces d4 → s ∈ places d4 := fun {s} hs =>
    List.mem_append_left _ (List.mem_flatMap.mpr ⟨s, hs, List.mem_cons_self⟩)
  cases target with
  | network name =>
    simp only [findPlace] at h
    split_ifs at h with hiterable
    have hfind := Option.some.inj h
    refine ⟨List.mem_append_right _ (List.mem_of_find?_eq_some hfind), ?_⟩
    exact isSome_containerAt_of_hasValueAt (List.find?_some hfind)
  | subnet id =>
    have hfind := Option.some.inj h
    refine ⟨hsubnet (List.mem_of_find?_eq_some hfind), ?_⟩
    exact isSome_containerAt_of_hasValueAt (List.find?_some hfind)
  | pool id pool =>
    simp only [findPlace] at h
    cases hs : (subnetPlaces d4).find? (hasValueAt d4 "id" id) with
    | none =>
      rw [hs] at h
      cases h
    | some s =>
      rw [hs] at h
      simp only at h
      split_ifs at h with hiterable
      have hfind := Option.some.inj h
      have hpool : place ∈ s :: poolPlaces d4 s := List.mem_cons_of_mem _ (List.mem_of_find?_eq_some hfind)
      refine ⟨?_, isSome_containerAt_of_hasValueAt (List.find?_some hfind)⟩
      exact List.mem_append_left _ (List.mem_flatMap.mpr ⟨s, List.mem_of_find?_eq_some hs, hpool⟩)

end Found

/-! ## The classes of every container -/

/-- The classes of the container at a place of a configuration. -/
def classesOf (cfg : Fields) (mode : Mode) (place : Place) : List String :=
  match lookup "Dhcp4" cfg with
  | some (.obj d4) => ((containerAt d4 place).map (readClasses mode)).getD []
  | _ => []

/-- The place of the container that the target names. -/
def placeOf (cfg : Fields) (target : Target) : Option Place :=
  match lookup "Dhcp4" cfg with
  | some (.obj d4) => (findPlace d4 target).join
  | _ => none

/-- The classes at the place become these, and every other list of classes of a container is the one it was. -/
structure Becomes (cfg cfg' : Fields) (mode : Mode) (place : Place) (classes : String → Prop) : Prop where
  there : ∀ n, n ∈ classesOf cfg' mode place ↔ classes n
  elsewhere : ∀ q mode', q ≠ place ∨ mode' ≠ mode → classesOf cfg' mode' q = classesOf cfg mode' q

/-- The container that the target names takes the class on and gives it up, and an attaching of a class that was
not there is undone by detaching it. -/
structure Attaches (cfg : Fields) (name : String) (mode : Mode) (target : Target)
    (version : Option (ℕ × ℕ × ℕ)) (place : Place) : Prop where
  attached : ∃ cfg', attachClass4 cfg name target mode true version = some (cfg', .ok) ∧
    Becomes cfg cfg' mode place (fun n => n ∈ classesOf cfg mode place ∨ n = name) ∧
    (name ∉ classesOf cfg mode place →
      ∃ cfg'', attachClass4 cfg' name target mode false version = some (cfg'', .ok) ∧
        Becomes cfg cfg'' mode place (· ∈ classesOf cfg mode place))
  detached : ∃ cfg', attachClass4 cfg name target mode false version = some (cfg', .ok) ∧
    Becomes cfg cfg' mode place fun n => n ∈ classesOf cfg mode place ∧ n ≠ name

section Section

variable {d4 cfg : Fields} {place : Place} {target : Target} {mode : Mode} {new attach : Bool} {name : String}
variable {c c' : Fields} {version : Option (ℕ × ℕ × ℕ)} {classes : String → Prop}

theorem classesOf_eq {q : Place} {d : Fields} (h : lookup "Dhcp4" cfg = some (.obj d)) :
    classesOf cfg mode q = ((containerAt d q).map (readClasses mode)).getD [] := by
  unfold classesOf
  rw [h]

/-- The classes of a container are read under two keys. -/
theorem readClasses_congr (hnew : lookup (writtenKey mode true) c = lookup (writtenKey mode true) c')
    (hold : lookup (writtenKey mode false) c = lookup (writtenKey mode false) c') :
    readClasses mode c = readClasses mode c' := by
  cases mode with
  | guard =>
    show guardClasses c = guardClasses c'
    unfold guardClasses
    rw [show lookup newGuard c = lookup newGuard c' from hnew, show lookup oldGuard c = lookup oldGuard c' from hold]
  | additional =>
    show additionalClasses c = additionalClasses c'
    unfold additionalClasses firstList
    rw [List.findSome?_cons, List.findSome?_cons, List.findSome?_cons, List.findSome?_cons]
    rw [show lookup newAdditional c = lookup newAdditional c' from hnew,
      show lookup oldAdditional c = lookup oldAdditional c' from hold]
    rfl

/-- What is written into one container under one key is read there alone. -/
theorem classes_changeAt {q : Place} {mode' : Mode} (hne : q ≠ place ∨ mode' ≠ mode) :
    (containerAt (written d4 place mode new attach name) q).map (readClasses mode') =
      (containerAt d4 q).map (readClasses mode') := by
  have hg : OnlyAt (writtenKey mode new) fun c => (write mode new attach name c).getD c := onlyAt_write
  have hlookup : ∀ new', (containerAt (written d4 place mode new attach name) q).map
      (lookup (writtenKey mode' new')) = (containerAt d4 q).map (lookup (writtenKey mode' new')) := by
    intro new'
    refine lookup_changeAt hg ?_ (hne.imp_right fun hmode => ?_)
    · cases mode' <;> cases new' <;> decide
    · revert hmode
      cases mode <;> cases mode' <;> cases new <;> cases new' <;> decide
  have hnew := hlookup true
  have hold := hlookup false
  cases hc : containerAt d4 q with
  | none =>
    rw [hc] at hnew
    rw [Option.map_eq_none_iff.mp hnew]
  | some c =>
    cases hc' : containerAt (written d4 place mode new attach name) q with
    | none =>
      rw [hc, hc'] at hnew
      cases hnew
    | some c' =>
      rw [hc, hc'] at hnew hold
      exact congrArg some (readClasses_congr (Option.some.inj hnew) (Option.some.inj hold))

/-- What the edit makes of the classes, by what it makes of the container. -/
theorem becomes_iff (hd4 : lookup "Dhcp4" cfg = some (.obj d4)) (hc : containerAt d4 place = some c)
    (hwrite : write mode new attach name c = some c') :
    Becomes cfg (set "Dhcp4" (.obj (written d4 place mode new attach name)) cfg)
      mode place classes ↔ Holds mode c' classes := by
  have hself : containerAt (written d4 place mode new attach name) place = some c' :=
    containerAt_written hc hwrite
  have hthere : classesOf
      (set "Dhcp4" (.obj (written d4 place mode new attach name)) cfg) mode place =
      readClasses mode c' := by
    rw [classesOf_eq lookup_set_self, hself]
    rfl
  constructor
  · intro h n
    rw [← hthere]
    exact h.there n
  · intro h
    constructor
    · intro n
      rw [hthere]
      exact h n
    · intro q mode' hne
      rw [classesOf_eq lookup_set_self, classesOf_eq hd4, classes_changeAt hne]

/-- The edit of a container that is found. -/
theorem attachClass4_found (hd4 : lookup "Dhcp4" cfg = some (.obj d4))
    (hplace : findPlace d4 target = some (some place)) (hc : containerAt d4 place = some c) :
    attachClass4 cfg name target mode attach version = (usesNew d4 version).bind fun new =>
      (write mode new attach name c).map fun _ =>
        (set "Dhcp4" (.obj (written d4 place mode new attach name)) cfg, .ok) := by
  unfold attachClass4 attachAt
  rw [hd4]
  dsimp only
  rw [hplace]
  cases usesNew d4 version with
  | none => rfl
  | some new =>
    show Option.map _ ((containerAt d4 place).bind _) = Option.map _ (write mode new attach name c)
    rw [hc]
    cases hwrite : write mode new attach name c with
    | none =>
      show Option.map _ ((write mode new attach name c).bind _) = _
      rw [hwrite]
      rfl
    | some c' =>
      show Option.map _ ((write mode new attach name c).bind _) = _
      rw [hwrite]
      rfl

/-- The detaching that follows finds the container where it was, and writes the same spelling. -/
theorem attachClass4_again (hd4 : lookup "Dhcp4" cfg = some (.obj (written d4 place mode new true name)))
    (hplace : findPlace d4 target = some (some place)) (hc : containerAt d4 place = some c)
    (hnew : usesNew d4 version = some new) (hwrite : write mode new true name c = some c') :
    attachClass4 cfg name target mode false version = (write mode new false name c').map fun _ =>
      (set "Dhcp4" (.obj (written (written d4 place mode new true name) place mode new false name)) cfg, .ok) := by
  have hg : OnlyAt (writtenKey mode new) fun c => (write mode new true name c).getD c := onlyAt_write
  have hkey : writtenKey mode new ∉ ["name", "id", "pool"] := by cases mode <;> cases new <;> decide
  have hplace' : findPlace (written d4 place mode new true name) target = some (some place) :=
    (findPlace_changeAt hg hkey target).trans hplace
  obtain ⟨hmem, -⟩ := mem_places_of_findPlace hplace
  rw [attachClass4_found hd4 hplace' (containerAt_written hc hwrite), usesNew_attached hmem hc hnew hwrite]
  rfl

/-- Attaching at a place is exact when it is on the container there. -/
theorem attaches_iff_exact (hd4 : lookup "Dhcp4" cfg = some (.obj d4))
    (hplace : findPlace d4 target = some (some place)) (hc : containerAt d4 place = some c) :
    Attaches cfg name mode target version place ↔
      ∃ new, usesNew d4 version = some new ∧ Exact mode new name c := by
  have hclasses : classesOf cfg mode place = readClasses mode c := by
    rw [classesOf_eq hd4, hc]
    rfl
  -- an answer is that of the spelling that is written, and the container is written in it
  have hanswer : ∀ attach cfg', attachClass4 cfg name target mode attach version = some (cfg', .ok) ↔
      ∃ new c', usesNew d4 version = some new ∧ write mode new attach name c = some c' ∧
        set "Dhcp4" (.obj (written d4 place mode new attach name)) cfg = cfg' := by
    intro attach cfg'
    rw [attachClass4_found hd4 hplace hc, Option.bind_eq_some_iff]
    simp only [Option.map_eq_some_iff, Prod.mk.injEq, and_true]
    constructor
    · rintro ⟨new, hnew, c', hwrite, heq⟩
      exact ⟨new, c', hnew, hwrite, heq⟩
    · rintro ⟨new, c', hnew, hwrite, heq⟩
      exact ⟨new, hnew, c', hwrite, heq⟩
  constructor
  · intro h
    obtain ⟨cfg', hcfg', hattached, hundone⟩ := h.attached
    obtain ⟨new, c', hnew, hwrite, rfl⟩ := (hanswer true cfg').mp hcfg'
    refine ⟨new, hnew, ⟨c', hwrite, ?_, fun hname => ?_⟩, ?_⟩
    · rw [← hclasses]
      exact (becomes_iff hd4 hc hwrite).mp hattached
    · obtain ⟨cfg'', hcfg'', hback⟩ := hundone (hclasses ▸ hname)
      rw [attachClass4_again lookup_set_self hplace hc hnew hwrite] at hcfg''
      obtain ⟨c'', hwrite', heq⟩ := Option.map_eq_some_iff.mp hcfg''
      obtain rfl := (Prod.mk.inj heq).1
      refine ⟨c'', hwrite', fun n => ?_⟩
      have hn := hback.there n
      rw [classesOf_eq lookup_set_self, containerAt_written (containerAt_written hc hwrite) hwrite', hclasses] at hn
      exact hn
    · obtain ⟨cfg'', hcfg'', hdetached⟩ := h.detached
      obtain ⟨new', c'', hnew', hwrite', rfl⟩ := (hanswer false cfg'').mp hcfg''
      obtain rfl := Option.some.inj (hnew.symm.trans hnew')
      refine ⟨c'', hwrite', ?_⟩
      rw [← hclasses]
      exact (becomes_iff hd4 hc hwrite').mp hdetached
  · rintro ⟨new, hnew, ⟨c', hwrite, hattached, hundone⟩, c'', hwrite'', hdetached⟩
    rw [← hclasses] at hattached hundone hdetached
    have hbecomes := (becomes_iff hd4 hc hwrite).mpr hattached
    constructor
    · refine ⟨_, (hanswer true _).mpr ⟨new, c', hnew, hwrite, rfl⟩, hbecomes, fun hname => ?_⟩
      obtain ⟨c₂, hwrite₂, hback⟩ := hundone hname
      refine ⟨_, (attachClass4_again lookup_set_self hplace hc hnew hwrite).trans
        (congrArg (Option.map _) hwrite₂), ?_⟩
      -- what the two edits leave alone is what each of them leaves alone
      have hd4' : lookup "Dhcp4" (set "Dhcp4" (.obj (written d4 place mode new true name)) cfg) =
          some (.obj (written d4 place mode new true name)) := lookup_set_self
      have hsecond := (becomes_iff hd4' (containerAt_written hc hwrite) hwrite₂).mpr hback
      constructor
      · exact hsecond.there
      · intro q mode' hne
        exact (hsecond.elsewhere q mode' hne).trans (hbecomes.elsewhere q mode' hne)
    · exact ⟨_, (hanswer false _).mpr ⟨new, c'', hnew, hwrite'', rfl⟩,
        (becomes_iff hd4 hc hwrite'').mpr hdetached⟩

/-- Attaching and detaching are exact on the container that a target names when nothing is raised and, of the
two spellings, the one that is written tells what is read. -/
theorem attaches_target (cfg : Fields) (name : String) (mode : Mode) (target : Target)
    (version : Option (ℕ × ℕ × ℕ)) :
    (∀ place, placeOf cfg target = some place → Attaches cfg name mode target version place) ↔
      ∀ d4 place c, lookup "Dhcp4" cfg = some (.obj d4) → findPlace d4 target = some (some place) →
        containerAt d4 place = some c → ∃ new, usesNew d4 version = some new ∧ Agrees mode new name c := by
  constructor
  · intro h d4 place c hd4 hplace hc
    have hplaceOf : placeOf cfg target = some place := by
      unfold placeOf
      rw [hd4]
      dsimp only
      rw [hplace]
      rfl
    obtain ⟨new, hnew, hexact⟩ := (attaches_iff_exact hd4 hplace hc).mp (h place hplaceOf)
    obtain ⟨hmem, -⟩ := mem_places_of_findPlace hplace
    have hone : OneSpelling mode new c := oneSpelling_of_usesNew hmem hc hnew
    exact ⟨new, hnew, (exact_iff_agrees hone).mp hexact⟩
  · intro h place hplaceOf
    unfold placeOf at hplaceOf
    split at hplaceOf
    · next d4 hd4 =>
      have hplace : findPlace d4 target = some (some place) := Option.join_eq_some_iff.mp hplaceOf
      obtain ⟨hmem, hsome⟩ := mem_places_of_findPlace hplace
      obtain ⟨c, hc⟩ := Option.isSome_iff_exists.mp hsome
      obtain ⟨new, hnew, hagrees⟩ := h d4 place c hd4 hplace hc
      have hone : OneSpelling mode new c := oneSpelling_of_usesNew hmem hc hnew
      exact (attaches_iff_exact hd4 hplace hc).mpr ⟨new, hnew, (exact_iff_agrees hone).mpr hagrees⟩
    · cases hplaceOf

/-- Two subnets, one of which is guarded in the old spelling and one in the new. -/
def twoSpellings : Fields :=
  [("Dhcp4", .obj [("subnet4", .arr [
    .obj [("id", .int 10), ("client-class", .str "staff")],
    .obj [("id", .int 20), ("client-classes", .arr [.str "phones"])]])])]

/-- Attached to the subnet of the old spelling, a class takes the place of the guard that was there. -/
theorem not_attaches_twoSpellings :
    ¬ ∀ (cfg : Fields) (name : String) (mode : Mode) (target : Target) (version : Option (ℕ × ℕ × ℕ)),
      ∀ place, placeOf cfg target = some place → Attaches cfg name mode target version place := by
  intro h
  have hattaches := h twoSpellings "guests" .guard (.subnet (.int 10)) none (.subnet none 0) (by decide)
  obtain ⟨cfg', hcfg', hbecomes, -⟩ := hattaches.attached
  have hresult : (attachClass4 twoSpellings "guests" (.subnet (.int 10)) .guard true none).map
      (fun r => classesOf r.1 .guard (.subnet none 0)) = some ["guests"] := by decide
  rw [hcfg'] at hresult
  have hclasses : classesOf cfg' .guard (.subnet none 0) = ["guests"] := Option.some.inj hresult
  have hstaff := (hbecomes.there "staff").mpr (Or.inl (by decide))
  rw [hclasses] at hstaff
  exact absurd hstaff (by decide)

end Section

end JenKea.Edit
