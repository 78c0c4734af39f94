import JenKea.Edit.Containers
import JenKea.Explain.Raises

/-!
# Deleting a class

`delete_class4` of `jen/services/kea_config_edit.py`, and `references` of `jen/services/kea_classes.py`. A class
that is referred to is not deleted. What refers to it is looked for under the key that is read first, and, in the
test of another class, as a piece of text; what Kea reads is both keys, and the test itself.
-/

namespace JenKea.Edit

open Json Import

/-! ## References -/

/-- What a label of a reference shows: the subnet, pool, shared network or class that refers. -/
inductive Reference where
  | subnet (id : Json)
  | pool (pool id : Json)
  | network (name : Json)
  | member (name : Json)

/-- A value of the container at a place. -/
def fieldAt (d4 : Fields) (key : String) (place : Place) : Json :=
  ((containerAt d4 place).map (valueOf key)).getD .null

/-- The reference of a container. -/
def label (d4 : Fields) : Place → Reference
  | .network n => .network (fieldAt d4 "name" (.network n))
  | .subnet net i => .subnet (fieldAt d4 "id" (.subnet net i))
  | .pool net i k => .pool (fieldAt d4 "pool" (.pool net i k)) (fieldAt d4 "id" (.subnet net i))

/-- A container that guards on the class, or evaluates it as an additional one. -/
def refersTo (name : String) (c : Fields) : Bool :=
  (guardClasses c).contains name || (additionalClasses c).contains name

/-- An entry of the list of classes that has the name. -/
def isClass (name : String) : Json → Bool
  | .obj c => (valueOf "name" c).pyEq (.str name)
  | _ => false

/-- `member(...)` with the name in these quotes, and no blanks. -/
def memberText (quote : Char) (name : String) : String :=
  String.ofList ("member(".toList ++ quote :: (name.toList ++ [quote, ')']))

/-- The two spellings that are looked for. -/
def memberTexts (name : String) : List String :=
  [memberText Text.singleQuote name, memberText Text.doubleQuote name]

/-- One of the spellings is in the text. -/
def spells (name test : String) : Bool := (memberTexts name).any fun p => decide (p.toList <:+: test.toList)

/-- `in test`, with `test = c.get("test") or ""`: a piece of a text, an entry of a list, or a key of a dictionary.
It raises where the value is none of them. -/
def testNames (name : String) (test : Json) : Option Bool :=
  if test.falsy then some (spells name "")
  else
    match test with
    | .str s => some (spells name s)
    | .arr xs => some ((memberTexts name).any fun p => xs.any fun x => x.pyEq (.str p))
    | .obj fs => some ((memberTexts name).any fun p => (lookup p fs).isSome)
    | _ => none

/-- The other classes whose test names the class. -/
def memberReferences (name : String) : List Json → Option (List Reference)
  | [] => some []
  | .obj c :: cs =>
    if isClass name (.obj c) then memberReferences name cs
    else do
      let named ← testNames name (valueOf "test" c)
      let rest ← memberReferences name cs
      return if named then .member (valueOf "name" c) :: rest else rest
  | _ :: cs => memberReferences name cs

/-- What `for c in v or []` goes through, as far as it is of use. -/
def items : Json → List Json
  | .arr xs => xs
  | _ => []

/-- `references`. It raises where something that it goes through is no list, or a test no text. -/
def references (d4 : Fields) (name : String) : Option (List Reference) :=
  if poolsIterable d4 && isIterable (valueOf "client-classes" d4) then
    (memberReferences name (items (valueOf "client-classes" d4))).map fun members =>
      ((places d4).filter fun p => (containerAt d4 p).any (refersTo name)).map (label d4) ++ members
  else none

/-- `delete_class4`. -/
def deleteClass4 (cfg : Fields) (name : String) : Option (Fields × ClassCode) :=
  if isBuiltin name then some (cfg, .builtin)
  else
    match lookup "Dhcp4" cfg with
    | some (.obj d4) =>
      match lookup "client-classes" d4 with
      | some (.arr classes) =>
        match classes.findIdx? (isClass name) with
        | none => some (cfg, .notfound)
        | some i => (references d4 name).map fun refs =>
          if refs.isEmpty then
            (set "Dhcp4" (.obj (set "client-classes" (.arr (classes.eraseIdx i)) d4)) cfg, .ok)
          else (cfg, .referenced)
      | _ => some (cfg, .notfound)
    | _ => some (cfg, .notfound)

/-! ## What refers to a class -/

/-- The container names the class under one of the four keys. -/
def Names (name : String) (c : Fields) : Prop :=
  (∃ xs, lookup newGuard c = some (.arr xs) ∧ name ∈ strings xs) ∨
    lookup oldGuard c = some (.str name) ∨
    (∃ xs, lookup newAdditional c = some (.arr xs) ∧ name ∈ strings xs) ∨
    ∃ xs, lookup oldAdditional c = some (.arr xs) ∧ name ∈ strings xs

/-- The container names the class under a key of the old spelling, and a list of the new one, in which it is
not, is read in place of it. -/
def Hidden (name : String) (c : Fields) : Prop :=
  (∃ xs, lookup newGuard c = some (.arr xs) ∧ name ∉ strings xs ∧ lookup oldGuard c = some (.str name)) ∨
    ∃ xs ys, lookup newAdditional c = some (.arr xs) ∧ name ∉ strings xs ∧
      lookup oldAdditional c = some (.arr ys) ∧ name ∈ strings ys

/-- The names in an expression. -/
def members : Explain.Raises.Ast → List (List Explain.Raises.Point)
  | .and l r | .or l r => members l ++ members r
  | .not e => members e
  | .member name => [name]
  | .eq _ _ => []

/-- `parse_expression` reads the test, and the class is a member in it. -/
def ReadsMember (name test : String) : Prop :=
  ∃ frames e, Explain.Raises.parseExpression frames (Explain.Raises.points test) = .ok e ∧
    Explain.Raises.points name ∈ members e

/-- The test of an entry of the list of classes refers to the class. -/
def TestRefers (name : String) (v : Json) : Prop :=
  ∃ c test, v = .obj c ∧ lookup "test" c = some (.str test) ∧ ReadsMember name test

/-- The test refers to the class, but not in a spelling that is looked for, or it is that of a class of the same
name. -/
def Overlooked (name : String) (v : Json) : Prop :=
  ∃ c test, v = .obj c ∧ lookup "test" c = some (.str test) ∧ ReadsMember name test ∧
    (isClass name v = true ∨ spells name test = false)

/-! ## What is looked for -/

section Looked

variable {name : String} {c d4 : Fields} {classes : List Json}

theorem refersTo_eq_false : refersTo name c = false ↔ name ∉ guardClasses c ∧ name ∉ additionalClasses c := by
  unfold refersTo
  rw [Bool.or_eq_false_iff, ← Bool.not_eq_true, ← Bool.not_eq_true, List.contains_iff_mem, List.contains_iff_mem]

/-- What is not found is hidden. -/
theorem names_iff_hidden (h : refersTo name c = false) : Names name c ↔ Hidden name c := by
  obtain ⟨hguard, hadditional⟩ := refersTo_eq_false.mp h
  unfold guardClasses at hguard
  unfold additionalClasses firstList at hadditional
  rw [List.findSome?_cons, List.findSome?_cons, List.findSome?_nil] at hadditional
  constructor
  · rintro (⟨xs, hxs, hmem⟩ | hold | ⟨xs, hxs, hmem⟩ | ⟨xs, hxs, hmem⟩)
    · rw [hxs] at hguard
      exact absurd hmem hguard
    · -- the text was not read: a list of the new spelling was
      left
      rw [hold] at hguard
      cases hnew : lookup newGuard c with
      | none =>
        rw [hnew] at hguard
        exact absurd (List.mem_singleton_self name) hguard
      | some v =>
        rw [hnew] at hguard
        cases v with
        | arr xs => exact ⟨xs, rfl, hguard, hold⟩
        | _ => exact absurd (List.mem_singleton_self name) hguard
    · rw [hxs] at hadditional
      exact absurd hmem hadditional
    · right
      rw [hxs] at hadditional
      cases hnew : lookup newAdditional c with
      | none =>
        rw [hnew] at hadditional
        exact absurd hmem hadditional
      | some v =>
        rw [hnew] at hadditional
        cases v with
        | arr ys => exact ⟨ys, xs, rfl, hadditional, hxs, hmem⟩
        | _ => exact absurd hmem hadditional
  · rintro (⟨xs, -, -, hold⟩ | ⟨xs, ys, -, -, hold, hmem⟩)
    · exact Or.inr (Or.inl hold)
    · exact Or.inr (Or.inr (Or.inr ⟨ys, hold, hmem⟩))

/-- A text is looked through. -/
theorem testNames_str {test : String} : testNames name (.str test) = some (spells name test) := by
  unfold testNames
  split_ifs with hfalsy
  · have hempty : test = "" := by simpa [falsy] using hfalsy
    rw [hempty]
  · rfl

/-- Where no reference is found, the tests of the classes of other names do not spell it. -/
theorem spells_of_memberReferences (h : memberReferences name classes = some []) {c : Fields}
    (hc : Json.obj c ∈ classes) (hname : isClass name (.obj c) = false) {test : String}
    (htest : lookup "test" c = some (.str test)) : spells name test = false := by
  induction classes with
  | nil => cases hc
  | cons v cs ih =>
    rcases List.mem_cons.mp hc with rfl | hc
    · rw [memberReferences, hname] at h
      have hvalue : valueOf "test" c = .str test := by
        unfold valueOf
        rw [htest]
        rfl
      rw [hvalue, testNames_str] at h
      cases hrest : memberReferences name cs with
      | none =>
        rw [hrest] at h
        cases h
      | some rest =>
        rw [hrest] at h
        cases hspells : spells name test with
        | false => rfl
        | true =>
          rw [hspells] at h
          cases h
    · refine ih ?_ hc
      cases v with
      | obj d =>
        rw [memberReferences] at h
        split_ifs at h with hd
        · exact h
        · cases hnamed : testNames name (valueOf "test" d) with
          | none =>
            rw [hnamed] at h
            cases h
          | some named =>
            rw [hnamed] at h
            cases hrest : memberReferences name cs with
            | none =>
              rw [hrest] at h
              cases h
            | some rest =>
              rw [hrest] at h
              cases named with
              | true => cases h
              | false => exact h
      | _ => exact h

/-- Where no reference is found, a test that refers is overlooked. -/
theorem testRefers_iff_overlooked (h : memberReferences name classes = some []) {v : Json} (hv : v ∈ classes) :
    TestRefers name v ↔ Overlooked name v := by
  constructor
  · rintro ⟨c, test, rfl, htest, hreads⟩
    refine ⟨c, test, rfl, htest, hreads, ?_⟩
    cases hname : isClass name (.obj c) with
    | true => exact Or.inl rfl
    | false => exact Or.inr (spells_of_memberReferences h hv hname htest)
  · rintro ⟨c, test, rfl, htest, hreads, -⟩
    exact ⟨c, test, rfl, htest, hreads⟩

end Looked

/-! ## Every container is gone through -/

section Places

variable {d4 : Fields} {c : Fields}

theorem lt_lengthAt (path : Path) {i : ℕ} {rest : Path} {v : Json}
    (h : get (path ++ .item i :: rest) (.obj d4) = some v) : i < lengthAt d4 path := by
  rw [get_append] at h
  unfold lengthAt
  cases hlist : get path (.obj d4) with
  | none =>
    rw [hlist] at h
    cases h
  | some w =>
    rw [hlist, Option.bind_some] at h
    cases w with
    | arr xs =>
      obtain ⟨x, hx, -⟩ := Option.bind_eq_some_iff.mp h
      obtain ⟨hi, -⟩ := List.getElem?_eq_some_iff.mp hx
      exact hi
    | _ => cases h

theorem mem_subnetPlaces {net : Option ℕ} {i : ℕ} {rest : Path} {v : Json}
    (h : get (subnetsPath net ++ .item i :: rest) (.obj d4) = some v) : .subnet net i ∈ subnetPlaces d4 := by
  have hi : i < lengthAt d4 (subnetsPath net) := lt_lengthAt _ h
  have hmem : ∀ n, Place.subnet n i ∈ (List.range (lengthAt d4 (subnetsPath net))).map (.subnet n) := fun n =>
    List.mem_map_of_mem (List.mem_range.mpr hi)
  cases net with
  | none => exact List.mem_append_left _ (hmem none)
  | some n =>
    have hn : n < lengthAt d4 [.key "shared-networks"] := lt_lengthAt [.key "shared-networks"] h
    exact List.mem_append_right _ (List.mem_flatMap.mpr ⟨n, List.mem_range.mpr hn, hmem (some n)⟩)

/-- What is a container is one of those that are gone through. -/
theorem mem_places (place : Place) (h : containerAt d4 place = some c) : place ∈ places d4 := by
  have hget : get place.path (.obj d4) = some (.obj c) := containerAt_eq_some.mp h
  cases place with
  | network n =>
    have hn : n < lengthAt d4 [.key "shared-networks"] := lt_lengthAt [.key "shared-networks"] hget
    exact List.mem_append_right _ (List.mem_map_of_mem (List.mem_range.mpr hn))
  | subnet net i =>
    have hsubnet : Place.subnet net i ∈ subnetPlaces d4 := mem_subnetPlaces hget
    exact List.mem_append_left _ (List.mem_flatMap.mpr ⟨_, hsubnet, List.mem_cons_self⟩)
  | pool net i k =>
    have hpath : poolsPath net i ++ [.item k] = subnetsPath net ++ .item i :: [.key "pools", .item k] := by
      unfold poolsPath
      rw [List.append_assoc]
      rfl
    have hsubnet : Place.subnet net i ∈ subnetPlaces d4 := by
      have hlong : get (subnetsPath net ++ .item i :: [.key "pools", .item k]) (.obj d4) = some (.obj c) := by
        rw [← hpath]
        exact hget
      exact mem_subnetPlaces hlong
    have hk : k < lengthAt d4 (poolsPath net i) := lt_lengthAt _ hget
    have hpool : Place.pool net i k ∈ poolPlaces d4 (.subnet net i) :=
      List.mem_map_of_mem (List.mem_range.mpr hk)
    exact List.mem_append_left _ (List.mem_flatMap.mpr ⟨_, hsubnet, List.mem_cons_of_mem _ hpool⟩)

/-- The way to a container begins at a key of the section. -/
theorem exists_path_eq (place : Place) : ∃ k path, place.path = .key k :: path ∧ k ∈ onWay := by
  obtain ⟨s, path, hpath⟩ := List.exists_cons_of_ne_nil (path_ne_nil place)
  have hkey : ∃ k, s = .key k := by
    cases place with
    | network n => exact ⟨_, (List.cons.inj hpath).1.symm⟩
    | subnet net i => cases net <;> exact ⟨_, (List.cons.inj hpath).1.symm⟩
    | pool net i k => cases net <;> exact ⟨_, (List.cons.inj hpath).1.symm⟩
  obtain ⟨k, rfl⟩ := hkey
  exact ⟨k, path, hpath, key_mem_path place (hpath ▸ List.mem_cons_self)⟩

/-- A key of the section that leads to no container. -/
theorem containerAt_set (place : Place) (v : Json) :
    containerAt (set "client-classes" v d4) place = containerAt d4 place := by
  obtain ⟨k, path, hpath, hk⟩ := exists_path_eq place
  have hne : "client-classes" ≠ k := by
    rintro rfl
    revert hk
    decide
  have hget : get place.path (.obj (set "client-classes" v d4)) = get place.path (.obj d4) := by
    rw [hpath]
    show (lookup k (set "client-classes" v d4)).bind _ = (lookup k d4).bind _
    rw [lookup_set_ne hne]
  unfold containerAt
  rw [hget]

end Places

/-! ## What a deletion leaves behind -/

/-- The container at a place of a configuration. -/
def containerOf (cfg : Fields) (place : Place) : Option Fields :=
  match lookup "Dhcp4" cfg with
  | some (.obj d4) => containerAt d4 place
  | _ => none

/-- The classes of a configuration. -/
def classesIn (cfg : Fields) : List Json :=
  match lookup "Dhcp4" cfg with
  | some (.obj d4) => items (valueOf "client-classes" d4)
  | _ => []

/-- The section of a configuration. -/
def sectionOf (cfg : Fields) : Fields :=
  match lookup "Dhcp4" cfg with
  | some (.obj d4) => d4
  | _ => []

/-- Nothing refers to the class any more, and it is the class alone that is gone. -/
structure Gone (cfg cfg' : Fields) (name : String) : Prop where
  containers : ∀ place c, containerOf cfg' place = some c → ¬ Names name c
  classes : ∀ v ∈ classesIn cfg', ¬ TestRefers name v
  removed : ∃ before c after, classesIn cfg = before ++ c :: after ∧ isClass name c = true ∧
    (∀ b ∈ before, isClass name b = false) ∧ classesIn cfg' = before ++ after
  untouched : ∀ place, containerOf cfg' place = containerOf cfg place
  others : ∀ k, k ≠ "client-classes" → lookup k (sectionOf cfg') = lookup k (sectionOf cfg)
  rest : ∀ k, k ≠ "Dhcp4" → lookup k cfg' = lookup k cfg

/-- The class is one of the section's, and no reference to it is found. -/
structure Deletable (cfg : Fields) (name : String) (d4 : Fields) (before after : List Json) (c : Json) : Prop where
  notBuiltin : isBuiltin name = false
  found : lookup "Dhcp4" cfg = some (.obj d4)
  listed : lookup "client-classes" d4 = some (.arr (before ++ c :: after))
  named : isClass name c = true
  first : ∀ b ∈ before, isClass name b = false
  unreferenced : references d4 name = some []

section Deletion

variable {cfg cfg' d4 : Fields} {name : String} {before after classes : List Json} {c : Json}

theorem findIdx?_eq_some {i : ℕ} (h : classes.findIdx? (isClass name) = some i) :
    ∃ before c after, classes = before ++ c :: after ∧ isClass name c = true ∧
      (∀ b ∈ before, isClass name b = false) ∧ classes.eraseIdx i = before ++ after := by
  have herase : classes.eraseP (isClass name) = classes.eraseIdx i := by
    rw [List.eraseP_eq_eraseIdx, h]
  obtain ⟨hi, hnamed, -⟩ := List.findIdx?_eq_some_iff_getElem.mp h
  obtain ⟨c, before, after, hfirst, hc, hclasses, hrest⟩ :=
    List.exists_of_eraseP (List.getElem_mem hi) hnamed
  exact ⟨before, c, after, hclasses, hc, fun b hb => Bool.not_eq_true _ ▸ hfirst b hb,
    herase.symm.trans hrest⟩

theorem findIdx?_append (hnamed : isClass name c = true) (hfirst : ∀ b ∈ before, isClass name b = false) :
    (before ++ c :: after).findIdx? (isClass name) = some before.length := by
  induction before with
  | nil =>
    rw [List.nil_append, List.findIdx?_cons, if_pos hnamed]
    rfl
  | cons b before ih =>
    have hb : isClass name b = false := hfirst b List.mem_cons_self
    rw [List.cons_append, List.findIdx?_cons, hb, ih fun b' hb' => hfirst b' (List.mem_cons_of_mem _ hb')]
    rfl

/-- What is deleted, and when. -/
theorem deleteClass4_eq_ok : deleteClass4 cfg name = some (cfg', .ok) ↔
    ∃ d4 before c after, Deletable cfg name d4 before after c ∧
      cfg' = set "Dhcp4" (.obj (set "client-classes" (.arr (before ++ after)) d4)) cfg := by
  constructor
  · intro h
    unfold deleteClass4 at h
    split_ifs at h with hbuiltin
    · cases h
    split at h
    · next d4 hd4 =>
      split at h
      · next classes hclasses =>
        split at h
        · cases h
        · next i hi =>
          obtain ⟨refs, hrefs, h⟩ := Option.map_eq_some_iff.mp h
          split_ifs at h with hempty
          · obtain rfl := List.isEmpty_iff.mp hempty
            obtain ⟨before, c, after, rfl, hc, hfirst, herase⟩ := findIdx?_eq_some hi
            refine ⟨d4, before, c, after, ?_, ?_⟩
            · exact ⟨Bool.not_eq_true _ ▸ hbuiltin, hd4, hclasses, hc, hfirst, hrefs⟩
            · rw [← herase]
              exact (Prod.mk.inj h).1.symm
          · cases h
      · cases h
    · cases h
  · rintro ⟨d4, before, c, after, hdeletable, rfl⟩
    have herase : (before ++ c :: after).eraseIdx before.length = before ++ after := by
      rw [List.eraseIdx_append_of_length_le le_rfl, Nat.sub_self]
      rfl
    unfold deleteClass4
    rw [hdeletable.notBuiltin, hdeletable.found]
    dsimp only
    rw [hdeletable.listed]
    dsimp only
    rw [findIdx?_append hdeletable.named hdeletable.first]
    dsimp only
    rw [hdeletable.unreferenced, herase]
    rfl

/-- Where no reference is found, no container reads the class, and no test is reported. -/
theorem unreferenced (h : references d4 name = some []) :
    (∀ place c, containerAt d4 place = some c → refersTo name c = false) ∧
      memberReferences name (items (valueOf "client-classes" d4)) = some [] := by
  unfold references at h
  split_ifs at h with hiterable
  obtain ⟨found, hfound, h⟩ := Option.map_eq_some_iff.mp h
  obtain ⟨hplaces, rfl⟩ := List.append_eq_nil_iff.mp h
  refine ⟨fun place c hc => ?_, hfound⟩
  have hnone := List.filter_eq_nil_iff.mp (List.map_eq_nil_iff.mp hplaces) place (mem_places place hc)
  rw [hc] at hnone
  exact Bool.not_eq_true _ ▸ hnone

/-- After a deletion nothing refers to the class when nothing was hidden or overlooked. -/
theorem gone_iff (h : Deletable cfg name d4 before after c) :
    Gone cfg (set "Dhcp4" (.obj (set "client-classes" (.arr (before ++ after)) d4)) cfg) name ↔
      (∀ place c, containerAt d4 place = some c → ¬ Hidden name c) ∧
        ∀ v ∈ before ++ after, ¬ Overlooked name v := by
  obtain ⟨hcontainers, hmembers⟩ := unreferenced h.unreferenced
  have hlisted : valueOf "client-classes" d4 = .arr (before ++ c :: after) := by
    unfold valueOf
    rw [h.listed]
    rfl
  have hbefore : classesIn cfg = before ++ c :: after := by
    unfold classesIn
    rw [h.found]
    show items (valueOf "client-classes" d4) = _
    rw [hlisted]
    rfl
  have hafter : classesIn (set "Dhcp4" (.obj (set "client-classes" (.arr (before ++ after)) d4)) cfg) =
      before ++ after := by
    unfold classesIn valueOf
    rw [lookup_set_self]
    dsimp only
    rw [lookup_set_self]
    rfl
  have hcontainerOf : ∀ place,
      containerOf (set "Dhcp4" (.obj (set "client-classes" (.arr (before ++ after)) d4)) cfg) place =
        containerAt d4 place := by
    intro place
    unfold containerOf
    rw [lookup_set_self]
    exact containerAt_set place _
  rw [hlisted] at hmembers
  have hmem : ∀ v ∈ before ++ after, v ∈ before ++ c :: after := by
    intro v hv
    rcases List.mem_append.mp hv with hv | hv
    · exact List.mem_append_left _ hv
    · exact List.mem_append_right _ (List.mem_cons_of_mem _ hv)
  constructor
  · intro hgone
    constructor
    · intro place d hd hhidden
      have hnames : Names name d := (names_iff_hidden (hcontainers place d hd)).mpr hhidden
      exact hgone.containers place d ((hcontainerOf place).trans hd) hnames
    · intro v hv hoverlooked
      have hrefers : TestRefers name v := (testRefers_iff_overlooked hmembers (hmem v hv)).mpr hoverlooked
      refine hgone.classes v ?_ hrefers
      rw [hafter]
      exact hv
  · rintro ⟨hhidden, hoverlooked⟩
    constructor
    · intro place d hd hnames
      rw [hcontainerOf] at hd
      exact hhidden place d hd ((names_iff_hidden (hcontainers place d hd)).mp hnames)
    · intro v hv hrefers
      rw [hafter] at hv
      exact hoverlooked v hv ((testRefers_iff_overlooked hmembers (hmem v hv)).mp hrefers)
    · exact ⟨before, c, after, hbefore, h.named, h.first, hafter⟩
    · intro place
      unfold containerOf
      rw [lookup_set_self, h.found]
      exact containerAt_set place _
    · intro k hk
      unfold sectionOf
      rw [lookup_set_self, h.found]
      exact lookup_set_ne (Ne.symm hk)
    · intro k hk
      exact lookup_set_ne (Ne.symm hk)

/-- A deletion leaves nothing behind when, of a class to which no reference is found, none is hidden behind a
list of the new spelling, and none is in a test in another spelling, or in that of a class of the same name. -/
theorem gone_deleteClass4 (cfg : Fields) (name : String) :
    (∀ cfg', deleteClass4 cfg name = some (cfg', .ok) → Gone cfg cfg' name) ↔
      ∀ d4 before after c, Deletable cfg name d4 before after c →
        (∀ place c, containerAt d4 place = some c → ¬ Hidden name c) ∧
          ∀ v ∈ before ++ after, ¬ Overlooked name v := by
  constructor
  · intro h d4 before after c hdeletable
    exact (gone_iff hdeletable).mp (h _ (deleteClass4_eq_ok.mpr ⟨d4, before, c, after, hdeletable, rfl⟩))
  · intro h cfg' hok
    obtain ⟨d4, before, c, after, hdeletable, rfl⟩ := deleteClass4_eq_ok.mp hok
    exact (gone_iff hdeletable).mpr (h d4 before after c hdeletable)

end Deletion

/-- A class, and one whose test is over it, with blanks. -/
def withBlanks : Fields :=
  [("Dhcp4", .obj [("client-classes", .arr [
    .obj [("name", .str "guests"), ("test", .str "pkt4.mac == 0x02")],
    .obj [("name", .str "vip"),
      ("test", .str (String.ofList ("member( ".toList ++
        Text.singleQuote :: ("guests".toList ++ [Text.singleQuote, ' ', ')']))))]])])]

/-- The class is deleted, and the test goes on referring to it. -/
theorem not_gone_withBlanks :
    ¬ ∀ (cfg : Fields) (name : String) (cfg' : Fields),
      deleteClass4 cfg name = some (cfg', .ok) → Gone cfg cfg' name := by
  intro h
  have hok : ((deleteClass4 withBlanks "guests").map fun r => (classesIn r.1, r.2)) = some
      ([.obj [("name", .str "vip"), ("test", .str (String.ofList ("member( ".toList ++
        Text.singleQuote :: ("guests".toList ++ [Text.singleQuote, ' ', ')']))))]], .ok) := by
    decide +kernel
  obtain ⟨⟨cfg', code⟩, hcfg', heq⟩ := Option.map_eq_some_iff.mp hok
  obtain ⟨hclasses, rfl⟩ := Prod.mk.inj heq
  refine (h withBlanks "guests" cfg' hcfg').classes _ (hclasses ▸ List.mem_singleton_self _) ?_
  refine ⟨_, _, rfl, rfl, 100, .member (Explain.Raises.points "guests"), ?_, ?_⟩
  · decide +kernel
  · exact List.mem_singleton_self _

end JenKea.Edit
