import Mathlib.Data.List.Induction
import JenKea.Import.ToKea

/-!
# What the edits of an import do

One lemma for each edit that `to_kea` makes, by what the section says afterwards: which class has a
name and which one stands at a place of the list, which subnet has an id, and which guards it and its
pools carry.
-/

namespace JenKea.Import

open Json

/-! ## Changing the first element with a property -/

section ChangeFirst

variable {α : Type} {p q : α → Bool} {f : α → α} {l : List α}

theorem changeFirst_cons (a : α) :
    changeFirst p f (a :: l) = if p a = true then f a :: l else a :: changeFirst p f l := rfl

theorem changeFirst_eq_self (h : l.any p = false) : changeFirst p f l = l := by
  induction l with
  | nil => rfl
  | cons a l ih =>
    rw [List.any_cons, Bool.or_eq_false_iff] at h
    rw [changeFirst_cons, if_neg (by simp [h.1]), ih h.2]

/-- One element gives way to what it is changed to. -/
theorem exists_changeFirst (h : l.any p = true) :
    ∃ l₁ a l₂, l = l₁ ++ a :: l₂ ∧ p a = true ∧ (∀ b ∈ l₁, p b = false) ∧
      changeFirst p f l = l₁ ++ f a :: l₂ := by
  induction l with
  | nil => simp at h
  | cons a l ih =>
    by_cases ha : p a = true
    · exact ⟨[], a, l, rfl, ha, by simp, by rw [changeFirst_cons, if_pos ha, List.nil_append]⟩
    · have hl : l.any p = true := by simpa [ha] using h
      obtain ⟨l₁, b, l₂, hsplit, hb, hl₁, hchange⟩ := ih hl
      refine ⟨a :: l₁, b, l₂, by rw [hsplit, List.cons_append], hb, ?_, ?_⟩
      · rw [List.forall_mem_cons]
        exact ⟨Bool.eq_false_iff.mpr ha, hl₁⟩
      · rw [changeFirst_cons, if_neg ha, hchange, List.cons_append]

/-- The first element with the property is changed. -/
theorem find?_changeFirst_self (hf : ∀ a, p a = true → p (f a) = true) :
    (changeFirst p f l).find? p = (l.find? p).map f := by
  induction l with
  | nil => rfl
  | cons a l ih =>
    rw [changeFirst_cons]
    by_cases ha : p a = true
    · rw [if_pos ha, List.find?_cons_of_pos (hf a ha), List.find?_cons_of_pos ha]
      rfl
    · rw [if_neg ha, List.find?_cons_of_neg ha, List.find?_cons_of_neg ha, ih]

/-- The first element with a property that the change does not bear on is what it was. -/
theorem find?_changeFirst_ne (h : ∀ a, p a = true → q a = false ∧ q (f a) = false) :
    (changeFirst p f l).find? q = l.find? q := by
  induction l with
  | nil => rfl
  | cons a l ih =>
    rw [changeFirst_cons]
    by_cases ha : p a = true
    · obtain ⟨h₁, h₂⟩ := h a ha
      rw [if_pos ha, List.find?_cons_of_neg (by simp [h₂]), List.find?_cons_of_neg (by simp [h₁])]
    · rw [if_neg ha, List.find?_cons, List.find?_cons, ih]

theorem length_changeFirst : (changeFirst p f l).length = l.length := by
  induction l with
  | nil => rfl
  | cons a l ih =>
    rw [changeFirst_cons]
    split_ifs
    · rfl
    · rw [List.length_cons, List.length_cons, ih]

/-- An element stands at the place that it was at. -/
theorem getElem?_changeFirst (i : ℕ) : (changeFirst p f l)[i]? =
    if l.findIdx? p = some i then l[i]?.map f else l[i]? := by
  induction l generalizing i with
  | nil => rfl
  | cons a l ih =>
    rw [changeFirst_cons, List.findIdx?_cons]
    by_cases ha : p a = true
    · rw [if_pos ha, if_pos ha]
      cases i with
      | zero => simp
      | succ i => simp
    · rw [if_neg ha, if_neg ha]
      cases i with
      | zero => simp
      | succ i => simp [ih i]

/-- Where the elements of a list have a property as those of a longer list have, the first that has it
is at the same place. -/
theorem findIdx?_congr {l' : List α} (h : ∀ j < l.length, l'[j]?.map p = l[j]?.map p) {i : ℕ}
    (hi : i < l.length) : l'.findIdx? p = some i ↔ l.findIdx? p = some i := by
  induction l generalizing l' i with
  | nil => simp at hi
  | cons a l ih =>
    cases l' with
    | nil => simpa using h 0 (by simp)
    | cons b l' =>
      have hhead : p b = p a := by simpa using h 0 (by simp)
      have htail : ∀ j < l.length, l'[j]?.map p = l[j]?.map p := by
        intro j hj
        simpa using h (j + 1) (by simpa using hj)
      rw [List.findIdx?_cons, List.findIdx?_cons, hhead]
      split_ifs
      · rfl
      · cases i with
        | zero => simp
        | succ i =>
          have hrest := ih htail (by simpa using hi)
          simpa using hrest

end ChangeFirst

/-! ## What a dictionary says of a key -/

section Has

variable {k : String} {fs : Fields}

theorem has_str {s : String} : has k (.str s) fs = true ↔ lookup k fs = some (.str s) := by
  unfold has
  cases lookup k fs with
  | none => simp
  | some v => cases v <;> simp [pyEq, number]

/-- A number is equal to one integer at most. -/
theorem has_int_inj {a b : ℤ} (ha : has k (.int a) fs = true) (hb : has k (.int b) fs = true) :
    a = b := by
  unfold has at ha hb
  cases hlookup : lookup k fs with
  | none => simp [hlookup] at ha
  | some v =>
    rw [hlookup] at ha hb
    cases v <;> simp [pyEq, number] at ha hb
    · exact_mod_cast ha.symm.trans hb
    · exact ha.symm.trans hb
    · exact_mod_cast ha.symm.trans hb

theorem has_congr {fs' : Fields} (h : lookup k fs' = lookup k fs) (v : Json) :
    has k v fs' = has k v fs := by
  unfold has
  rw [h]

end Has

/-! ## Classes -/

/-- The test of the first class of a name. -/
def testOf (classes : List Fields) (name : String) : Option Json :=
  (classes.find? (has "name" (.str name))).bind (lookup "test")

/-- The place of the first class of a name. -/
def placeOf (classes : List Fields) (name : String) : Option ℕ :=
  classes.findIdx? (has "name" (.str name))

section Classes

variable {classes : List Fields} {cls : ClassDict} {name : String}

theorem has_fields : has "name" (.str name) cls.fields = true ↔ cls.name = name := by
  rw [has_str, ClassDict.fields]
  simp

theorem lookup_test_fields : lookup "test" cls.fields = some (.str cls.test) := by
  simp [ClassDict.fields]

theorem has_name_inj {fs : Fields} {a b : String} (ha : has "name" (.str a) fs = true)
    (hb : has "name" (.str b) fs = true) : a = b := by
  have heq := (has_str.mp ha).symm.trans (has_str.mp hb)
  simpa using heq

/-- A class has the test that was written last under its name. -/
theorem testOf_upsertClass4 : testOf (upsertClass4 classes cls) name =
    if cls.name = name then some (.str cls.test) else testOf classes name := by
  have hself : has "name" (.str cls.name) cls.fields = true := has_fields.mpr rfl
  unfold testOf upsertClass4
  split_ifs with hany hname hname
  · subst hname
    obtain ⟨fs, hfs, hhas⟩ := List.any_eq_true.mp hany
    have hsome : (classes.find? (has "name" (.str cls.name))).isSome :=
      List.find?_isSome.mpr ⟨fs, hfs, hhas⟩
    obtain ⟨found, hfound⟩ := Option.isSome_iff_exists.mp hsome
    rw [find?_changeFirst_self fun _ _ => hself, hfound]
    exact lookup_test_fields
  · rw [find?_changeFirst_ne fun fs hfs => ?_]
    constructor
    · exact Bool.eq_false_iff.mpr fun hhas => hname (has_name_inj hfs hhas)
    · exact Bool.eq_false_iff.mpr fun hhas => hname (has_fields.mp hhas)
  · subst hname
    have hnone : classes.find? (has "name" (.str cls.name)) = none :=
      List.find?_eq_none.mpr fun fs hfs hhas => hany (List.any_eq_true.mpr ⟨fs, hfs, hhas⟩)
    rw [List.find?_append, hnone, Option.none_or, List.find?_cons_of_pos hself]
    exact lookup_test_fields
  · have hother : ¬ has "name" (.str name) cls.fields = true := fun hhas => hname (has_fields.mp hhas)
    rw [List.find?_append, List.find?_cons_of_neg hother, List.find?_nil, Option.or_none]

/-- A class has the test of the last class that was written under its name, or the one it had. -/
theorem testOf_foldl (written : List ClassDict) :
    testOf (written.foldl upsertClass4 classes) name =
      match written.reverse.find? fun cls => cls.name = name with
      | some cls => some (.str cls.test)
      | none => testOf classes name := by
  induction written using List.reverseRecOn with
  | nil => rfl
  | append_singleton written cls ih =>
    rw [List.foldl_concat, testOf_upsertClass4, List.reverse_append, List.reverse_singleton,
      List.singleton_append]
    by_cases hname : cls.name = name
    · rw [if_pos hname, List.find?_cons_of_pos (by simpa using hname)]
    · rw [if_neg hname, List.find?_cons_of_neg (by simpa using hname), ih]

/-- A class that is there keeps its name. -/
theorem has_upsertClass4 {j : ℕ} (hj : j < classes.length) :
    (upsertClass4 classes cls)[j]?.map (has "name" (.str name)) =
      classes[j]?.map (has "name" (.str name)) := by
  unfold upsertClass4
  split_ifs with hany
  · rw [getElem?_changeFirst]
    split_ifs with hplace
    · obtain ⟨hlt, hhas, -⟩ := List.findIdx?_eq_some_iff_getElem.mp hplace
      rw [List.getElem?_eq_getElem hj, Option.map_some, Option.map_some, Option.map_some,
        Option.some.injEq, Bool.eq_iff_iff, has_fields]
      constructor
      · rintro rfl
        exact hhas
      · exact has_name_inj hhas
    · rfl
  · rw [List.getElem?_append_left hj]

theorem length_le_upsertClass4 : classes.length ≤ (upsertClass4 classes cls).length := by
  unfold upsertClass4
  split_ifs
  · rw [length_changeFirst]
  · rw [List.length_append]
    omega

/-- What stands at the place of a class that was there. -/
theorem getElem?_upsertClass4 {i : ℕ} (hi : i < classes.length) :
    (upsertClass4 classes cls)[i]? =
      if placeOf classes cls.name = some i then some cls.fields else classes[i]? := by
  unfold upsertClass4 placeOf
  split_ifs with hany hplace hplace
  · rw [getElem?_changeFirst, if_pos hplace, List.getElem?_eq_getElem hi, Option.map_some]
  · rw [getElem?_changeFirst, if_neg hplace]
  · obtain ⟨hlt, hhas, -⟩ := List.findIdx?_eq_some_iff_getElem.mp hplace
    exact absurd (List.any_eq_true.mpr ⟨_, List.getElem_mem hlt, hhas⟩) hany
  · rw [List.getElem?_append_left hi]

/-- What stands at the place of a class that was there when many are written: the last that was
written in its place. -/
theorem getElem?_foldl (written : List ClassDict) {i : ℕ} (hi : i < classes.length) :
    (∀ name, placeOf (written.foldl upsertClass4 classes) name = some i ↔
        placeOf classes name = some i) ∧
      classes.length ≤ (written.foldl upsertClass4 classes).length ∧
      (written.foldl upsertClass4 classes)[i]? =
        match written.reverse.find? fun cls => placeOf classes cls.name = some i with
        | some cls => some cls.fields
        | none => classes[i]? := by
  induction written using List.reverseRecOn with
  | nil => exact ⟨fun _ => Iff.rfl, le_rfl, rfl⟩
  | append_singleton written cls ih =>
    obtain ⟨hplace, hlength, hget⟩ := ih
    have hi' : i < (written.foldl upsertClass4 classes).length := by omega
    rw [List.foldl_concat, List.reverse_append, List.reverse_singleton, List.singleton_append]
    refine ⟨fun name => ?_, hlength.trans length_le_upsertClass4, ?_⟩
    · rw [← hplace name]
      exact findIdx?_congr (fun j hj => has_upsertClass4 hj) hi'
    · rw [getElem?_upsertClass4 hi']
      by_cases hcls : placeOf classes cls.name = some i
      · rw [if_pos ((hplace cls.name).mpr hcls), List.find?_cons_of_pos (by simpa using hcls)]
      · rw [if_neg (mt (hplace cls.name).mp hcls), List.find?_cons_of_neg (by simpa using hcls),
          hget]

end Classes

/-! ## Subnets -/

section Subnets

variable {d4 d4' : Dhcp4} {block : SubnetBlock} {id : ℤ} {s : SubnetEntry}

theorem hasId_entry : block.entry.hasId id = true ↔ block.id = id := by
  simp [SubnetEntry.hasId, SubnetBlock.entry, has, pyEq, number]

/-- A subnet that is added has an id that no other has, and stands among them. -/
theorem addSubnet4_ok {net : String} (h : addSubnet4 d4 block net = .ok d4') :
    d4'.classes = d4.classes ∧ (∀ s ∈ d4.iterSubnet4, s.hasId block.id = false) ∧
      ∃ l₁ l₂, d4.iterSubnet4 = l₁ ++ l₂ ∧ d4'.iterSubnet4 = l₁ ++ block.entry :: l₂ := by
  unfold addSubnet4 at h
  split_ifs at h with hid hnet hnetwork
  · obtain rfl := Except.ok.inj h
    refine ⟨rfl, by simpa using hid, d4.subnets, d4.networks.flatMap NetworkEntry.subnets, rfl, ?_⟩
    simp [Dhcp4.iterSubnet4]
  · obtain rfl := Except.ok.inj h
    refine ⟨rfl, by simpa using hid, ?_⟩
    obtain ⟨n₁, n, n₂, hsplit, -, -, hchange⟩ := exists_changeFirst
      (f := fun n : NetworkEntry => { n with subnets := n.subnets ++ [block.entry] }) hnetwork
    refine ⟨d4.subnets ++ n₁.flatMap NetworkEntry.subnets ++ n.subnets,
      n₂.flatMap NetworkEntry.subnets, ?_, ?_⟩
    · simp [Dhcp4.iterSubnet4, hsplit]
    · simp [Dhcp4.iterSubnet4, hchange]

variable (id) in
/-- A subnet that is added is found by its id, and every other one as before. -/
theorem subnet4ById_addSubnet4 {net : String} (h : addSubnet4 d4 block net = .ok d4') :
    d4.subnet4ById block.id = none ∧ d4'.subnet4ById id =
      if block.id = id then some block.entry else d4.subnet4ById id := by
  obtain ⟨-, hfresh, l₁, l₂, hold, hnew⟩ := addSubnet4_ok h
  have hnone : d4.subnet4ById block.id = none :=
    List.find?_eq_none.mpr fun s hs => by simp [hfresh s hs]
  refine ⟨hnone, ?_⟩
  unfold Dhcp4.subnet4ById at hnone ⊢
  rw [hnew, hold, List.find?_append, List.find?_append]
  split_ifs with hid
  · subst hid
    rw [hold, List.find?_append, Option.or_eq_none_iff] at hnone
    rw [hnone.1, Option.none_or, List.find?_cons_of_pos (hasId_entry.mpr rfl)]
  · rw [List.find?_cons_of_neg (by rw [hasId_entry]; exact hid)]

/-- A subnet that is found by its id is changed in its place. -/
theorem changeSubnet_eq {f : SubnetEntry → SubnetEntry} (h : d4.subnet4ById id = some s) :
    (d4.changeSubnet id f).classes = d4.classes ∧
      (d4.changeSubnet id f).networks.map NetworkEntry.fields =
        d4.networks.map NetworkEntry.fields ∧
      ∃ l₁ l₂, d4.iterSubnet4 = l₁ ++ s :: l₂ ∧ (∀ b ∈ l₁, b.hasId id = false) ∧
        (d4.changeSubnet id f).iterSubnet4 = l₁ ++ f s :: l₂ := by
  unfold Dhcp4.changeSubnet
  unfold Dhcp4.subnet4ById at h
  -- where the element that is changed stands, it is the one that is found
  have hfound : ∀ {l₁ a l₂}, d4.iterSubnet4 = l₁ ++ a :: l₂ → a.hasId id = true →
      (∀ b ∈ l₁, b.hasId id = false) → a = s := by
    intro l₁ a l₂ hiter ha hl₁
    have hnone : l₁.find? (SubnetEntry.hasId id) = none :=
      List.find?_eq_none.mpr fun b hb => by simp [hl₁ b hb]
    rw [hiter, List.find?_append, hnone, Option.none_or, List.find?_cons_of_pos ha] at h
    exact Option.some.inj h
  split_ifs with hany
  · obtain ⟨l₁, a, l₂, hsplit, ha, hl₁, hchange⟩ := exists_changeFirst (f := f) hany
    have hiter : d4.iterSubnet4 = l₁ ++ a :: (l₂ ++ d4.networks.flatMap NetworkEntry.subnets) := by
      simp [Dhcp4.iterSubnet4, hsplit]
    obtain rfl := hfound hiter ha hl₁
    refine ⟨rfl, rfl, l₁, _, hiter, hl₁, ?_⟩
    simp [Dhcp4.iterSubnet4, hchange]
  · have htop : ∀ b ∈ d4.subnets, b.hasId id = false := by simpa using hany
    have hmem := List.mem_of_find?_eq_some h
    have hid : s.hasId id = true := List.find?_some h
    have hnetwork : (d4.networks.any fun n => n.subnets.any (SubnetEntry.hasId id)) = true := by
      rcases List.mem_append.mp hmem with hmem | hmem
      · rw [htop s hmem] at hid
        cases hid
      · obtain ⟨n, hn, hs⟩ := List.mem_flatMap.mp hmem
        exact List.any_eq_true.mpr ⟨n, hn, List.any_eq_true.mpr ⟨s, hs, hid⟩⟩
    obtain ⟨n₁, n, n₂, hsplit, hn, hn₁, hchange⟩ := exists_changeFirst
      (f := fun n : NetworkEntry =>
        { n with subnets := changeFirst (SubnetEntry.hasId id) f n.subnets }) hnetwork
    obtain ⟨m₁, a, m₂, hsubnets, ha, hm₁, hinner⟩ := exists_changeFirst (f := f) hn
    have hiter : d4.iterSubnet4 = (d4.subnets ++ n₁.flatMap NetworkEntry.subnets ++ m₁) ++
        a :: (m₂ ++ n₂.flatMap NetworkEntry.subnets) := by
      simp [Dhcp4.iterSubnet4, hsplit, hsubnets]
    have hbefore : ∀ b ∈ d4.subnets ++ n₁.flatMap NetworkEntry.subnets ++ m₁,
        b.hasId id = false := by
      intro b hb
      rcases List.mem_append.mp hb with hb | hb
      · rcases List.mem_append.mp hb with hb | hb
        · exact htop b hb
        · obtain ⟨n', hn', hb'⟩ := List.mem_flatMap.mp hb
          have hnot := hn₁ n' hn'
          rw [List.any_eq_false] at hnot
          simpa using hnot b hb'
      · exact hm₁ b hb
    obtain rfl := hfound hiter ha hbefore
    refine ⟨rfl, ?_, _, _, hiter, hbefore, ?_⟩
    · dsimp only
      rw [hchange, hsplit]
      simp
    · simp [Dhcp4.iterSubnet4, hchange, hinner]

/-- A subnet that is changed is found by its id, and every other one as before. -/
theorem subnet4ById_changeSubnet {f : SubnetEntry → SubnetEntry}
    (h : d4.subnet4ById id = some s) (hf : ∀ i, (f s).hasId i = s.hasId i) {id' : ℤ} :
    (d4.changeSubnet id f).subnet4ById id' =
      if id = id' then some (f s) else d4.subnet4ById id' := by
  obtain ⟨-, -, l₁, l₂, hold, hl₁, hnew⟩ := changeSubnet_eq (f := f) h
  have hs : s.hasId id = true := List.find?_some h
  unfold Dhcp4.subnet4ById
  rw [hnew, hold, List.find?_append, List.find?_append]
  split_ifs with hid
  · subst hid
    have hnone : l₁.find? (SubnetEntry.hasId id) = none :=
      List.find?_eq_none.mpr fun b hb => by simp [hl₁ b hb]
    rw [hnone, Option.none_or, List.find?_cons_of_pos (by rw [hf, hs])]
  · have hother : ¬ s.hasId id' = true := fun hs' => hid (has_int_inj hs hs')
    rw [List.find?_cons_of_neg (by rw [hf]; exact hother), List.find?_cons_of_neg hother]

end Subnets

/-! ## Guards -/

section Guards

variable {d4 : Dhcp4} {id : ℤ} {s : SubnetEntry} {new : Bool} {name : String} {c : Fields}
  {keys : List String}

theorem lookup_attachGuard {k : String} (hnew : k ≠ newGuard) (hold : k ≠ oldGuard) :
    lookup k (attachGuard new name c) = lookup k c := by
  unfold attachGuard
  split_ifs
  · exact lookup_set_ne hnew.symm
  · exact lookup_set_ne hold.symm

/-- Whether the section has a key of the new spelling. -/
def Dhcp4.seesNew (d4 : Dhcp4) : Bool :=
  hasAny d4.scopeContainers [newGuard, "evaluate-additional-classes"] ||
    hasAny d4.classes ["only-in-additional-list"]

/-- Without a version the spelling is new where the section has a key of it. -/
theorem attachmentKeys_none : attachmentKeys d4 none = d4.seesNew := by
  unfold attachmentKeys Dhcp4.seesNew
  dsimp only
  split_ifs with h₁ h₂ h₃ <;> simp_all

@[simp] theorem hasAny_nil : hasAny [] keys = false := rfl

@[simp] theorem hasAny_cons {l : List Fields} :
    hasAny (c :: l) keys = ((keys.any fun k => (lookup k c).isSome) || hasAny l keys) := rfl

@[simp] theorem hasAny_append {l l' : List Fields} :
    hasAny (l ++ l') keys = (hasAny l keys || hasAny l' keys) := List.any_append

/-- A guard in the new spelling is a key of it, and one in the old spelling is none. -/
theorem any_attachGuard :
    ([newGuard, "evaluate-additional-classes"].any fun k =>
        (lookup k (attachGuard new name c)).isSome) =
      (([newGuard, "evaluate-additional-classes"].any fun k => (lookup k c).isSome) || new) := by
  have hother : lookup "evaluate-additional-classes" (attachGuard new name c) =
      lookup "evaluate-additional-classes" c := lookup_attachGuard (by decide) (by decide)
  cases new with
  | true => simp [attachGuard]
  | false =>
    have hguard : lookup newGuard (attachGuard false name c) = lookup newGuard c :=
      lookup_set_ne (by decide)
    simp [hother, hguard]

/-- A change of a subnet keeps the spelling, where it adds a key of the new spelling at most when the
section is in the new spelling. -/
theorem attachmentKeys_changeSubnet {f : SubnetEntry → SubnetEntry}
    (h : d4.subnet4ById id = some s)
    (hf : hasAny ((f s).fields :: (f s).pools) [newGuard, "evaluate-additional-classes"] =
      (hasAny (s.fields :: s.pools) [newGuard, "evaluate-additional-classes"] ||
        attachmentKeys d4 none)) :
    attachmentKeys (d4.changeSubnet id f) none = attachmentKeys d4 none := by
  obtain ⟨hclasses, hnetworks, l₁, l₂, hold, -, hnew⟩ := changeSubnet_eq (f := f) h
  rw [attachmentKeys_none] at hf ⊢
  rw [attachmentKeys_none]
  have hafter : hasAny (d4.changeSubnet id f).scopeContainers
      [newGuard, "evaluate-additional-classes"] =
        (hasAny d4.scopeContainers [newGuard, "evaluate-additional-classes"] || d4.seesNew) := by
    unfold Dhcp4.scopeContainers
    rw [hnew, hold, hnetworks, List.flatMap_append, List.flatMap_append, List.flatMap_cons,
      List.flatMap_cons]
    simp only [hasAny_append, hf]
    cases d4.seesNew <;> simp
  have hself : d4.seesNew = (hasAny d4.scopeContainers [newGuard, "evaluate-additional-classes"] ||
    hasAny d4.classes ["only-in-additional-list"]) := rfl
  rw [Dhcp4.seesNew, hafter, hclasses, hself]
  cases hasAny d4.scopeContainers [newGuard, "evaluate-additional-classes"] <;> simp

/-- A guard of one of the pools. -/
theorem hasAny_changeFirst {p : Fields → Bool} {pools : List Fields} (h : pools.any p = true) :
    hasAny (changeFirst p (attachGuard new name) pools) [newGuard, "evaluate-additional-classes"] =
      (hasAny pools [newGuard, "evaluate-additional-classes"] || new) := by
  obtain ⟨l₁, a, l₂, hsplit, -, -, hchange⟩ := exists_changeFirst (f := attachGuard new name) h
  rw [hchange, hsplit, hasAny_append, hasAny_append, hasAny_cons, hasAny_cons, any_attachGuard]
  cases new <;> simp

/-- The section while guards are attached to a subnet: the rest is what it was before. -/
structure Attaching (before d4 : Dhcp4) (id : ℤ) (s : SubnetEntry) : Prop where
  classes : d4.classes = before.classes
  keys : attachmentKeys d4 none = attachmentKeys before none
  this : d4.subnet4ById id = some s
  others : ∀ id', id' ≠ id → d4.subnet4ById id' = before.subnet4ById id'

variable {before : Dhcp4} {scope : Scope} {st : Imported}

theorem Attaching.change (h : Attaching before d4 id s) {f : SubnetEntry → SubnetEntry}
    (hid : ∀ i, (f s).hasId i = s.hasId i)
    (hf : hasAny ((f s).fields :: (f s).pools) [newGuard, "evaluate-additional-classes"] =
      (hasAny (s.fields :: s.pools) [newGuard, "evaluate-additional-classes"] ||
        attachmentKeys d4 none)) :
    Attaching before (d4.changeSubnet id f) id (f s) := by
  refine ⟨?_, ?_, ?_, fun id' hid' => ?_⟩
  · rw [(changeSubnet_eq h.this).1, h.classes]
  · rw [attachmentKeys_changeSubnet h.this hf, h.keys]
  · rw [subnet4ById_changeSubnet h.this hid, if_pos rfl]
  · rw [subnet4ById_changeSubnet h.this hid, if_neg hid'.symm, h.others id' hid']

/-- A guard of the whole subnet is attached. -/
theorem Attaching.subnetGuard (h : Attaching before st.cfg id s) (name : String) :
    Attaching before (importSubnetGuard scope id st name).cfg id
      { s with fields := attachGuard (attachmentKeys before none) name s.fields } := by
  have hattach : attachSubnet4 st.cfg name id = some (st.cfg.changeSubnet id fun s =>
      { s with fields := attachGuard (attachmentKeys st.cfg none) name s.fields }) := by
    rw [attachSubnet4, h.this]
  rw [importSubnetGuard, hattach, ← h.keys]
  refine h.change (fun i => ?_) ?_
  · exact has_congr (lookup_attachGuard (by decide) (by decide)) _
  · rw [hasAny_cons, hasAny_cons, any_attachGuard]
    cases attachmentKeys st.cfg none <;> simp

/-- A guard of a pool is attached where there is a pool of its text. -/
theorem Attaching.poolGuard (h : Attaching before st.cfg id s) (guard : String × String) :
    Attaching before (importPoolGuard scope id st guard).cfg id
      { s with
        pools := changeFirst (has "pool" (.str guard.1))
          (attachGuard (attachmentKeys before none) guard.2) s.pools } := by
  unfold importPoolGuard attachPool4
  rw [h.this]
  dsimp only
  split_ifs with hany
  · rw [← h.keys]
    refine h.change (fun i => rfl) ?_
    rw [hasAny_cons, hasAny_cons, hasAny_changeFirst hany, Bool.or_assoc]
  · rw [changeFirst_eq_self (Bool.eq_false_iff.mpr hany)]
    exact h

/-- A subnet with all of its guards. -/
def guardedEntry (new : Bool) (m : MappedScope) : SubnetEntry where
  fields := m.subnetGuards.foldl (fun fs name => attachGuard new name fs) m.subnet.entry.fields
  pools := m.poolGuards.foldl (fun pools guard =>
    changeFirst (has "pool" (.str guard.1)) (attachGuard new guard.2) pools) m.subnet.entry.pools

/-- All the guards of a scope are attached. -/
theorem Attaching.foldl (m : MappedScope) (h : Attaching before st.cfg id m.subnet.entry) :
    Attaching before (m.poolGuards.foldl (importPoolGuard scope id)
      (m.subnetGuards.foldl (importSubnetGuard scope id) st)).cfg id
        (guardedEntry (attachmentKeys before none) m) := by
  have hsubnet : ∀ (names : List String) (st : Imported) (s : SubnetEntry),
      Attaching before st.cfg id s →
        Attaching before (names.foldl (importSubnetGuard scope id) st).cfg id { s with
          fields := names.foldl (fun fs name =>
            attachGuard (attachmentKeys before none) name fs) s.fields } := by
    intro names
    induction names with
    | nil => exact fun st s h => h
    | cons name names ih => exact fun st s h => ih _ _ (h.subnetGuard name)
  have hpool : ∀ (guards : List (String × String)) (st : Imported) (s : SubnetEntry),
      Attaching before st.cfg id s →
        Attaching before (guards.foldl (importPoolGuard scope id) st).cfg id { s with
          pools := guards.foldl (fun pools guard => changeFirst (has "pool" (.str guard.1))
            (attachGuard (attachmentKeys before none) guard.2) pools) s.pools } := by
    intro guards
    induction guards with
    | nil => exact fun st s h => h
    | cons guard guards ih => exact fun st s h => ih _ _ (h.poolGuard guard)
  exact hpool _ _ _ (hsubnet _ _ _ h)

/-! ## What guards a container -/

theorem strings_map (names : List String) : strings (names.map .str) = names := by
  induction names with
  | nil => rfl
  | cons name names ih =>
    have hcons : strings (.str name :: names.map .str) = name :: strings (names.map .str) := rfl
    rw [List.map_cons, hcons, ih]

/-- A guard in the new spelling joins those that are there. -/
theorem mem_listedGuards_attachGuard {last : String} :
    name ∈ listedGuards (attachGuard true last c) ↔ name ∈ listedGuards c ∨ name = last := by
  have hlisted : listedGuards (attachGuard true last c) =
      if last ∈ listedGuards c then listedGuards c else listedGuards c ++ [last] := by
    rw [attachGuard, if_pos rfl]
    conv_lhs => rw [listedGuards]
    simp only [lookup_set_self, strings_map]
  rw [hlisted]
  split_ifs with hlast
  · constructor
    · exact .inl
    · rintro (h | rfl)
      · exact h
      · exact hlast
  · rw [List.mem_append, List.mem_singleton]

variable (new name) in
/-- In the old spelling the last guard is the only one; in the new one all are there. -/
theorem mem_guardClasses_foldl (hnew : lookup newGuard c = none) (hold : lookup oldGuard c = none)
    (names : List String) :
    name ∈ guardClasses (names.foldl (fun fs name => attachGuard new name fs) c) ↔
      if new then name ∈ names else names.getLast? = some name := by
  cases new with
  | false =>
    have hfold : lookup newGuard (names.foldl (fun fs name => attachGuard false name fs) c) = none ∧
        lookup oldGuard (names.foldl (fun fs name => attachGuard false name fs) c) =
          names.getLast?.map .str := by
      induction names using List.reverseRecOn with
      | nil => exact ⟨hnew, hold⟩
      | append_singleton names last ih =>
        rw [List.foldl_concat, List.getLast?_concat]
        exact ⟨(lookup_set_ne (by decide)).trans ih.1, lookup_set_self⟩
    unfold guardClasses
    rw [hfold.1, hfold.2]
    cases names.getLast? <;> simp [eq_comm]
  | true =>
    have hfold : lookup oldGuard (names.foldl (fun fs name => attachGuard true name fs) c) = none ∧
        (name ∈ listedGuards (names.foldl (fun fs name => attachGuard true name fs) c) ↔
          name ∈ names) := by
      induction names using List.reverseRecOn with
      | nil => exact ⟨hold, by simp [listedGuards, hnew]⟩
      | append_singleton names last ih =>
        rw [List.foldl_concat, mem_listedGuards_attachGuard, ih.2, List.mem_append,
          List.mem_singleton]
        exact ⟨(lookup_set_ne (by decide)).trans ih.1, Iff.rfl⟩
    have hlisted : guardClasses (names.foldl (fun fs name => attachGuard true name fs) c) =
        listedGuards (names.foldl (fun fs name => attachGuard true name fs) c) := by
      unfold guardClasses listedGuards
      rw [hfold.1]
    rw [hlisted, if_pos rfl, hfold.2]

/-- The pool of a text has the guards that are attached to this text. -/
theorem find?_poolGuards (guards : List (String × String)) (pools : List Fields) (text : String) :
    (guards.foldl (fun pools guard =>
      changeFirst (has "pool" (.str guard.1)) (attachGuard new guard.2) pools) pools).find?
        (has "pool" (.str text)) =
      (pools.find? (has "pool" (.str text))).map fun c =>
        ((guards.filter fun guard => guard.1 = text).map Prod.snd).foldl
          (fun fs name => attachGuard new name fs) c := by
  have hkeep : ∀ (v : Json) (name : String) (fs : Fields),
      has "pool" v (attachGuard new name fs) = has "pool" v fs :=
    fun v name fs => has_congr (lookup_attachGuard (by decide) (by decide)) v
  induction guards generalizing pools with
  | nil => simp
  | cons guard guards ih =>
    rw [List.foldl_cons, ih]
    by_cases htext : guard.1 = text
    · subst htext
      rw [find?_changeFirst_self fun fs hfs => (hkeep _ _ _).trans hfs,
        List.filter_cons_of_pos (by simp), Option.map_map]
      rfl
    · rw [find?_changeFirst_ne fun fs hfs => ?_, List.filter_cons_of_neg (by simpa using htext)]
      have hother : has "pool" (.str text) fs = false := by
        refine Bool.eq_false_iff.mpr fun hfs' => htext ?_
        simpa using (has_str.mp hfs).symm.trans (has_str.mp hfs')
      exact ⟨hother, (hkeep _ _ _).trans hother⟩

end Guards

end JenKea.Import
