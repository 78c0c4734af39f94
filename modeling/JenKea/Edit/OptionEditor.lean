import JenKea.Edit.Containers
import JenKea.Lib.PyEq
import JenKea.Subnets.OptionValues

/-!
# The editor of options

`set_option4` and `remove_option4` of `jen/services/kea_config_edit.py`. They look for the first entry with the
code among all of a list, whatever its option space, and what they find is replaced or removed. An option of a
vendor's own space with the same code is taken for the option of DHCP.
-/

namespace JenKea.Edit

open Json Import Subnets

/-! ## Levels -/

/-- A level of options, with the key of the container. -/
inductive Level where
  | whole
  | container (target : Target)
  | clientClass (name : Json)

/-- The place of a dictionary that can hold options. -/
inductive Spot where
  | whole
  | container (place : Place)
  | clientClass (i : ℕ)

/-- The path of a dictionary that can hold options. -/
def Spot.path : Spot → Path
  | .whole => []
  | .container place => place.path
  | .clientClass i => [.key "client-classes", .item i]

/-- The dictionary at a spot. -/
def optionsHolder (d4 : Fields) (spot : Spot) : Fields :=
  match get spot.path (.obj d4) with
  | some (.obj c) => c
  | _ => []

/-- The value is a dictionary with the name. -/
def namedAs (name : Json) : Json → Bool
  | .obj c => (valueOf "name" c).pyEq name
  | _ => false

/-- `_container_for_level4`: the spot of the first dictionary that is meant. It raises where something that it
goes through is no list. -/
def containerForLevel4 (d4 : Fields) : Level → Option (Option Spot)
  | .whole => some (some .whole)
  | .container target => (findPlace d4 target).map fun place => place.map .container
  | .clientClass name =>
    if isIterable (valueOf "client-classes" d4) then
      match valueOf "client-classes" d4 with
      | .arr classes => some ((classes.findIdx? (namedAs name)).map .clientClass)
      | _ => some none
    else none

/-! ## Entries -/

/-- The code of an entry, that of its name where it has none. It raises where the name cannot be looked up. -/
def entryCode (o : Fields) : Option Json :=
  match valueOf "code" o with
  | .null =>
    match valueOf "name" o with
    | .str name => some ((codeOfName name).elim .null fun code => .int code)
    | .arr _ | .obj _ => none
    | _ => some .null
  | code => some code

/-- The entry has the code, in whatever space. -/
def carries (code : ℤ) : Json → Bool
  | .obj o => (entryCode o).any fun c => c.pyEq (.int code)
  | _ => false

/-- The place of the first entry with the code. -/
def codeIndex (code : ℤ) : List Json → Option (Option ℕ)
  | [] => some none
  | .obj o :: opts => do
    let c ← entryCode o
    if c.pyEq (.int code) then return some 0 else (codeIndex code opts).map (Option.map Nat.succ)
  | _ :: opts => (codeIndex code opts).map (Option.map Nat.succ)

/-- `_match_option_index`. -/
def matchOptionIndex (opts : List Json) (code : ℤ) (name : Option String) : Option (Option ℕ) :=
  (codeIndex code opts).map fun
    | some i => some i
    | none => name.bind fun name => opts.findIdx? (namedAs (.str name))

/-! ## The two edits -/

/-- What the editor reports. -/
inductive OptionCode where
  | ok
  | notfound
  | managed
  deriving DecidableEq

/-- `MANAGED_AT_SUBNET`. -/
def managedAtSubnet : List ℤ := [3, 6]

/-- The option is one that the form of a subnet owns. -/
def isManaged (level : Level) (code : ℤ) : Bool :=
  match level with
  | .container (.subnet _) => managedAtSubnet.contains code
  | _ => false

/-- The entry that is written. -/
def optionEntry (code : ℤ) (name data : String) (csvFormat : Bool) : Json :=
  .obj [("name", .str name), ("code", .int code), ("space", .str "dhcp4"), ("csv-format", .bool csvFormat),
    ("data", .str data)]

/-- A dictionary with its list of options. -/
def putOptions (opts : List Json) (c : Fields) : Fields := set "option-data" (.arr opts) c

/-- The configuration with another list of options at a spot. -/
def withOptions (cfg d4 : Fields) (spot : Spot) (opts : List Json) : Fields :=
  set "Dhcp4" (modify spot.path (onContainer (putOptions opts)) (.obj d4)) cfg

/-- The list with the entry at the place, or at the end where there is none. -/
def replaced (opts : List Json) (entry : Json) : Option ℕ → List Json
  | some i => opts.set i entry
  | none => opts ++ [entry]

/-- `set_option4`. It raises where the options are no list. -/
def setOption4 (cfg : Fields) (level : Level) (code : ℤ) (name data : String) (csvFormat : Bool) :
    Option (Fields × OptionCode) :=
  if isManaged level code then some (cfg, .managed)
  else
    match lookup "Dhcp4" cfg with
    | some (.obj d4) => do
      match ← containerForLevel4 d4 level with
      | none => return (cfg, .notfound)
      | some spot =>
        match (lookup "option-data" (optionsHolder d4 spot)).getD (.arr []) with
        | .arr opts =>
          let idx ← matchOptionIndex opts code (some name)
          return (withOptions cfg d4 spot (replaced opts (optionEntry code name data csvFormat) idx), .ok)
        | _ => none
    | _ => some (cfg, .notfound)

/-- `remove_option4`. -/
def removeOption4 (cfg : Fields) (level : Level) (code : ℤ) : Option (Fields × OptionCode) :=
  if isManaged level code then some (cfg, .managed)
  else
    match lookup "Dhcp4" cfg with
    | some (.obj d4) => do
      match ← containerForLevel4 d4 level with
      | none => return (cfg, .notfound)
      | some spot =>
        match lookup "option-data" (optionsHolder d4 spot) with
        | some (.arr opts) =>
          match ← matchOptionIndex opts code none with
          | none => return (cfg, .notfound)
          | some i => return (withOptions cfg d4 spot (opts.eraseIdx i), .ok)
        | _ => return (cfg, .notfound)
    | _ => some (cfg, .notfound)

/-- An edit of one option. -/
inductive OptionEdit where
  | write (name data : String) (csvFormat : Bool)
  | remove

/-- What an edit returns. -/
def OptionEdit.run (edit : OptionEdit) (cfg : Fields) (level : Level) (code : ℤ) : Option (Fields × OptionCode) :=
  match edit with
  | .write name data csvFormat => setOption4 cfg level code name data csvFormat
  | .remove => removeOption4 cfg level code

/-! ## One option -/

/-- The entry is of the space of DHCP. -/
def inDhcp4 (o : Fields) : Bool := (valueOf "space" o).falsy || (valueOf "space" o).pyEq (.str "dhcp4")

/-- The entry is that of the option: it is of the space of DHCP, and has the code or the name that stands for
it. -/
def isOption (code : ℤ) : Json → Bool
  | .obj o => inDhcp4 o && carries code (.obj o)
  | _ => false

/-- The edit touches the entry of one option: the entry is added, replaced or removed, and what is written is the
only one of the option. -/
def OptionEdit.Touches (edit : OptionEdit) (code : ℤ) (opts opts' : List Json) : Prop :=
  match edit with
  | .write name data csvFormat =>
    let entry := optionEntry code name data csvFormat
    (opts' = opts ++ [entry] ∨ ∃ l o r, opts = l ++ o :: r ∧ isOption code o = true ∧ opts' = l ++ entry :: r) ∧
      opts'.filter (isOption code) = [entry]
  | .remove => ∃ l o r, opts = l ++ o :: r ∧ isOption code o = true ∧ opts' = l ++ r

/-- The option is the first with its code, in whatever space, and the only one in that of DHCP; where none has
the code, none has the name that is written. -/
def OptionEdit.Clear (edit : OptionEdit) (code : ℤ) (opts : List Json) : Prop :=
  match edit with
  | .write name _ _ =>
    match opts.find? (carries code) with
    | some o => isOption code o = true ∧ (opts.filter (isOption code)).length = 1
    | none => ∀ o ∈ opts, namedAs (.str name) o = false
  | .remove => ∀ o, opts.find? (carries code) = some o → isOption code o = true

section Lists

variable {code : ℤ} {name data : String} {csvFormat : Bool} {o : Json} {opts opts' l r : List Json}

theorem isOption_optionEntry : isOption code (optionEntry code name data csvFormat) = true := by
  have hcarries : carries code (optionEntry code name data csvFormat) = true := pyEq_self (.int code) trivial
  exact hcarries

theorem carries_of_isOption (h : isOption code o = true) : carries code o = true := by
  cases o with
  | obj c => exact (Bool.and_eq_true_iff.mp h).2
  | _ => cases h

theorem isOption_eq_false (h : carries code o = false) : isOption code o = false := by
  by_contra hoption
  rw [Bool.not_eq_false] at hoption
  rw [carries_of_isOption hoption] at h
  cases h

/-- An entry is the one that is looked for, or the search goes on. -/
theorem codeIndex_cons {found : Option ℕ} (h : codeIndex code (o :: opts) = some found) :
    carries code o = true ∧ found = some 0 ∨
      carries code o = false ∧ ∃ found', codeIndex code opts = some found' ∧ found = found'.map Nat.succ := by
  have hrest : ∀ b, (codeIndex code opts).map (Option.map Nat.succ) = some found → b = false →
      b = false ∧ ∃ found', codeIndex code opts = some found' ∧ found = found'.map Nat.succ := by
    intro b hmap hb
    obtain ⟨found', hfound', hmapped⟩ := Option.map_eq_some_iff.mp hmap
    exact ⟨hb, found', hfound', hmapped.symm⟩
  cases o with
  | obj fs =>
    obtain ⟨c, hc, h⟩ := Option.bind_eq_some_iff.mp h
    have hcarries : carries code (.obj fs) = c.pyEq (.int code) := by
      show (entryCode fs).any _ = _
      rw [hc]
      rfl
    rw [hcarries]
    by_cases heq : c.pyEq (.int code) = true
    · rw [if_pos heq] at h
      exact .inl ⟨heq, (Option.some.inj h).symm⟩
    · rw [if_neg heq] at h
      exact .inr (hrest _ h (Bool.not_eq_true _ ▸ heq))
  | null | bool _ | int _ | float _ | str _ | arr _ => exact .inr (hrest _ h rfl)

/-- An entry that is found is the first with the code. -/
theorem codeIndex_eq_some {i : ℕ} (h : codeIndex code opts = some (some i)) :
    ∃ l o r, opts = l ++ o :: r ∧ l.length = i ∧ carries code o = true ∧ ∀ x ∈ l, carries code x = false := by
  induction opts generalizing i with
  | nil => cases h
  | cons o opts ih =>
    rcases codeIndex_cons h with ⟨hcarries, hfound⟩ | ⟨hcarries, found', hrest, hfound⟩
    · rw [Option.some.inj hfound]
      exact ⟨[], o, opts, rfl, rfl, hcarries, fun x hx => absurd hx List.not_mem_nil⟩
    · obtain ⟨j, rfl, rfl⟩ := Option.map_eq_some_iff.mp hfound.symm
      obtain ⟨l, o', r, rfl, hlength, ho', hl⟩ := ih hrest
      refine ⟨o :: l, o', r, rfl, ?_, ho', List.forall_mem_cons.mpr ⟨hcarries, hl⟩⟩
      rw [List.length_cons, hlength]

theorem codeIndex_eq_none (h : codeIndex code opts = some none) : ∀ o ∈ opts, carries code o = false := by
  induction opts with
  | nil => exact fun _ ho => absurd ho List.not_mem_nil
  | cons o opts ih =>
    rcases codeIndex_cons h with ⟨-, hfound⟩ | ⟨hcarries, found', hrest, hfound⟩
    · cases hfound
    · rw [Option.map_eq_none_iff.mp hfound.symm] at hrest
      exact List.forall_mem_cons.mpr ⟨hcarries, ih hrest⟩

theorem find?_carries (hl : ∀ x ∈ l, carries code x = false) (ho : carries code o = true) :
    (l ++ o :: r).find? (carries code) = some o := by
  have hnone : l.find? (carries code) = none := by
    rw [List.find?_eq_none]
    exact fun x hx => by simp [hl x hx]
  rw [List.find?_append, hnone, Option.none_or, List.find?_cons_of_pos ho]

theorem filter_isOption (hl : ∀ x ∈ l, carries code x = false) : l.filter (isOption code) = [] := by
  rw [List.filter_eq_nil_iff]
  exact fun x hx => by simp [isOption_eq_false (hl x hx)]

/-- An edit of one option leaves all other entries, in their order. -/
theorem OptionEdit.Touches.others {edit : OptionEdit} (h : edit.Touches code opts opts') :
    (opts'.filter fun o => !isOption code o) = opts.filter fun o => !isOption code o := by
  cases edit with
  | write name data csvFormat =>
    have hentry : isOption code (optionEntry code name data csvFormat) = true := isOption_optionEntry
    rcases h.1 with rfl | ⟨l, o, r, rfl, ho, rfl⟩
    · simp [hentry]
    · simp [hentry, ho]
  | remove =>
    obtain ⟨l, o, r, rfl, ho, rfl⟩ := h
    simp [ho]

/-- What an edit writes over, or removes, is the entry of the option. -/
theorem OptionEdit.Touches.isOption_of_length {edit : OptionEdit}
    (h : edit.Touches code (l ++ o :: r) opts') (hopts : (opts'.filter fun o => !isOption code o).length ≤
      (l.filter fun o => !isOption code o).length + (r.filter fun o => !isOption code o).length) :
    isOption code o = true := by
  by_contra hother
  have hothers := congrArg List.length h.others
  rw [List.filter_append, List.filter_cons_of_pos (by simp [hother]), List.length_append, List.length_cons] at hothers
  omega

/-- A new entry in the place of another one. -/
theorem isOption_of_touches_write
    (h : (OptionEdit.write name data csvFormat).Touches code (l ++ o :: r)
      (l ++ optionEntry code name data csvFormat :: r)) : isOption code o = true := by
  refine h.isOption_of_length (le_of_eq ?_)
  rw [List.filter_append, List.filter_cons_of_neg (by simp [isOption_optionEntry]), List.length_append]

/-- A new entry in the place of the first one with the code. -/
theorem touches_write_iff (hl : ∀ x ∈ l, carries code x = false) :
    (OptionEdit.write name data csvFormat).Touches code (l ++ o :: r)
        (l ++ optionEntry code name data csvFormat :: r) ↔
      isOption code o = true ∧ ((l ++ o :: r).filter (isOption code)).length = 1 := by
  have hentry : isOption code (optionEntry code name data csvFormat) = true := isOption_optionEntry
  constructor
  · intro h
    have hoption := isOption_of_touches_write h
    have hfilter := congrArg List.length h.2
    rw [List.filter_append, filter_isOption hl, List.filter_cons_of_pos hentry] at hfilter
    rw [List.filter_append, filter_isOption hl, List.filter_cons_of_pos hoption]
    exact ⟨hoption, hfilter⟩
  · rintro ⟨hoption, hlength⟩
    rw [List.filter_append, filter_isOption hl, List.filter_cons_of_pos hoption] at hlength
    have hrest : r.filter (isOption code) = [] := List.length_eq_zero_iff.mp (Nat.succ.inj hlength)
    refine ⟨.inr ⟨l, o, r, rfl, hoption, rfl⟩, ?_⟩
    rw [List.filter_append, filter_isOption hl, List.filter_cons_of_pos hentry, hrest]
    rfl

theorem exists_of_findIdx? {p : Json → Bool} {i : ℕ} (h : opts.findIdx? p = some i) :
    ∃ l o r, opts = l ++ o :: r ∧ l.length = i ∧ p o = true := by
  obtain ⟨hi, ho, -⟩ := List.findIdx?_eq_some_iff_getElem.mp h
  refine ⟨opts.take i, opts[i], opts.drop (i + 1), ?_, ?_, ho⟩
  · rw [List.cons_getElem_drop_succ, List.take_append_drop]
  · exact List.length_take_of_le (by omega)

/-- A new entry in the place that is found, or at the end. -/
theorem touches_replaced_iff {idx : Option ℕ} (h : matchOptionIndex opts code (some name) = some idx) :
    (OptionEdit.write name data csvFormat).Touches code opts
        (replaced opts (optionEntry code name data csvFormat) idx) ↔
      (OptionEdit.write name data csvFormat).Clear code opts := by
  obtain ⟨found, hfound, hidx⟩ := Option.map_eq_some_iff.mp h
  cases found with
  | some j =>
    obtain ⟨l, o, r, rfl, rfl, ho, hl⟩ := codeIndex_eq_some hfound
    have hreplaced : replaced (l ++ o :: r) (optionEntry code name data csvFormat) idx =
        l ++ optionEntry code name data csvFormat :: r := by
      rw [← hidx]
      simp [replaced]
    unfold OptionEdit.Clear
    rw [hreplaced, find?_carries hl ho]
    exact touches_write_iff hl
  | none =>
    have hnone : ∀ o ∈ opts, carries code o = false := codeIndex_eq_none hfound
    have hfind : opts.find? (carries code) = none := by
      rw [List.find?_eq_none]
      exact fun x hx => by simp [hnone x hx]
    have hindex : opts.findIdx? (namedAs (.str name)) = idx := hidx
    unfold OptionEdit.Clear
    rw [hfind]
    cases idx with
    | some i =>
      -- an entry of the name has another code, or none
      obtain ⟨l, o, r, rfl, rfl, ho⟩ := exists_of_findIdx? hindex
      have hmem : o ∈ l ++ o :: r := List.mem_append_right l List.mem_cons_self
      have hreplaced : replaced (l ++ o :: r) (optionEntry code name data csvFormat) (some l.length) =
          l ++ optionEntry code name data csvFormat :: r := by simp [replaced]
      rw [hreplaced]
      constructor
      · intro htouches
        have hoption := isOption_eq_false (hnone o hmem)
        rw [isOption_of_touches_write htouches] at hoption
        cases hoption
      · intro hclear
        have hname := hclear o hmem
        rw [ho] at hname
        cases hname
    | none =>
      refine iff_of_true ⟨.inl rfl, ?_⟩ (List.findIdx?_eq_none_iff.mp hindex)
      show (opts ++ [_]).filter (isOption code) = _
      rw [List.filter_append, filter_isOption hnone, List.filter_cons_of_pos isOption_optionEntry]
      rfl

/-- The first entry with the code is removed. -/
theorem touches_eraseIdx_iff {i : ℕ} (h : matchOptionIndex opts code none = some (some i)) :
    OptionEdit.remove.Touches code opts (opts.eraseIdx i) ↔ OptionEdit.remove.Clear code opts := by
  obtain ⟨found, hfound, hidx⟩ := Option.map_eq_some_iff.mp h
  cases found with
  | none => cases hidx
  | some j =>
    rw [Option.some.inj hidx] at hfound
    obtain ⟨l, o, r, rfl, rfl, ho, hl⟩ := codeIndex_eq_some hfound
    have herase : (l ++ o :: r).eraseIdx l.length = l ++ r := by simp [List.eraseIdx_append_of_length_le]
    rw [herase]
    constructor
    · intro htouches o' ho'
      rw [find?_carries hl ho] at ho'
      rw [← Option.some.inj ho']
      refine htouches.isOption_of_length (le_of_eq ?_)
      rw [List.filter_append, List.length_append]
    · intro hclear
      exact ⟨l, o, r, rfl, hclear o (find?_carries hl ho), rfl⟩

end Lists

/-! ## The configuration -/

/-- The spot of the dictionary that is meant, where there is one. -/
def spotOf (cfg : Fields) (level : Level) : Option Spot :=
  match lookup "Dhcp4" cfg with
  | some (.obj d4) => (containerForLevel4 d4 level).join
  | _ => none

/-- The path of the dictionary at a spot. -/
def holderPath (spot : Spot) : Path := .key "Dhcp4" :: spot.path

/-- The path of the options at a spot. -/
def optionsPath (spot : Spot) : Path := holderPath spot ++ [.key "option-data"]

/-- The options at a spot, none where there is no list. -/
def optionsAt (cfg : Fields) (spot : Spot) : List Json :=
  match get (optionsPath spot) (.obj cfg) with
  | some (.arr opts) => opts
  | _ => []

/-- An edit touches the entry of one option: of the list at the spot no other entry, and beside the list nothing. -/
structure TouchesOne (edit : OptionEdit) (code : ℤ) (spot : Spot) (cfg cfg' : Fields) : Prop where
  entries : edit.Touches code (optionsAt cfg spot) (optionsAt cfg' spot)
  others : ∀ path, ¬ path <+: holderPath spot → ¬ optionsPath spot <+: path →
    get path (.obj cfg') = get path (.obj cfg)

section Configurations

variable {cfg cfg' d4 : Fields} {level : Level} {spot : Spot} {opts : List Json}

theorem onlyAt_putOptions : OnlyAt "option-data" (putOptions opts) where
  offWay := by decide
  others _ _ hj := lookup_set_ne (Ne.symm hj)

theorem obj_withOptions (hd4 : lookup "Dhcp4" cfg = some (.obj d4)) :
    Json.obj (withOptions cfg d4 spot opts) = modify (holderPath spot) (onContainer (putOptions opts)) (.obj cfg) := by
  have hchild : child (.key "Dhcp4") (.obj cfg) = some (.obj d4) := hd4
  unfold holderPath
  rw [modify_cons_of_child hchild]
  rfl

theorem exists_hasValueAt_of_findPlace {target : Target} {place : Place} (h : findPlace d4 target = some (some place)) :
    ∃ key v, hasValueAt d4 key v place = true := by
  cases target with
  | network name =>
    unfold findPlace at h
    dsimp only at h
    split_ifs at h with hiterable
    exact ⟨"name", name, List.find?_some (Option.some.inj h)⟩
  | subnet id => exact ⟨"id", id, List.find?_some (Option.some.inj h)⟩
  | pool id pool =>
    unfold findPlace at h
    dsimp only at h
    split at h
    · cases h
    · split_ifs at h with hiterable
      exact ⟨"pool", pool, List.find?_some (Option.some.inj h)⟩

/-- The dictionary that is meant is one. -/
theorem exists_get_of_containerForLevel4 (h : containerForLevel4 d4 level = some (some spot)) :
    ∃ c, get spot.path (.obj d4) = some (.obj c) := by
  have hplace : ∀ target place, findPlace d4 target = some (some place) →
      ∃ c, get place.path (.obj d4) = some (.obj c) := by
    intro target place hfind
    obtain ⟨key, v, hvalue⟩ := exists_hasValueAt_of_findPlace hfind
    unfold hasValueAt at hvalue
    cases hc : containerAt d4 place with
    | none =>
      rw [hc] at hvalue
      cases hvalue
    | some c => exact ⟨c, containerAt_eq_some.mp hc⟩
  cases level with
  | whole =>
    rw [← Option.some.inj (Option.some.inj h)]
    exact ⟨d4, rfl⟩
  | container target =>
    obtain ⟨found, hfound, hspot⟩ := Option.map_eq_some_iff.mp h
    obtain ⟨place, rfl, rfl⟩ := Option.map_eq_some_iff.mp hspot
    exact hplace target place hfound
  | clientClass name =>
    unfold containerForLevel4 at h
    dsimp only at h
    split_ifs at h with hiterable
    split at h
    · next classes hclasses =>
      obtain ⟨i, hi, rfl⟩ := Option.map_eq_some_iff.mp (Option.some.inj h)
      obtain ⟨l, v, r, rfl, rfl, hv⟩ := exists_of_findIdx? hi
      cases v with
      | obj c =>
        have hlookup : lookup "client-classes" d4 = some (.arr (l ++ .obj c :: r)) := by
          unfold valueOf at hclasses
          cases hv : lookup "client-classes" d4 with
          | none =>
            rw [hv] at hclasses
            cases hclasses
          | some v =>
            rw [hv] at hclasses
            exact congrArg some hclasses
        refine ⟨c, ?_⟩
        show (lookup "client-classes" d4).bind (get [.item l.length]) = _
        rw [hlookup, Option.bind_some]
        show ((l ++ .obj c :: r)[l.length]?).bind (get []) = _
        rw [List.getElem?_append_right (le_refl _), Nat.sub_self]
        rfl
      | null | bool _ | int _ | float _ | str _ | arr _ => cases hv
    · cases h

/-- The list of options is the one that was written. -/
theorem optionsAt_withOptions (hd4 : lookup "Dhcp4" cfg = some (.obj d4))
    (hspot : containerForLevel4 d4 level = some (some spot)) :
    optionsAt (withOptions cfg d4 spot opts) spot = opts := by
  obtain ⟨c, hc⟩ := exists_get_of_containerForLevel4 hspot
  have hholder : get (holderPath spot) (.obj cfg) = some (.obj c) := by
    show (lookup "Dhcp4" cfg).bind (get spot.path) = _
    rw [hd4]
    exact hc
  have habove : get (holderPath spot) (modify (holderPath spot ++ []) (onContainer (putOptions opts)) (.obj cfg)) =
      (get (holderPath spot) (.obj cfg)).map (modify [] (onContainer (putOptions opts))) := get_modify_above
  rw [List.append_nil, hholder] at habove
  unfold optionsAt optionsPath
  rw [obj_withOptions hd4, get_append, habove]
  show (match (lookup "option-data" (putOptions opts c)).bind (get []) with
    | some (.arr opts) => opts
    | _ => []) = opts
  unfold putOptions
  rw [lookup_set_self]
  rfl

/-- Beside the list nothing is written. -/
theorem get_withOptions (hd4 : lookup "Dhcp4" cfg = some (.obj d4)) {path : Path}
    (hway : ¬ path <+: holderPath spot) (hbelow : ¬ optionsPath spot <+: path) :
    get path (.obj (withOptions cfg d4 spot opts)) = get path (.obj cfg) := by
  rw [obj_withOptions hd4]
  exact get_modify_frame onlyAt_putOptions.onContainer hway hbelow

theorem spotOf_eq_some (hd4 : lookup "Dhcp4" cfg = some (.obj d4))
    (hspot : containerForLevel4 d4 level = some (some spot)) : spotOf cfg level = some spot := by
  unfold spotOf
  rw [hd4]
  exact congrArg Option.join hspot

theorem optionsAt_eq (hd4 : lookup "Dhcp4" cfg = some (.obj d4))
    (hspot : containerForLevel4 d4 level = some (some spot)) :
    optionsAt cfg spot = match lookup "option-data" (optionsHolder d4 spot) with
      | some (.arr opts) => opts
      | _ => [] := by
  obtain ⟨c, hc⟩ := exists_get_of_containerForLevel4 hspot
  have hget : get (optionsPath spot) (.obj cfg) = lookup "option-data" c := by
    unfold optionsPath
    rw [get_append]
    show ((lookup "Dhcp4" cfg).bind (get spot.path)).bind (get [.key "option-data"]) = _
    rw [hd4, Option.bind_some, hc]
    exact get_key "option-data" c
  unfold optionsAt optionsHolder
  rw [hget, hc]

/-- What a run that reports ok has found, and what it returns. -/
theorem exists_of_setOption4 {code : ℤ} {name data : String} {csvFormat : Bool}
    (h : setOption4 cfg level code name data csvFormat = some (cfg', .ok)) :
    ∃ d4 spot idx, lookup "Dhcp4" cfg = some (.obj d4) ∧ containerForLevel4 d4 level = some (some spot) ∧
      matchOptionIndex (optionsAt cfg spot) code (some name) = some idx ∧
      cfg' = withOptions cfg d4 spot (replaced (optionsAt cfg spot) (optionEntry code name data csvFormat) idx) := by
  unfold setOption4 at h
  split_ifs at h with hmanaged
  · cases h
  split at h
  · next d4 hd4 =>
    obtain ⟨found, hfound, h⟩ := Option.bind_eq_some_iff.mp h
    cases found with
    | none => cases h
    | some spot =>
      have hopts := optionsAt_eq hd4 hfound
      dsimp only at h
      split at h
      · next opts hlist =>
        obtain ⟨idx, hidx, h⟩ := Option.bind_eq_some_iff.mp h
        obtain rfl : optionsAt cfg spot = opts := by
          rw [hopts]
          cases hlookup : lookup "option-data" (optionsHolder d4 spot) with
          | none =>
            rw [hlookup] at hlist
            exact Json.arr.inj hlist
          | some v =>
            rw [hlookup] at hlist
            have hv : v = .arr opts := hlist
            rw [hv]
        exact ⟨d4, spot, idx, hd4, hfound, hidx, (Prod.mk.inj (Option.some.inj h)).1.symm⟩
      · cases h
  · cases h

theorem exists_of_removeOption4 {code : ℤ} (h : removeOption4 cfg level code = some (cfg', .ok)) :
    ∃ d4 spot i, lookup "Dhcp4" cfg = some (.obj d4) ∧ containerForLevel4 d4 level = some (some spot) ∧
      matchOptionIndex (optionsAt cfg spot) code none = some (some i) ∧
      cfg' = withOptions cfg d4 spot ((optionsAt cfg spot).eraseIdx i) := by
  unfold removeOption4 at h
  split_ifs at h with hmanaged
  · cases h
  split at h
  · next d4 hd4 =>
    obtain ⟨found, hfound, h⟩ := Option.bind_eq_some_iff.mp h
    cases found with
    | none => cases h
    | some spot =>
      have hopts := optionsAt_eq hd4 hfound
      dsimp only at h
      split at h
      · next opts hlist =>
        obtain rfl : optionsAt cfg spot = opts := by rw [hopts, hlist]
        obtain ⟨idx, hidx, h⟩ := Option.bind_eq_some_iff.mp h
        cases idx with
        | none => cases h
        | some i =>
          exact ⟨d4, spot, i, hd4, hfound, hidx, (Prod.mk.inj (Option.some.inj h)).1.symm⟩
      · cases h
  · cases h

theorem touchesOne_withOptions {edit : OptionEdit} {code : ℤ} (hd4 : lookup "Dhcp4" cfg = some (.obj d4))
    (hspot : containerForLevel4 d4 level = some (some spot)) :
    TouchesOne edit code spot cfg (withOptions cfg d4 spot opts) ↔ edit.Touches code (optionsAt cfg spot) opts := by
  have hentries : optionsAt (withOptions cfg d4 spot opts) spot = opts := optionsAt_withOptions hd4 hspot
  constructor
  · intro h
    have htouches := h.entries
    rw [hentries] at htouches
    exact htouches
  · intro h
    refine ⟨?_, fun path => get_withOptions hd4⟩
    rw [hentries]
    exact h

/-- An edit that reports ok touches the entry of one option just where the option is the first with its code. -/
theorem touchesOne_iff {edit : OptionEdit} {code : ℤ} (h : edit.run cfg level code = some (cfg', .ok)) :
    ∃ spot, spotOf cfg level = some spot ∧
      (TouchesOne edit code spot cfg cfg' ↔ edit.Clear code (optionsAt cfg spot)) := by
  cases edit with
  | write name data csvFormat =>
    obtain ⟨d4, spot, idx, hd4, hspot, hidx, rfl⟩ := exists_of_setOption4 h
    refine ⟨spot, spotOf_eq_some hd4 hspot, ?_⟩
    rw [touchesOne_withOptions hd4 hspot, touches_replaced_iff hidx]
  | remove =>
    obtain ⟨d4, spot, i, hd4, hspot, hidx, rfl⟩ := exists_of_removeOption4 h
    refine ⟨spot, spotOf_eq_some hd4 hspot, ?_⟩
    rw [touchesOne_withOptions hd4 hspot, touches_eraseIdx_iff hidx]

end Configurations

/-- A configuration whose options are one of DHCP, by its name, and one of a vendor with the code of another. -/
def vendorOptions : Fields :=
  [("Dhcp4", .obj [("option-data", .arr
    [.obj [("name", .str "ntp-servers"), ("data", .str "10.0.0.1")],
      .obj [("code", .int 6), ("space", .str "vendor-4491"), ("data", .str "0a000002")]])])]

/-- The option that is given by its name is removed, and no other one. -/
theorem remove_ntpServers :
    ∃ spot, spotOf vendorOptions .whole = some spot ∧ TouchesOne .remove 42 spot vendorOptions
      [("Dhcp4", .obj [("option-data", .arr
        [.obj [("code", .int 6), ("space", .str "vendor-4491"), ("data", .str "0a000002")]])])] := by
  have hrun : OptionEdit.remove.run vendorOptions .whole 42 = some ([("Dhcp4", .obj [("option-data", .arr
      [.obj [("code", .int 6), ("space", .str "vendor-4491"), ("data", .str "0a000002")]])])], .ok) := by
    decide
  obtain ⟨spot, hspot, hiff⟩ := touchesOne_iff hrun
  obtain rfl : spot = .whole := (Option.some.inj hspot).symm
  refine ⟨.whole, hspot, hiff.mpr fun o ho => ?_⟩
  have hfirst : (optionsAt vendorOptions .whole).find? (carries 42) =
      some (.obj [("name", .str "ntp-servers"), ("data", .str "10.0.0.1")]) := by decide
  rw [hfirst] at ho
  rw [← Option.some.inj ho]
  decide

theorem vendorOptions_overwritten :
    (OptionEdit.write "domain-name-servers" "10.0.0.53" true).run vendorOptions .whole 6 =
      some ([("Dhcp4", .obj [("option-data", .arr [.obj [("name", .str "ntp-servers"), ("data", .str "10.0.0.1")],
        optionEntry 6 "domain-name-servers" "10.0.0.53" true])])], .ok) := by
  decide

/-- The option of the vendor is taken for that of DHCP with the same code, and overwritten. -/
theorem vendorOption_lost :
    ¬ ∀ (cfg cfg' : Fields) (edit : OptionEdit) (level : Level) (code : ℤ),
      edit.run cfg level code = some (cfg', .ok) →
        ∃ spot, spotOf cfg level = some spot ∧ TouchesOne edit code spot cfg cfg' := by
  intro h
  obtain ⟨spot, hspot, htouches⟩ := h _ _ _ _ _ vendorOptions_overwritten
  obtain rfl : spot = .whole := (Option.some.inj hspot).symm
  have hothers := congrArg List.length htouches.entries.others
  revert hothers
  decide

end JenKea.Edit
