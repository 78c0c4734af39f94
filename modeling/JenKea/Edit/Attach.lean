import JenKea.Edit.Containers

/-!
# Attaching a class

`attach_class4` of `jen/services/kea_config_edit.py`. What a container holds is read under both spellings, and
one of them is written: the classes of the other one are left where they are, hidden behind a list in the new
spelling, and come to light again when the list is emptied. In the old spelling a guard is one text, which the
next one takes the place of.
-/

namespace JenKea.Edit

open Json Import

/-- How a class is attached. -/
inductive Mode where
  | guard
  | additional
  deriving DecidableEq

/-- The key that is written. -/
def writtenKey : Mode → Bool → String
  | .guard, true => newGuard
  | .guard, false => oldGuard
  | .additional, true => newAdditional
  | .additional, false => oldAdditional

/-- `guard_classes` and `additional_classes`. -/
def readClasses : Mode → Fields → List String
  | .guard, c => guardClasses c
  | .additional, c => additionalClasses c

/-- `[c for c in (v or []) if isinstance(c, str)]`: the texts of a list, the keys of a dictionary, or the
characters of a text. It raises where the value is none of them. -/
def texts (v : Json) : Option (List String) :=
  if v.falsy then some []
  else
    match v with
    | .arr xs => some (strings xs)
    | .obj fs => some (fs.map Prod.fst)
    | .str s => some (s.toList.map String.singleton)
    | _ => none

/-- The list with the class, or without it. -/
def edited (attach : Bool) (name : String) (lst : List String) : List String :=
  if attach then if name ∈ lst then lst else lst ++ [name] else lst.filter (· ≠ name)

/-- A list under a key. An empty one is no key at all. -/
def putList (key : String) (lst : List String) (c : Fields) : Fields :=
  if lst = [] then pop key c else set key (.arr (lst.map .str)) c

/-- A guard in the old spelling. -/
def writeOldGuard (attach : Bool) (name : String) (c : Fields) : Fields :=
  if attach then set oldGuard (.str name) c
  else if (valueOf oldGuard c).pyEq (.str name) then pop oldGuard c
  else c

/-- What is written into the container. -/
def write (mode : Mode) (new attach : Bool) (name : String) (c : Fields) : Option Fields :=
  if mode = .guard ∧ new = false then some (writeOldGuard attach name c)
  else
    (texts (valueOf (writtenKey mode new) c)).map fun lst =>
      putList (writtenKey mode new) (edited attach name lst) c

/-- The section with what is written into the container at a place. -/
def written (d4 : Fields) (place : Place) (mode : Mode) (new attach : Bool) (name : String) : Fields :=
  changeAt d4 place fun c => (write mode new attach name c).getD c

/-- The change of a section: none where nothing is found. It raises where something that is gone through is no
list. -/
def attachAt (d4 : Fields) (name : String) (target : Target) (mode : Mode) (attach : Bool)
    (version : Option (ℕ × ℕ × ℕ)) : Option (Option Fields) := do
  match ← findPlace d4 target with
  | none => return none
  | some place =>
    let new ← usesNew d4 version
    let c ← containerAt d4 place
    let _ ← write mode new attach name c
    return some (written d4 place mode new attach name)

/-- `attach_class4`. -/
def attachClass4 (cfg : Fields) (name : String) (target : Target) (mode : Mode) (attach : Bool)
    (version : Option (ℕ × ℕ × ℕ)) : Option (Fields × ClassCode) :=
  match lookup "Dhcp4" cfg with
  | some (.obj d4) => (attachAt d4 name target mode attach version).map fun changed =>
      changed.elim (cfg, .notfound) fun d4' => (set "Dhcp4" (.obj d4') cfg, .ok)
  | _ => some (cfg, .notfound)

/-! ## What is written, and what is read -/

section Container

variable {mode : Mode} {new attach : Bool} {name key : String} {c : Fields} {lst : List String}

theorem strings_map_str (lst : List String) : strings (lst.map .str) = lst := by
  induction lst with
  | nil => rfl
  | cons s lst ih => exact congrArg (s :: ·) ih

theorem texts_map_str : texts (.arr (lst.map .str)) = some lst := by
  unfold texts
  split_ifs with hfalsy
  · have hnil : lst = [] := by simpa [falsy] using hfalsy
    rw [hnil]
  · exact congrArg some (strings_map_str lst)

theorem lookup_write {k : String} (hk : k ≠ writtenKey mode new) :
    lookup k ((write mode new attach name c).getD c) = lookup k c := by
  unfold write
  by_cases hold : mode = .guard ∧ new = false
  · rw [if_pos hold]
    obtain ⟨rfl, rfl⟩ := hold
    unfold writeOldGuard
    show lookup k (if attach then _ else _) = _
    split_ifs
    · exact lookup_set_ne (Ne.symm hk)
    · show lookup k (pop oldGuard c) = _
      rw [lookup_pop]
      exact if_neg (Ne.symm hk)
    · rfl
  · rw [if_neg hold]
    cases texts (valueOf (writtenKey mode new) c) with
    | none => rfl
    | some lst =>
      show lookup k (putList _ _ c) = _
      unfold putList
      split_ifs
      · rw [lookup_pop, if_neg (Ne.symm hk)]
      · exact lookup_set_ne (Ne.symm hk)

theorem onlyAt_write : OnlyAt (writtenKey mode new) fun c => (write mode new attach name c).getD c where
  offWay := by cases mode <;> cases new <;> decide
  others _ _ hj := lookup_write hj

/-- The container holds nothing in the spelling that is not written, where the old one is. -/
def OneSpelling (mode : Mode) (new : Bool) (c : Fields) : Prop :=
  new = false → lookup (writtenKey mode true) c = none

theorem lookup_set_writtenKey (mode : Mode) {v : Json} (h : lookup (writtenKey mode true) c = none) :
    lookup (writtenKey mode true) (set (writtenKey mode false) v c) = none := by
  rw [lookup_set_ne (by cases mode <;> decide), h]

/-- A list that was written is read. -/
theorem readClasses_set (hlist : ¬ (mode = .guard ∧ new = false)) (hone : OneSpelling mode new c) :
    readClasses mode (set (writtenKey mode new) (.arr (lst.map .str)) c) = lst := by
  cases mode with
  | guard =>
    have hnew : new = true := by
      cases new with
      | true => rfl
      | false => exact absurd ⟨rfl, rfl⟩ hlist
    subst hnew
    show guardClasses (set newGuard _ c) = lst
    unfold guardClasses
    rw [lookup_set_self]
    exact strings_map_str lst
  | additional =>
    cases new with
    | true =>
      show additionalClasses (set newAdditional _ c) = lst
      unfold additionalClasses firstList
      rw [List.findSome?_cons, lookup_set_self]
      exact strings_map_str lst
    | false =>
      have hnone : lookup newAdditional (set oldAdditional (.arr (lst.map .str)) c) = none :=
        lookup_set_writtenKey .additional (hone rfl)
      show additionalClasses (set oldAdditional _ c) = lst
      unfold additionalClasses firstList
      rw [List.findSome?_cons, hnone, List.findSome?_cons, lookup_set_self]
      exact strings_map_str lst

/-- The guards of a container that has none in the new spelling. -/
theorem guardClasses_of_old (hnone : lookup newGuard c = none) :
    guardClasses c = match lookup oldGuard c with
      | some (.str s) => [s]
      | _ => [] := by
  unfold guardClasses
  exact hnone ▸ rfl

theorem guardClasses_set_old (hnone : lookup newGuard c = none) :
    guardClasses (set oldGuard (.str name) c) = [name] := by
  have hset : lookup newGuard (set oldGuard (.str name) c) = none := by
    rw [lookup_set_ne (by decide), hnone]
  rw [guardClasses_of_old hset, lookup_set_self]

theorem guardClasses_pop_old (hnone : lookup newGuard c = none) : guardClasses (pop oldGuard c) = [] := by
  have hpop : lookup newGuard (pop oldGuard c) = none := by
    rw [lookup_pop, if_neg (by decide), hnone]
  rw [guardClasses_of_old hpop, lookup_pop, if_pos rfl]

/-! ## The changes of one container -/

/-- The classes of a container are these. -/
def Holds (mode : Mode) (c : Fields) (classes : String → Prop) : Prop := ∀ n, n ∈ readClasses mode c ↔ classes n

/-- Attaching adds the class and detaching takes it out, and detaching undoes the attaching of a class that was
not there. -/
structure Exact (mode : Mode) (new : Bool) (name : String) (c : Fields) : Prop where
  attached : ∃ c', write mode new true name c = some c' ∧
    Holds mode c' (fun n => n ∈ readClasses mode c ∨ n = name) ∧
    (name ∉ readClasses mode c →
      ∃ c'', write mode new false name c' = some c'' ∧ Holds mode c'' (· ∈ readClasses mode c))
  detached : ∃ c', write mode new false name c = some c' ∧
    Holds mode c' fun n => n ∈ readClasses mode c ∧ n ≠ name

/-- What stands under the key that is written is, but for the class itself, what is read, and when it is taken
out nothing else comes to light. A guard in the old spelling is one text: there is no other one. -/
def Agrees (mode : Mode) (new : Bool) (name : String) (c : Fields) : Prop :=
  if mode = .guard ∧ new = false then ∀ n ∈ guardClasses c, n = name
  else ∃ lst, texts (valueOf (writtenKey mode new) c) = some lst ∧
    (∀ n, n ≠ name → (n ∈ lst ↔ n ∈ readClasses mode c)) ∧
    ((∀ n ∈ lst, n = name) → readClasses mode (pop (writtenKey mode new) c) = [])

/-- A guard in the old spelling. -/
theorem exact_old (hnone : lookup newGuard c = none) :
    Exact .guard false name c ↔ ∀ n ∈ guardClasses c, n = name := by
  have hset : guardClasses (set oldGuard (.str name) c) = [name] := guardClasses_set_old hnone
  have hpop : guardClasses (pop oldGuard c) = [] := guardClasses_pop_old hnone
  constructor
  · intro h n hn
    obtain ⟨c', hc', hholds, -⟩ := h.attached
    obtain rfl : set oldGuard (.str name) c = c' := Option.some.inj hc'
    have hmem : n ∈ guardClasses (set oldGuard (.str name) c) := (hholds n).mpr (Or.inl hn)
    rw [hset] at hmem
    exact List.mem_singleton.mp hmem
  · intro h
    constructor
    · refine ⟨set oldGuard (.str name) c, rfl, ?_, ?_⟩
      · intro n
        show n ∈ guardClasses _ ↔ n ∈ guardClasses c ∨ n = name
        rw [hset, List.mem_singleton]
        exact ⟨Or.inr, fun hn => hn.elim (h n) id⟩
      · intro hname
        -- the text is the class: it is taken out
        refine ⟨pop oldGuard (set oldGuard (.str name) c), ?_, ?_⟩
        · have hself : (valueOf oldGuard (set oldGuard (.str name) c)).pyEq (.str name) = true := by
            unfold valueOf
            rw [lookup_set_self]
            exact beq_self_eq_true name
          exact congrArg some (if_pos hself)
        · intro n
          show n ∈ guardClasses _ ↔ n ∈ guardClasses c
          rw [pop_set_self, hpop]
          exact ⟨fun hn => absurd hn List.not_mem_nil, fun hn => absurd (h n hn ▸ hn) hname⟩
    · by_cases hself : (valueOf oldGuard c).pyEq (.str name) = true
      · refine ⟨pop oldGuard c, congrArg some (if_pos hself), fun n => ?_⟩
        show n ∈ guardClasses _ ↔ n ∈ guardClasses c ∧ n ≠ name
        rw [hpop]
        exact ⟨fun hn => absurd hn List.not_mem_nil, fun ⟨hn, hne⟩ => absurd (h n hn) hne⟩
      · refine ⟨c, congrArg some (if_neg hself), fun n => ?_⟩
        show n ∈ guardClasses c ↔ n ∈ guardClasses c ∧ n ≠ name
        refine ⟨fun hn => ⟨hn, ?_⟩, And.left⟩
        -- a guard that is the class would be the text
        rintro rfl
        rw [guardClasses_of_old hnone] at hn
        unfold valueOf at hself
        cases hlookup : lookup oldGuard c with
        | none =>
          rw [hlookup] at hn
          cases hn
        | some v =>
          rw [hlookup] at hn hself
          cases v with
          | str s =>
            obtain rfl : n = s := List.mem_singleton.mp hn
            exact hself (beq_self_eq_true n)
          | _ => cases hn

/-! ### Lists -/

theorem mem_edited {n : String} :
    n ∈ edited attach name lst ↔ if attach then n ∈ lst ∨ n = name else n ∈ lst ∧ n ≠ name := by
  unfold edited
  cases attach with
  | true =>
    show n ∈ (if name ∈ lst then lst else lst ++ [name]) ↔ n ∈ lst ∨ n = name
    split_ifs with hname
    · exact ⟨Or.inl, fun h => h.elim id fun hn => hn ▸ hname⟩
    · rw [List.mem_append, List.mem_singleton]
  | false =>
    show n ∈ lst.filter (· ≠ name) ↔ n ∈ lst ∧ n ≠ name
    rw [List.mem_filter, decide_eq_true_eq]

theorem edited_attach_ne_nil : edited true name lst ≠ [] :=
  List.ne_nil_of_mem (mem_edited.mpr (Or.inr rfl))

/-- Without the class, a list is the one that the class was added to, without it. -/
theorem edited_edited : edited false name (edited true name lst) = edited false name lst := by
  have hattach : edited true name lst = if name ∈ lst then lst else lst ++ [name] := rfl
  rw [hattach]
  split_ifs
  · rfl
  · show (lst ++ [name]).filter (· ≠ name) = lst.filter (· ≠ name)
    rw [List.filter_append]
    simp

theorem write_list (hlist : ¬ (mode = .guard ∧ new = false)) (htexts : texts (valueOf key c) = some lst)
    (hkey : writtenKey mode new = key) :
    write mode new attach name c = some (putList key (edited attach name lst) c) := by
  unfold write
  rw [if_neg hlist, hkey, htexts]
  rfl

/-- What is read of a list that was written. -/
theorem readClasses_putList (hlist : ¬ (mode = .guard ∧ new = false)) (hone : OneSpelling mode new c) :
    readClasses mode (putList (writtenKey mode new) lst c) =
      if lst = [] then readClasses mode (pop (writtenKey mode new) c) else lst := by
  unfold putList
  split_ifs with hnil
  · rfl
  · exact readClasses_set hlist hone

theorem putList_putList (hne : lst ≠ []) {lst' : List String} :
    putList key lst' (putList key lst c) = putList key lst' c := by
  have hset : putList key lst c = set key (.arr (lst.map .str)) c := if_neg hne
  rw [hset]
  unfold putList
  split_ifs
  · exact pop_set_self
  · exact set_set

theorem texts_putList (hne : lst ≠ []) : texts (valueOf key (putList key lst c)) = some lst := by
  have hset : putList key lst c = set key (.arr (lst.map .str)) c := if_neg hne
  have hvalue : valueOf key (set key (.arr (lst.map .str)) c) = .arr (lst.map .str) := by
    unfold valueOf
    rw [lookup_set_self]
    rfl
  rw [hset, hvalue, texts_map_str]

/-- Without the class, the list is what is read without it, if the list and what comes to light agree with
what was read. -/
theorem holds_detached (hlist : ¬ (mode = .guard ∧ new = false)) (hone : OneSpelling mode new c)
    (hsame : ∀ n, n ≠ name → (n ∈ lst ↔ n ∈ readClasses mode c))
    (hrest : (∀ n ∈ lst, n = name) → readClasses mode (pop (writtenKey mode new) c) = []) :
    Holds mode (putList (writtenKey mode new) (edited false name lst) c)
      fun n => n ∈ readClasses mode c ∧ n ≠ name := by
  have hmem : ∀ n, n ∈ edited false name lst ↔ n ∈ readClasses mode c ∧ n ≠ name := fun n =>
    calc n ∈ edited false name lst ↔ n ∈ lst ∧ n ≠ name := mem_edited
      _ ↔ n ∈ readClasses mode c ∧ n ≠ name := and_congr_left fun hne => hsame n hne
  intro n
  rw [readClasses_putList hlist hone]
  split_ifs with hnil
  · have hall : ∀ m ∈ lst, m = name := by
      intro m hm
      by_contra hne
      have hedited : m ∈ edited false name lst := mem_edited.mpr ⟨hm, hne⟩
      rw [hnil] at hedited
      exact List.not_mem_nil hedited
    rw [hrest hall, ← hnil]
    exact hmem n
  · exact hmem n

/-- A list, in either spelling. -/
theorem exact_list (hlist : ¬ (mode = .guard ∧ new = false)) (hone : OneSpelling mode new c) :
    Exact mode new name c ↔ ∃ lst, texts (valueOf (writtenKey mode new) c) = some lst ∧
      (∀ n, n ≠ name → (n ∈ lst ↔ n ∈ readClasses mode c)) ∧
      ((∀ n ∈ lst, n = name) → readClasses mode (pop (writtenKey mode new) c) = []) := by
  have hread : ∀ lst, lst ≠ [] → readClasses mode (putList (writtenKey mode new) lst c) = lst := by
    intro lst hne
    rw [readClasses_putList hlist hone, if_neg hne]
  constructor
  · rintro ⟨⟨c', hc', hattached, -⟩, c'', hc'', hdetached⟩
    cases htexts : texts (valueOf (writtenKey mode new) c) with
    | none =>
      have hraise : write mode new true name c = none := by
        unfold write
        rw [if_neg hlist, htexts]
        rfl
      rw [hraise] at hc'
      cases hc'
    | some lst =>
      rw [write_list hlist htexts rfl] at hc' hc''
      obtain rfl := Option.some.inj hc'
      obtain rfl := Option.some.inj hc''
      refine ⟨lst, rfl, ?_, ?_⟩
      · intro n hne
        have hn := hattached n
        rw [hread _ edited_attach_ne_nil, mem_edited] at hn
        constructor
        · exact fun hmem => (hn.mp (Or.inl hmem)).resolve_right hne
        · exact fun hmem => (hn.mpr (Or.inl hmem)).resolve_right hne
      · intro hall
        have hnil : edited false name lst = [] := by
          refine List.eq_nil_iff_forall_not_mem.mpr fun n hn => ?_
          obtain ⟨hmem, hne⟩ := mem_edited.mp hn
          exact hne (hall n hmem)
        refine List.eq_nil_iff_forall_not_mem.mpr fun n hn => ?_
        -- what comes to light would be a class that was read, and so one of the list
        have hdetachedn := hdetached n
        rw [readClasses_putList hlist hone, if_pos hnil] at hdetachedn
        obtain ⟨hmem, hne⟩ := hdetachedn.mp hn
        have hattachedn := hattached n
        rw [hread _ edited_attach_ne_nil, mem_edited] at hattachedn
        exact hne (((hattachedn.mpr (Or.inl hmem)).resolve_right hne |> hall n))
  · rintro ⟨lst, htexts, hsame, hrest⟩
    constructor
    · refine ⟨_, write_list hlist htexts rfl, ?_, ?_⟩
      · intro n
        rw [hread _ edited_attach_ne_nil, mem_edited, if_pos rfl]
        by_cases hne : n = name
        · exact iff_of_true (Or.inr hne) (Or.inr hne)
        · rw [hsame n hne]
      · intro hname
        have htexts' : texts (valueOf (writtenKey mode new)
            (putList (writtenKey mode new) (edited true name lst) c)) = some (edited true name lst) :=
          texts_putList edited_attach_ne_nil
        refine ⟨_, write_list hlist htexts' rfl, ?_⟩
        rw [putList_putList edited_attach_ne_nil, edited_edited]
        intro n
        rw [holds_detached hlist hone hsame hrest n]
        exact ⟨And.left, fun hn => ⟨hn, fun h => hname (h ▸ hn)⟩⟩
    · exact ⟨_, write_list hlist htexts rfl, holds_detached hlist hone hsame hrest⟩

/-- Attaching and detaching are exact on a container when the two spellings agree. -/
theorem exact_iff_agrees (hone : OneSpelling mode new c) : Exact mode new name c ↔ Agrees mode new name c := by
  unfold Agrees
  split_ifs with hold
  · obtain ⟨rfl, rfl⟩ := hold
    exact exact_old (hone rfl)
  · exact exact_list hold hone

end Container

end JenKea.Edit
