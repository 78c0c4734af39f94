import Std.Data.String.ToNat
import JenKea.Credentials.Move

/-!
# The one-time conversion of the credentials

What Jen does at its start to a configuration file that has no marker of the credential model: every endpoint
that inherited its parent's password across hosts gets a copy of it, and the marker is written with the
copies in one write.
-/

namespace JenKea.Credentials

/-! ## The marker -/

/-- `model_marker`. -/
inductive Marker
  | absent | explicit | invalid
  deriving DecidableEq

/-- `model_marker`. -/
def modelMarker (p : Ini) : Marker :=
  if has p "jen" "credential_model" then
    if Text.strip (get p "jen" "credential_model" "") = "explicit" then .explicit else .invalid
  else .absent

/-! ## Blanks of old -/

/-- `LEGACY_BLANK_KEYS`. -/
def legacyBlankKeys : List String := ["api6_pass", "api_d2_pass"]

/-- An option that said "inherit" in a file of old. -/
def isLegacyBlank (sec key value : String) : Bool :=
  isServerSection sec && decide (key ∈ legacyBlankKeys) && value = ""

/-- `parser.items(section)`: the section's own options over those of the default section. -/
def items (p : Ini) (options : Map String String) : Map String String := p.defaults.putAll options.entries

/-- `_without_legacy_blanks`. -/
def withoutLegacyBlanks (p : Ini) : Ini :=
  { defaults := .empty
    sections := p.sections.mapEntries fun sec options =>
      .ofList ((items p options).entries.filter fun x => !isLegacyBlank sec x.1 x.2) }

/-- The configuration as it is read in a file of old, or as it stands. -/
def view (legacy : Bool) (p : Ini) : Ini := if legacy then withoutLegacyBlanks p else p

section Convert

variable (place : String → Option String)

/-- `pending_conversions`. -/
def pendingConversions (p : Ini) (legacy : Bool) : List Name :=
  ((resolve place (view legacy p)).entries.filter fun x =>
    x.2.withheld.isSome ∧ x.2.url ≠ "" ∧ x.1 ≠ .kea).map Prod.fst

/-- The parent's password in an endpoint's own key, with the mark of a copy, and the parent's user. -/
def copyInto (p : Ini) (name : Name) (parent : Endpoint) : Ini :=
  let (sec, option) := passwordKey name
  let (userSec, userOption) := userKey name
  let p := set (set p sec option parent.password) sec (option ++ "_shared") "1"
  if parent.user ≠ "" ∧ has p userSec userOption = false then set p userSec userOption parent.user else p

/-- One name of a batch. -/
def convert (legacy : Bool) (res : Map Name Endpoint) (s : Ini × List Name) (name : Name) :
    Ini × List Name :=
  match ((res.get name).bind Endpoint.withheld).bind res.get with
  | none => s
  | some parent =>
    let (sec, option) := passwordKey name
    let blankLegacy := legacy && has s.1 sec option && isLegacyBlank sec option (get s.1 sec option "")
    if parent.password = "" then s
    else if (s.1.sections.get sec).isSome ∧ (has s.1 sec option = false ∨ blankLegacy) then
      (copyInto s.1 name parent, s.2 ++ [name])
    else s

/-- One round: the endpoints that are pending, and not done. -/
def round (legacy : Bool) (s : Ini × List Name) : Ini × List Name :=
  ((pendingConversions place s.1 legacy).filter fun name => name ∉ s.2).foldl
    (convert legacy (resolve place (view legacy s.1))) s

/-- `for _ in range(k)`, until nothing is pending. -/
def rounds (legacy : Bool) : ℕ → Ini × List Name → Ini × List Name
  | 0, s => s
  | k + 1, s =>
    if (pendingConversions place s.1 legacy).filter (fun name => name ∉ s.2) = [] then s
    else rounds legacy k (round place legacy s)

/-- The marker, in a section of its own where there is none. -/
def mark (p : Ini) : Ini := set (ensure p "jen") "jen" "credential_model" "explicit"

/-- `_apply`: the configuration with the marker and the copies, and the names of the endpoints that got one. -/
def applied (alreadyConverted : Bool) (p : Ini) : Ini × List Name :=
  if modelMarker p ≠ .absent then (p, [])
  else if alreadyConverted ∧ pendingConversions place (mark p) false = [] then (mark p, [])
  else rounds place (!alreadyConverted) 3 (mark p, [])

-- the guards that are registered for a change of where Jen reaches Kea and the databases
variable (checkIdentity : Ini → Ini → Option String)

/-- `materialize`: the file after it, and the names converted, or nothing where it did not run. -/
def materialize (alreadyConverted : Bool) (file : String) : String × Option (List Name) :=
  match Ini.read file with
  | none => (file, none)
  | some probe =>
    match modelMarker probe with
    | .explicit => (file, some [])
    | .invalid => (file, none)
    | .absent =>
      match writeParser place checkIdentity file (applied place alreadyConverted probe).1
          (names probe) with
      | .error _ => (file, none)
      | .ok file' => (file', some (applied place alreadyConverted probe).2)

/-! ## The old reading -/

/-- The password that stands in an endpoint's own key; in a file of old, a blank one of a server's IPv6 or D2
daemon does not count. -/
def formerOwn (legacy : Bool) (p : Ini) (name : Name) : Option String :=
  if legacy ∧ (passwordKey name).2 ∈ legacyBlankKeys ∧ ownPassword p name = some "" then none
  else ownPassword p name

/-- The old reading of an endpoint that inherits from nobody. -/
def formerRoot (legacy : Bool) (p : Ini) (name : Name) : String := (formerOwn legacy p name).getD ""

/-- The old reading of a server. -/
def formerServer (legacy : Bool) (p : Ini) (n : ℕ) : String :=
  (formerOwn legacy p (.server n)).getD (formerRoot legacy p .kea)

/-- The old reading: an endpoint's own password, else its parent's, whatever the host. -/
def former (legacy : Bool) (p : Ini) : Name → String
  | .kea => formerRoot legacy p .kea
  | .keaDb => formerRoot legacy p .keaDb
  | .jenDb => formerRoot legacy p .jenDb
  | .kea6 => (formerOwn legacy p .kea6).getD (formerRoot legacy p .kea)
  | .d2 => (formerOwn legacy p .d2).getD (formerRoot legacy p .kea)
  | .kea6Db => (formerOwn legacy p .kea6Db).getD (formerRoot legacy p .keaDb)
  | .server n => formerServer legacy p n
  | .serverV6 n => (formerOwn legacy p (.serverV6 n)).getD (formerServer legacy p n)
  | .serverD2 n => (formerOwn legacy p (.serverD2 n)).getD (formerServer legacy p n)

/-- After the conversion every endpoint that has an address is sent what it was sent under the old reading. -/
def Preserves (p p' : Ini) : Prop :=
  ∀ x ∈ (resolve place p').entries, x.2.url ≠ "" → x.2.password = former true p x.1

/-- An endpoint loses its password in the conversion. -/
def Loses (legacy : Bool) (p : Ini) (name : Name) : Prop :=
  (endpoint place p name).url ≠ "" ∧ formerOwn legacy p name = none ∧ former legacy p name ≠ "" ∧
    match name with
    | .kea6 | .d2 => (p.sections.get (passwordKey name).1).isSome = false ∧
        sameHost place (endpoint place p .kea).url (endpoint place p name).url = false
    | .kea6Db => (p.sections.get (passwordKey name).1).isSome = false ∧
        sameHost place (endpoint place p .keaDb).url (endpoint place p name).url = false
    | .serverV6 n | .serverD2 n =>
      (ownPassword p (.server n) = none ∧ (endpoint place p (.server n)).url = "") ∨
        (ownPassword p name = some "" ∧
          sameHost place (endpoint place p (.server n)).url (endpoint place p name).url = true)
    | _ => False

end Convert

/-! ## The view of a file of old -/

section View

variable {place : String → Option String} {legacy : Bool} {p : Ini} {sec key fallback : String}

/-- The value of a key that is there. -/
def value (p : Ini) (sec key : String) : Option String :=
  (p.sections.get sec).bind fun options => (options.get key).or (p.defaults.get key)

theorem has_eq_value : has p sec key = (value p sec key).isSome := by
  unfold has value
  cases p.sections.get sec with
  | none => rfl
  | some options => simp [Option.isSome_or]

theorem get_eq_value : get p sec key fallback = (value p sec key).getD fallback := rfl

theorem value_withoutLegacyBlanks : value (withoutLegacyBlanks p) sec key =
    (value p sec key).filter fun v => !isLegacyBlank sec key v := by
  unfold value withoutLegacyBlanks
  dsimp only
  rw [Map.get_mapEntries]
  cases p.sections.get sec with
  | none => rfl
  | some options =>
    rw [Option.map_some, Option.bind_some, Option.bind_some, Map.get_empty, Option.or_none]
    have hitems : (items p options).get key = (options.get key).or (p.defaults.get key) :=
      Map.get_putAll_entries
    rw [← hitems]
    have hnodup : (((items p options).entries.filter fun x => !isLegacyBlank sec x.1 x.2).map
        Prod.fst).Nodup := (items p options).nodup.sublist (List.filter_sublist.map _)
    ext v
    rw [Map.get_ofList hnodup, List.mem_filter, Map.mem_entries, Option.filter_eq_some_iff]

theorem value_view : value (view legacy p) sec key =
    (value p sec key).filter fun v => !(legacy && isLegacyBlank sec key v) := by
  unfold view
  cases legacy with
  | true => rw [if_pos rfl, value_withoutLegacyBlanks]; rfl
  | false =>
    rw [if_neg Bool.false_ne_true]
    cases value p sec key <;> rfl

/-- A key that said nothing of the kind reads as it stands. -/
theorem value_view_of_notMem (h : key ∉ legacyBlankKeys) :
    value (view legacy p) sec key = value p sec key := by
  rw [value_view]
  have hnot : ∀ v, isLegacyBlank sec key v = false := by
    intro v
    unfold isLegacyBlank
    rw [decide_eq_false h, Bool.and_false, Bool.false_and]
  cases value p sec key with
  | none => rfl
  | some v => simp [hnot]

theorem isSome_sections_view {s : String} :
    ((view legacy p).sections.get s).isSome = (p.sections.get s).isSome := by
  unfold view withoutLegacyBlanks
  split_ifs
  · dsimp only
    rw [Map.get_mapEntries, Option.isSome_map]
  · rfl

theorem sameAddresses_view : SameAddresses p (view legacy p) := by
  have hnot : ∀ key ∈ addressKeys, key ∉ legacyBlankKeys := by
    simp [addressKeys, legacyBlankKeys]
  refine ⟨?_, fun sec _ key hkey => ?_, fun sec _ key hkey fallback => ?_⟩
  · have hkeys : (view legacy p).sections.keys = p.sections.keys := by
      unfold view withoutLegacyBlanks
      split_ifs
      · simp [Map.keys, Map.mapEntries]
      · rfl
    unfold names serverNumbers
    rw [hkeys]
  · rw [has_eq_value, has_eq_value, value_view_of_notMem (hnot key hkey)]
  · rw [get_eq_value, get_eq_value, value_view_of_notMem (hnot key hkey)]

theorem isServerSection_serverSection (n : ℕ) : isServerSection (serverSection n) = true := by
  have hlist : (serverSection n).toList = "kea_server_".toList ++ (toString n).toList :=
    String.toList_append
  have hdigits : serverDigits (serverSection n) = (toString n).toList := by
    unfold serverDigits
    rw [hlist]
    exact List.drop_left
  have hchars : (toString n).toList = Nat.toDigits 10 n := String.toList_ofList
  have hne : Nat.toDigits 10 n ≠ [] := Nat.toDigits_ne_nil
  have hall : (Nat.toDigits 10 n).all Char.isDigit = true :=
    List.all_eq_true.mpr fun c hc => Nat.isDigit_of_mem_toDigits (by decide) (by decide) hc
  unfold isServerSection
  rw [hdigits, hchars, hlist]
  exact decide_eq_true ⟨List.prefix_append _ _, hne, hall⟩

theorem ownPassword_eq_value {name : Name} :
    ownPassword p name = value p (passwordKey name).1 (passwordKey name).2 := by
  unfold ownPassword
  rw [has_eq_value, get_eq_value]
  cases value p (passwordKey name).1 (passwordKey name).2 <;> rfl

/-- The own password, in the view. -/
theorem ownPassword_view {name : Name} : ownPassword (view legacy p) name = formerOwn legacy p name := by
  rw [ownPassword_eq_value, value_view, formerOwn, ← ownPassword_eq_value]
  have hkind : (passwordKey name).2 ∈ legacyBlankKeys → isServerSection (passwordKey name).1 = true := by
    intro hmem
    cases name with
    | serverV6 n => exact isServerSection_serverSection n
    | serverD2 n => exact isServerSection_serverSection n
    | _ => simp [passwordKey, legacyBlankKeys] at hmem
  cases hown : ownPassword p name with
  | none => simp
  | some v =>
    by_cases hmem : (passwordKey name).2 ∈ legacyBlankKeys
    · by_cases hblank : v = ""
      · cases legacy <;> simp [isLegacyBlank, hkind hmem, hmem, hblank]
      · cases legacy <;> simp [isLegacyBlank, hblank]
    · cases legacy <;> simp [isLegacyBlank, hmem]

end View

end JenKea.Credentials
