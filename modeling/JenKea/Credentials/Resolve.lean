import Mathlib.Data.List.Sort
import JenKea.Lib.Ini

/-!
# Where Jen sends its credentials

Every place that Jen sends a credential of Kea or of a database to, as a configuration has it: the address,
the user and the password, and where the password comes from. An endpoint without a password of its own has
that of the endpoint it inherits from, on the same host only.
-/

namespace JenKea.Credentials

/-- An endpoint. -/
inductive Name
  | kea | kea6 | d2 | keaDb | kea6Db | jenDb
  | server (n : ℕ) | serverV6 (n : ℕ) | serverD2 (n : ℕ)
  deriving DecidableEq

/-- Where a password comes from. -/
inductive Source
  | own
  | inherited (parent : Name)
  | none
  deriving DecidableEq

/-- `Endpoint`. -/
structure Endpoint where
  name : Name
  url : String
  user : String
  password : String
  source : Source
  withheld : Option Name
  urlOwn : Bool
  deriving DecidableEq

/-! ## Reading a configuration -/

/-- `_has`. -/
def has (p : Ini) (sec key : String) : Bool :=
  (p.sections.get sec).any fun options => (options.get key).isSome || (p.defaults.get key).isSome

/-- `_get`. -/
def get (p : Ini) (sec key : String) (fallback : String) : String :=
  ((p.sections.get sec).bind fun options => (options.get key).or (p.defaults.get key)).getD fallback

/-- `parser.set`, in a section that is there. -/
def set (p : Ini) (sec key value : String) : Ini :=
  match p.sections.get sec with
  | some options => { p with sections := p.sections.put sec (options.put key value) }
  | none => p

/-- `parser.add_section`, where it is not there. -/
def ensure (p : Ini) (sec : String) : Ini :=
  if (p.sections.get sec).isSome then p else { p with sections := p.sections.put sec .empty }

/-! ## Names -/

/-- The section of an additional server. -/
def serverSection (n : ℕ) : String := "kea_server_" ++ toString n

/-- What follows `kea_server_` in the name of a section. -/
def serverDigits (sec : String) : List Char := sec.toList.drop "kea_server_".length

/-- `re.fullmatch(r"kea_server_\d+", section)`. -/
def isServerSection (sec : String) : Bool :=
  "kea_server_".toList <+: sec.toList ∧ serverDigits sec ≠ [] ∧ (serverDigits sec).all Char.isDigit

/-- The number of an additional server's section. -/
def serverNumber (sec : String) : Option ℕ :=
  if isServerSection sec then Text.digits? (serverDigits sec) else none

/-- `server_numbers`. -/
def serverNumbers (p : Ini) : List ℕ :=
  ((p.sections.keys.filterMap serverNumber).filter (2 ≤ ·)).insertionSort (· ≤ ·)

/-- `password_key`. -/
def passwordKey : Name → String × String
  | .kea => ("kea", "api_pass")
  | .kea6 => ("kea6", "api_pass")
  | .d2 => ("d2", "api_pass")
  | .keaDb => ("kea_db", "password")
  | .kea6Db => ("kea6_db", "password")
  | .jenDb => ("jen_db", "password")
  | .server n => (serverSection n, "api_pass")
  | .serverV6 n => (serverSection n, "api6_pass")
  | .serverD2 n => (serverSection n, "api_d2_pass")

/-- `user_key`. -/
def userKey (name : Name) : String × String :=
  let (sec, option) := passwordKey name
  (sec, if option = "api_pass" then "api_user" else if option = "api6_pass" then "api6_user"
    else if option = "api_d2_pass" then "api_d2_user" else "user")

/-- Where an endpoint's own address stands. -/
def urlKey : Name → String × String
  | .kea => ("kea", "api_url")
  | .kea6 => ("kea6", "api_url")
  | .d2 => ("d2", "api_url")
  | .keaDb => ("kea_db", "host")
  | .kea6Db => ("kea6_db", "host")
  | .jenDb => ("jen_db", "host")
  | .server n => (serverSection n, "api_url")
  | .serverV6 n => (serverSection n, "api6_url")
  | .serverD2 n => (serverSection n, "api_d2_url")

/-! ## Resolving -/

section Resolve

-- the host in an address that is not blank, as `urlsplit` and `ip_address` read it
variable (place : String → Option String)

/-- `_PADDING`. -/
def isPadding (c : Char) : Bool := c = ' ' || c = '\t' || c = '\r' || c = '\n'

/-- The host of `_endpoint_parts`: a blank address names none. -/
def hostPart (u : String) : Option String :=
  let u := ((u.toList.dropWhile isPadding).reverse.dropWhile isPadding).reverse
  if u = [] then none else place (String.ofList u)

/-- `same_host`. -/
def sameHost (a b : String) : Bool :=
  match hostPart place a, hostPart place b with
  | some h, some h' => h = h'
  | _, _ => false

/-- `_db_url`. -/
def dbUrl (p : Ini) (sec host fallbackPort : String) : String :=
  let host := Text.strip host
  if host = "" then ""
  else
    let host := if ':' ∈ host.toList ∧ host.toList.head? ≠ some '[' then "[" ++ host ++ "]" else host
    host ++ ":" ++ Text.strip (Text.orElse (get p sec "port" fallbackPort) fallbackPort)

/-- `_user`. -/
def user (ownPresent : Bool) (ownValue : String) (parent : Endpoint) (url ownPassword : String)
    (noAuth : Bool) : String :=
  if ownPresent then ownValue
  else if noAuth then ""
  else if parent.user ≠ "" ∧ url ≠ "" ∧ (ownPassword ≠ "" ∨ sameHost place parent.url url) then parent.user
  else ""

/-- `_inherit`. -/
def inherit (name : Name) (url user : String) (ownPresent : Bool) (ownValue : String) (parent : Endpoint)
    (urlOwn : Bool) : Endpoint :=
  if ownPresent then ⟨name, url, user, ownValue, if ownValue ≠ "" then .own else .none, none, urlOwn⟩
  else if parent.password ≠ "" ∧ url ≠ "" then
    if sameHost place parent.url url then
      ⟨name, url, user, parent.password, .inherited parent.name, none, urlOwn⟩
    else ⟨name, url, user, "", .none, some parent.name, urlOwn⟩
  else ⟨name, url, user, "", .none, none, urlOwn⟩

/-- The connection mode is `direct`. -/
def isDirect (p : Ini) : Bool := (Text.strip (get p "kea" "connection_mode" "ca")).toLower = "direct"

/-- An endpoint without a parent. -/
def root (p : Ini) (name : Name) (url : String) : Endpoint :=
  let password := get p (passwordKey name).1 (passwordKey name).2 ""
  { name := name, url := url, user := get p (userKey name).1 (userKey name).2 "", password := password
    source := if password ≠ "" then .own else .none, withheld := none, urlOwn := true }

/-- An endpoint with a parent: of HTTP, a blank password says that there is no user. -/
def child (p : Ini) (name : Name) (url : String) (parent : Endpoint) (http urlOwn : Bool) : Endpoint :=
  let (sec, key) := passwordKey name
  let (userSec, userOption) := userKey name
  inherit place name url
    (user place (has p userSec userOption) (get p userSec userOption "") parent url (get p sec key "")
      (http && has p sec key && get p sec key "" = ""))
    (has p sec key) (get p sec key "") parent urlOwn

/-- An address of its own, or the parent's where one Control Agent stands for every daemon. -/
def derivedUrl (p : Ini) (name : Name) (parent : Endpoint) : String :=
  if has p (urlKey name).1 (urlKey name).2 then get p (urlKey name).1 (urlKey name).2 ""
  else if isDirect p then "" else parent.url

/-- `out["kea"]`. -/
def kea (p : Ini) : Endpoint := root p .kea (get p "kea" "api_url" "")

/-- `out["kea6"]` and `out["d2"]`. -/
def daemon (p : Ini) (name : Name) : Endpoint :=
  child place p name (derivedUrl p name (kea p)) (kea p) true (has p (urlKey name).1 (urlKey name).2)

/-- `out["kea_db"]`. -/
def keaDb (p : Ini) : Endpoint := root p .keaDb (dbUrl p "kea_db" (get p "kea_db" "host" "") "3306")

/-- `out["kea6_db"]`. -/
def kea6Db (p : Ini) : Endpoint :=
  let host := if has p "kea6_db" "host" then get p "kea6_db" "host" "" else get p "kea_db" "host" ""
  child place p .kea6Db (dbUrl p "kea6_db" host (Text.orElse (get p "kea_db" "port" "3306") "3306"))
    (keaDb p) false (has p "kea6_db" "host")

/-- `out["jen_db"]`. -/
def jenDb (p : Ini) : Endpoint := root p .jenDb (dbUrl p "jen_db" (get p "jen_db" "host" "") "3306")

/-- `out["server_N"]`. -/
def server (p : Ini) (n : ℕ) : Endpoint :=
  child place p (.server n) (get p (serverSection n) "api_url" "") (kea p) true true

/-- `out["server_N_v6"]` and `out["server_N_d2"]`. -/
def serverDaemon (p : Ini) (n : ℕ) (name : Name) : Endpoint :=
  child place p name (derivedUrl p name (server place p n)) (server place p n) true
    (has p (urlKey name).1 (urlKey name).2)

/-- The endpoint of a name. -/
def endpoint (p : Ini) : Name → Endpoint
  | .kea => kea p
  | .kea6 => daemon place p .kea6
  | .d2 => daemon place p .d2
  | .keaDb => keaDb p
  | .kea6Db => kea6Db place p
  | .jenDb => jenDb p
  | .server n => server place p n
  | .serverV6 n => serverDaemon place p n (.serverV6 n)
  | .serverD2 n => serverDaemon place p n (.serverD2 n)

/-- The names of a configuration's endpoints, in order. -/
def names (p : Ini) : List Name :=
  [.kea, .kea6, .d2, .keaDb, .kea6Db, .jenDb] ++
    (serverNumbers p).flatMap fun n => [.server n, .serverV6 n, .serverD2 n]

/-- `resolve`. -/
def resolve (p : Ini) : Map Name Endpoint :=
  .ofList ((names p).map fun name => (name, endpoint place p name))

end Resolve

/-! ## What an endpoint is -/

/-- The endpoint whose password one inherits. -/
def inheritsFrom : Name → Option Name
  | .kea | .keaDb | .jenDb => none
  | .kea6 | .d2 | .server _ => some .kea
  | .kea6Db => some .keaDb
  | .serverV6 n | .serverD2 n => some (.server n)

/-- Endpoints, from the ones without a parent on. -/
theorem inheritsFrom_induction {P : Name → Prop}
    (h : ∀ name, (∀ parent, inheritsFrom name = some parent → P parent) → P name) (name : Name) :
    P name := by
  have hkea : P .kea := h .kea nofun
  have hkeaDb : P .keaDb := h .keaDb nofun
  have hparent : ∀ parent, inheritsFrom name = some parent → P parent := by
    intro parent hname
    refine h parent fun root hroot => ?_
    cases name with
    | serverV6 n =>
      obtain rfl := Option.some.inj hname
      obtain rfl := Option.some.inj hroot
      exact hkea
    | serverD2 n =>
      obtain rfl := Option.some.inj hname
      obtain rfl := Option.some.inj hroot
      exact hkea
    | kea => cases hname
    | keaDb => cases hname
    | jenDb => cases hname
    | _ =>
      obtain rfl := Option.some.inj hname
      cases hroot
  exact h name hparent

/-- The password that stands in an endpoint's own key. -/
def ownPassword (p : Ini) (name : Name) : Option String :=
  if has p (passwordKey name).1 (passwordKey name).2 then
    some (get p (passwordKey name).1 (passwordKey name).2 "")
  else none

section Spec

variable {place : String → Option String} {p : Ini} {name parent : Name}

theorem sameHost_iff {a b : String} :
    sameHost place a b = true ↔ ∃ h, hostPart place a = some h ∧ hostPart place b = some h := by
  unfold sameHost
  cases ha : hostPart place a <;> cases hb : hostPart place b <;> simp [eq_comm]

theorem sameHost_trans {a b c : String} (hab : sameHost place a b = true)
    (hbc : sameHost place b c = true) : sameHost place a c = true := by
  obtain ⟨h, ha, hb⟩ := sameHost_iff.mp hab
  obtain ⟨h', hb', hc⟩ := sameHost_iff.mp hbc
  obtain rfl := Option.some.inj (hb.symm.trans hb')
  exact sameHost_iff.mpr ⟨h, ha, hc⟩

theorem sameHost_symm {a b : String} (hab : sameHost place a b = true) : sameHost place b a = true := by
  obtain ⟨h, ha, hb⟩ := sameHost_iff.mp hab
  exact sameHost_iff.mpr ⟨h, hb, ha⟩

/-- No blank address is on a host. -/
theorem ne_blank_of_sameHost {a b : String} (hab : sameHost place a b = true) : a ≠ "" := by
  rintro rfl
  obtain ⟨h, ha, -⟩ := sameHost_iff.mp hab
  cases ha

theorem get_of_not_has {sec key fallback : String} (h : has p sec key = false) :
    get p sec key fallback = fallback := by
  unfold has at h
  unfold get
  cases hsec : p.sections.get sec with
  | none => rfl
  | some options =>
    rw [hsec] at h
    simp only [Option.any_some, Bool.or_eq_false_iff, Option.isSome_eq_false_iff,
      Option.isNone_iff_eq_none] at h
    simp [h.1, h.2]

/-- An endpoint with a parent takes what its key has, and else inherits. -/
theorem endpoint_eq_child (h : inheritsFrom name = some parent) : ∃ url http urlOwn,
    endpoint place p name = child place p name url (endpoint place p parent) http urlOwn := by
  cases name with
  | kea => cases h
  | keaDb => cases h
  | jenDb => cases h
  | kea6 => obtain rfl := Option.some.inj h; exact ⟨_, _, _, rfl⟩
  | d2 => obtain rfl := Option.some.inj h; exact ⟨_, _, _, rfl⟩
  | kea6Db => obtain rfl := Option.some.inj h; exact ⟨_, _, _, rfl⟩
  | server n => obtain rfl := Option.some.inj h; exact ⟨_, _, _, rfl⟩
  | serverV6 n => obtain rfl := Option.some.inj h; exact ⟨_, _, _, rfl⟩
  | serverD2 n => obtain rfl := Option.some.inj h; exact ⟨_, _, _, rfl⟩

/-- An endpoint without one takes what its key has. -/
theorem endpoint_eq_root (h : inheritsFrom name = none) :
    ∃ url, endpoint place p name = root p name url := by
  cases name with
  | kea => exact ⟨_, rfl⟩
  | keaDb => exact ⟨_, rfl⟩
  | jenDb => exact ⟨_, rfl⟩
  | _ => cases h

@[simp] theorem name_endpoint : (endpoint place p name).name = name := by
  cases hparent : inheritsFrom name with
  | none =>
    obtain ⟨url, hroot⟩ := @endpoint_eq_root place p _ hparent
    rw [hroot]
    rfl
  | some parent =>
    obtain ⟨url, http, urlOwn, hchild⟩ := @endpoint_eq_child place p _ _ hparent
    rw [hchild]
    unfold child inherit
    dsimp only
    split_ifs <;> rfl

/-- The password of an endpoint whose key is there. -/
theorem endpoint_of_own {value : String} (h : ownPassword p name = some value) :
    (endpoint place p name).password = value ∧ (endpoint place p name).withheld = none ∧
      (endpoint place p name).source = if value ≠ "" then .own else .none := by
  unfold ownPassword at h
  split_ifs at h with hhas
  obtain rfl := Option.some.inj h
  cases hparent : inheritsFrom name with
  | none =>
    obtain ⟨url, hroot⟩ := @endpoint_eq_root place p _ hparent
    rw [hroot]
    exact ⟨rfl, rfl, rfl⟩
  | some parent =>
    obtain ⟨url, http, urlOwn, hchild⟩ := @endpoint_eq_child place p _ _ hparent
    rw [hchild]
    unfold child inherit
    dsimp only
    rw [if_pos hhas]
    exact ⟨rfl, rfl, rfl⟩

/-- The password of an endpoint without a parent whose key is not there. -/
theorem endpoint_of_root (h : ownPassword p name = none) (hparent : inheritsFrom name = none) :
    (endpoint place p name).password = "" ∧ (endpoint place p name).withheld = none ∧
      (endpoint place p name).source = .none := by
  unfold ownPassword at h
  split_ifs at h with hhas
  obtain ⟨url, hroot⟩ := @endpoint_eq_root place p _ hparent
  have hblank : get p (passwordKey name).1 (passwordKey name).2 "" = "" :=
    get_of_not_has (Bool.eq_false_iff.mpr hhas)
  rw [hroot]
  refine ⟨hblank, rfl, ?_⟩
  unfold root
  dsimp only
  rw [hblank]
  rfl

theorem url_inherit {url user ownValue : String} {ownPresent urlOwn : Bool} {e : Endpoint} :
    (inherit place name url user ownPresent ownValue e urlOwn).url = url := by
  unfold inherit
  split_ifs <;> rfl

theorem urlOwn_inherit {url user ownValue : String} {ownPresent urlOwn : Bool} {e : Endpoint} :
    (inherit place name url user ownPresent ownValue e urlOwn).urlOwn = urlOwn := by
  unfold inherit
  split_ifs <;> rfl

/-- An endpoint with a parent whose key is not there: where its address is, and what it inherits. -/
theorem endpoint_of_child (h : ownPassword p name = none) (hparent : inheritsFrom name = some parent) :
    ∃ user urlOwn, endpoint place p name = inherit place name (endpoint place p name).url user false ""
      (endpoint place p parent) urlOwn := by
  unfold ownPassword at h
  split_ifs at h with hhas
  obtain ⟨url, http, urlOwn, hchild⟩ := @endpoint_eq_child place p _ _ hparent
  have habsent := Bool.eq_false_iff.mpr hhas
  have hblank : get p (passwordKey name).1 (passwordKey name).2 "" = "" := get_of_not_has habsent
  have hurl : (endpoint place p name).url = url := by
    rw [hchild]
    exact url_inherit
  have hinherit : ∃ user, child place p name url (endpoint place p parent) http urlOwn =
      inherit place name url user false "" (endpoint place p parent) urlOwn := by
    unfold child
    dsimp only
    rw [habsent, hblank]
    exact ⟨_, rfl⟩
  obtain ⟨user, hinherit⟩ := hinherit
  exact ⟨user, urlOwn, by rw [hurl, hchild, hinherit]⟩

section Child

variable (h : ownPassword p name = none) (hparent : inheritsFrom name = some parent)

include h hparent

/-- On the parent's host it has the parent's password. -/
theorem endpoint_inherits (hpass : (endpoint place p parent).password ≠ "")
    (hurl : (endpoint place p name).url ≠ "")
    (hsame : sameHost place (endpoint place p parent).url (endpoint place p name).url = true) :
    (endpoint place p name).password = (endpoint place p parent).password ∧
      (endpoint place p name).withheld = none ∧
        (endpoint place p name).source = .inherited parent := by
  obtain ⟨user, urlOwn, heq⟩ := @endpoint_of_child place _ _ _ h hparent
  rw [heq, inherit, if_neg Bool.false_ne_true, if_pos ⟨hpass, hurl⟩, if_pos hsame, name_endpoint]
  exact ⟨rfl, rfl, rfl⟩

/-- On another host the parent's password is withheld. -/
theorem endpoint_withheld (hpass : (endpoint place p parent).password ≠ "")
    (hurl : (endpoint place p name).url ≠ "")
    (hsame : sameHost place (endpoint place p parent).url (endpoint place p name).url = false) :
    (endpoint place p name).password = "" ∧ (endpoint place p name).withheld = some parent ∧
      (endpoint place p name).source = .none := by
  obtain ⟨user, urlOwn, heq⟩ := @endpoint_of_child place _ _ _ h hparent
  rw [heq, inherit, if_neg Bool.false_ne_true, if_pos ⟨hpass, hurl⟩,
    if_neg (Bool.eq_false_iff.mp hsame), name_endpoint]
  exact ⟨rfl, rfl, rfl⟩

/-- Without an address, or of a parent without a password, it has none. -/
theorem endpoint_blank
    (hnone : (endpoint place p parent).password = "" ∨ (endpoint place p name).url = "") :
    (endpoint place p name).password = "" ∧ (endpoint place p name).withheld = none ∧
      (endpoint place p name).source = .none := by
  have hnot : ¬ ((endpoint place p parent).password ≠ "" ∧ (endpoint place p name).url ≠ "") := by
    rintro ⟨hpass, hurl⟩
    exact hnone.elim hpass hurl
  obtain ⟨user, urlOwn, heq⟩ := @endpoint_of_child place _ _ _ h hparent
  rw [heq, inherit, if_neg Bool.false_ne_true, if_neg hnot]
  exact ⟨rfl, rfl, rfl⟩

end Child

theorem get_resolve : (resolve place p).get name =
    if name ∈ names p then some (endpoint place p name) else none := by
  unfold resolve Map.ofList
  split_ifs with hmem
  · refine Map.get_putAll_of_mem (List.mem_map.mpr ⟨name, hmem, rfl⟩) fun x hx hname => ?_
    obtain ⟨name', -, rfl⟩ := List.mem_map.mp hx
    rw [← hname]
  · rw [Map.get_putAll_of_notMem]
    · rfl
    · intro x hx hname
      obtain ⟨name', hmem', rfl⟩ := List.mem_map.mp hx
      exact hmem (hname ▸ hmem')

theorem mem_resolve {x : Name × Endpoint} : x ∈ (resolve place p).entries ↔
    x.1 ∈ names p ∧ x.2 = endpoint place p x.1 := by
  have hmem := Map.mem_entries (m := resolve place p) (k := x.1) (v := x.2)
  rw [get_resolve] at hmem
  rw [hmem]
  split_ifs with hname
  · simp [hname, eq_comm]
  · simp [hname]

/-- The parent of a name stands in the configuration with it. -/
theorem parent_mem_names (h : inheritsFrom name = some parent) (hmem : name ∈ names p) :
    parent ∈ names p := by
  have hserver : ∀ n, (Name.serverV6 n ∈ names p ∨ Name.serverD2 n ∈ names p) →
      Name.server n ∈ names p := by
    intro n hn
    simpa [names] using hn
  cases name with
  | kea => cases h
  | keaDb => cases h
  | jenDb => cases h
  | serverV6 n => obtain rfl := Option.some.inj h; exact hserver n (.inl hmem)
  | serverD2 n => obtain rfl := Option.some.inj h; exact hserver n (.inr hmem)
  | _ => obtain rfl := Option.some.inj h; simp [names]

end Spec

/-! ## What a written option changes -/

section Set

variable {place : String → Option String} {p p' : Ini} {sec key value s k fallback : String}

theorem isSome_sections_set :
    ((set p sec key value).sections.get s).isSome = (p.sections.get s).isSome := by
  unfold set
  cases hsec : p.sections.get sec with
  | none => rfl
  | some options =>
    dsimp only
    rw [Map.get_put]
    split_ifs with hs
    · rw [hs, hsec]
      rfl
    · rfl

theorem keys_set : (set p sec key value).sections.keys = p.sections.keys := by
  unfold set
  cases hsec : p.sections.get sec with
  | none => rfl
  | some options =>
    have hmem : sec ∈ p.sections.entries.map Prod.fst := Map.mem_keys.mpr (by rw [hsec]; rfl)
    have hkeys := Map.keys_putEntries (k := sec) (v := options.put key value) p.sections.entries
    rw [if_pos hmem] at hkeys
    exact hkeys

theorem has_set : has (set p sec key value) s k =
    (has p s k || ((p.sections.get sec).isSome && decide (s = sec) && decide (k = key))) := by
  unfold set has
  cases hsec : p.sections.get sec with
  | none => simp
  | some options =>
    dsimp only
    rw [Map.get_put]
    by_cases hs : s = sec
    · rw [if_pos hs, hs, hsec, Option.any_some, Option.any_some, Map.get_put]
      by_cases hk : k = key
      · simp [hk]
      · simp [hk]
    · simp [hs]

theorem get_set : get (set p sec key value) s k fallback =
    if (p.sections.get sec).isSome ∧ s = sec ∧ k = key then value else get p s k fallback := by
  unfold set get
  cases hsec : p.sections.get sec with
  | none => simp
  | some options =>
    dsimp only
    rw [Map.get_put]
    by_cases hs : s = sec
    · rw [if_pos hs, hs, hsec, Option.bind_some, Option.bind_some, Map.get_put]
      by_cases hk : k = key
      · simp [hk]
      · simp [hk]
    · simp [hs]

/-- The keys that addresses are read from. -/
def addressKeys : List String := ["api_url", "api6_url", "api_d2_url", "host", "port", "connection_mode"]

/-- Two configurations have the same servers and the same addresses. The section `jen` has none. -/
structure SameAddresses (p p' : Ini) : Prop where
  names_eq : names p' = names p
  has_eq : ∀ sec ≠ "jen", ∀ key ∈ addressKeys, has p' sec key = has p sec key
  get_eq : ∀ sec ≠ "jen", ∀ key ∈ addressKeys, ∀ fallback, get p' sec key fallback = get p sec key fallback

theorem SameAddresses.refl (p : Ini) : SameAddresses p p :=
  ⟨rfl, fun _ _ _ _ => rfl, fun _ _ _ _ _ => rfl⟩

theorem SameAddresses.trans {p'' : Ini} (h : SameAddresses p p') (h' : SameAddresses p' p'') :
    SameAddresses p p'' :=
  ⟨h'.names_eq.trans h.names_eq,
    fun sec hsec key hkey => (h'.has_eq sec hsec key hkey).trans (h.has_eq sec hsec key hkey),
    fun sec hsec key hkey fallback =>
      (h'.get_eq sec hsec key hkey fallback).trans (h.get_eq sec hsec key hkey fallback)⟩

theorem sameAddresses_set (hkey : key ∉ addressKeys) : SameAddresses p (set p sec key value) := by
  refine ⟨?_, fun s _ k hk => ?_, fun s _ k hk fallback => ?_⟩
  · unfold Credentials.names serverNumbers
    rw [keys_set]
  · have hne : k ≠ key := fun heq => hkey (heq ▸ hk)
    rw [has_set, decide_eq_false hne, Bool.and_false, Bool.or_false]
  · have hne : k ≠ key := fun heq => hkey (heq ▸ hk)
    rw [get_set, if_neg fun h => hne h.2.2]

/-- The addresses of the endpoints are the same. -/
theorem SameAddresses.url_eq (h : SameAddresses p p') (name : Name) :
    (endpoint place p' name).url = (endpoint place p name).url := by
  have hurl : "api_url" ∈ addressKeys := by simp [addressKeys]
  have hhost : "host" ∈ addressKeys := by simp [addressKeys]
  have hport : "port" ∈ addressKeys := by simp [addressKeys]
  have hserverSec : ∀ n, serverSection n ≠ "jen" := by
    intro n heq
    have hlist := congrArg String.toList heq
    unfold serverSection at hlist
    rw [String.toList_append] at hlist
    cases hlist
  have hdirect : isDirect p' = isDirect p := by
    unfold isDirect
    rw [h.get_eq "kea" (by decide) "connection_mode" (by simp [addressKeys])]
  have hurlKey : ∀ n : Name, (urlKey n).2 ∈ addressKeys := by
    intro n
    cases n <;> simp [urlKey, addressKeys]
  have hsec : ∀ n : Name, (urlKey n).1 ≠ "jen" := by
    intro n
    cases n <;> simp [urlKey, hserverSec]
  have hderived : ∀ (n : Name) (e e' : Endpoint), e'.url = e.url →
      derivedUrl p' n e' = derivedUrl p n e := by
    intro n e e' he
    unfold derivedUrl
    rw [h.has_eq _ (hsec n) _ (hurlKey n), h.get_eq _ (hsec n) _ (hurlKey n), hdirect, he]
  have hdb : ∀ (sec host port : String), sec ≠ "jen" → dbUrl p' sec host port = dbUrl p sec host port := by
    intro sec host port hsec
    unfold dbUrl
    rw [h.get_eq sec hsec "port" hport]
  have hkea : (kea p').url = (kea p).url := h.get_eq "kea" (by decide) "api_url" hurl ""
  have hserver : ∀ n, (server place p' n).url = (server place p n).url := by
    intro n
    have heq : (server place p n).url = get p (serverSection n) "api_url" "" := url_inherit
    have heq' : (server place p' n).url = get p' (serverSection n) "api_url" "" := url_inherit
    rw [heq, heq', h.get_eq (serverSection n) (hserverSec n) "api_url" hurl]
  have hdaemon : ∀ n : Name, (daemon place p' n).url = (daemon place p n).url := by
    intro n
    have heq : (daemon place p n).url = derivedUrl p n (kea p) := url_inherit
    have heq' : (daemon place p' n).url = derivedUrl p' n (kea p') := url_inherit
    rw [heq, heq', hderived n _ _ hkea]
  have hserverDaemon : ∀ (n : ℕ) (m : Name),
      (serverDaemon place p' n m).url = (serverDaemon place p n m).url := by
    intro n m
    have heq : (serverDaemon place p n m).url = derivedUrl p m (server place p n) := url_inherit
    have heq' : (serverDaemon place p' n m).url = derivedUrl p' m (server place p' n) := url_inherit
    rw [heq, heq', hderived m _ _ (hserver n)]
  have hrootDb : ∀ sec, sec ≠ "jen" →
      dbUrl p' sec (get p' sec "host" "") "3306" = dbUrl p sec (get p sec "host" "") "3306" := by
    intro sec hsec
    rw [hdb _ _ _ hsec, h.get_eq sec hsec "host" hhost]
  cases name with
  | kea => exact hkea
  | kea6 => exact hdaemon .kea6
  | d2 => exact hdaemon .d2
  | keaDb =>
    have heq : ∀ q, (endpoint place q .keaDb).url = dbUrl q "kea_db" (get q "kea_db" "host" "") "3306" := by
      intro q
      rw [endpoint, keaDb, root]
    rw [heq, heq, hrootDb _ (by decide)]
  | jenDb =>
    have heq : ∀ q, (endpoint place q .jenDb).url = dbUrl q "jen_db" (get q "jen_db" "host" "") "3306" := by
      intro q
      rw [endpoint, jenDb, root]
    rw [heq, heq, hrootDb _ (by decide)]
  | kea6Db =>
    have heq : ∀ q, (kea6Db place q).url = dbUrl q "kea6_db"
        (if has q "kea6_db" "host" then get q "kea6_db" "host" "" else get q "kea_db" "host" "")
        (Text.orElse (get q "kea_db" "port" "3306") "3306") := fun q => url_inherit
    have hboth : (kea6Db place p').url = (kea6Db place p).url := by
      rw [heq, heq, hdb _ _ _ (by decide), h.has_eq "kea6_db" (by decide) "host" hhost,
        h.get_eq "kea6_db" (by decide) "host" hhost, h.get_eq "kea_db" (by decide) "host" hhost,
        h.get_eq "kea_db" (by decide) "port" hport]
    exact hboth
  | server n => exact hserver n
  | serverV6 n => exact hserverDaemon n (.serverV6 n)
  | serverD2 n => exact hserverDaemon n (.serverD2 n)

end Set

end JenKea.Credentials
