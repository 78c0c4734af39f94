import JenKea.Explain.Client
import JenKea.Import.ToKea

/-!
# Reservations in an explanation

The reservation lookup of `jen/services/dhcp_explain.py`: which rows count for a subnet, the first one that
is the client's, and whether its identifier type is enabled at all. The lookup stops at the first row, so a
row of a type that is not enabled hides every row after it, and no row of the section itself is looked at.
-/

namespace JenKea.Explain

open Json Import

/-! ## The configuration -/

/-- The `Dhcp4` section: its own entries, and its subnets and shared networks. -/
structure Config where
  fields : Fields
  dhcp4 : Dhcp4

/-- The name of a shared network, `None` where it has none. -/
def NetworkEntry.name (n : NetworkEntry) : Json := (lookup "name" n.fields).getD .null

/-- `iter_subnet4`, with the names of the shared networks. -/
def Config.iterSubnet4 (cfg : Config) : List (SubnetEntry × Json) :=
  cfg.dhcp4.subnets.map (fun s => (s, .null)) ++
    cfg.dhcp4.networks.flatMap fun n => n.subnets.map fun s => (s, NetworkEntry.name n)

/-- `subnet4_by_id`, and where the subnet stands. -/
def Config.subnet4ById (cfg : Config) (id : ℤ) : Option ((SubnetEntry × Json) × ℕ) :=
  cfg.iterSubnet4.zipIdx.find? fun x => x.1.1.hasId id

/-- The subnet, and then its siblings in the shared network. -/
def Config.candidates (cfg : Config) (found : (SubnetEntry × Json) × ℕ) : List SubnetEntry :=
  let ((subnet, snName), i) := found
  let siblings := if snName.falsy then []
    else ((cfg.iterSubnet4.eraseIdx i).filter fun x => x.2.pyEq snName).map Prod.fst
  subnet :: siblings

/-! ## Rows -/

/-- An identifier type, as a row of the database or of the configuration has it. -/
inductive IdType where
  | number (n : ℤ)
  | text (s : String)
  deriving DecidableEq

/-- `identifier_type_name`. -/
def IdType.name : IdType → String
  | .number 0 | .text "0" => "hw-address"
  | .number 3 | .text "3" => "client-id"
  | .number n => toString n
  | .text s => s

/-- A reservation, of the host database or of the configuration. -/
structure Reservation where
  /-- The row's subnet, zero where it has none. -/
  subnetId : ℤ
  identifierType : IdType
  identifier : String
  ip : Option Json := none
  hostname : Json := .str ""
  classes : List Json := []
  options : List Json := []
  source : String := "host database"
  deriving DecidableEq

/-- An identifier of a reservation: a text that is not empty. -/
def identifierText (key : String) (r : Fields) : Option String :=
  match lookup key r with
  | some (.str s) => if s = "" then none else some s
  | _ => none

/-- `r.get(key) or []`. -/
def listOf (key : String) (r : Fields) : List Json :=
  match lookup key r with
  | some (.arr xs) => xs
  | _ => []

/-- `int(subnet_id or 0)` of a subnet's own id. -/
def idOf (fields : Fields) : ℤ :=
  match lookup "id" fields with
  | some (.int n) => n
  | _ => 0

/-- A row of `_config_reservations`. -/
def configRow (scope r : Fields) (type identifier : String) : Reservation where
  subnetId := idOf scope
  identifierType := .text type
  identifier := normMac identifier
  ip := lookup "ip-address" r
  hostname := (lookup "hostname" r).getD (.str "")
  classes := listOf "client-classes" r
  options := listOf "option-data" r
  source := "config file"

/-- `_config_reservations`. -/
def configReservations (scope : Fields) : List Reservation :=
  (listOf "reservations" scope).filterMap fun
    | .obj r =>
      match identifierText "hw-address" r with
      | some mac => some (configRow scope r "hw-address" mac)
      | none => (identifierText "client-id" r).map (configRow scope r "client-id")
    | _ => none

/-! ## The lookup -/

/-- Where reservations count for a subnet. -/
structure Flags where
  global : Bool := false
  inSubnet : Bool := true
  deriving DecidableEq

/-- One scope of `reservation_flags`. -/
def Flags.scope (flags : Flags) (scope : Fields) : Flags :=
  let flags := match lookup "reservation-mode" scope with
    | some (.str "global") => { global := true, inSubnet := false }
    | some (.str "disabled") => { global := false, inSubnet := false }
    | some (.str "all") | some (.str "out-of-pool") => { global := false, inSubnet := true }
    | _ => flags
  let flags := match lookup "reservations-global" scope with
    | some v => { flags with global := !v.falsy }
    | none => flags
  match lookup "reservations-in-subnet" scope with
  | some v => { flags with inSubnet := !v.falsy }
  | none => flags

/-- `reservation_flags`. -/
def reservationFlags (cfg : Config) (subnet : SubnetEntry) : Flags :=
  (({} : Flags).scope cfg.fields).scope subnet.fields

/-- `enabled_identifiers`: every type, where the configuration does not say. -/
def enabledIdentifiers (cfg : Config) : Option (List String) :=
  match lookup "host-reservation-identifiers" cfg.fields with
  | some (.arr xs) => some (strings xs)
  | _ => none

/-- `hit`: the row is the client's. -/
def Client.hit (client : Client) (r : Reservation) : Bool :=
  let mac := normMac client.mac
  let cid := normMac client.clientId
  ((r.identifierType = .text "hw-address" ∨ r.identifierType = .number 0 ∨
      r.identifierType = .text "0") ∧ mac ≠ "" ∧ normMac r.identifier = mac) ∨
    (cid ≠ "" ∧ (r.identifierType = .text "client-id" ∨ r.identifierType = .number 3 ∨
      r.identifierType = .text "3") ∧ normMac r.identifier = cid)

/-- Where a reservation was found. -/
inductive Scope where
  | subnet
  | global
  deriving DecidableEq

/-- `match_reservation`. -/
def matchReservation (client : Client) (candidates : List SubnetEntry) (subnetId : ℤ) (flags : Flags)
    (dbRows : List Reservation) : Option (Reservation × Scope) :=
  let rows := dbRows ++ candidates.flatMap fun s => configReservations s.fields
  let inSubnet := if flags.inSubnet then
    rows.find? fun r => r.subnetId = subnetId ∧ client.hit r else none
  match inSubnet with
  | some r => some (r, .subnet)
  | none =>
    if flags.global then
      (rows.find? fun r => r.subnetId = 0 ∧ client.hit r).map fun r => (r, .global)
    else none

/-- The verdict of the reservation step. -/
inductive Verdict where
  | matched
  | neverMatched
  | none
  deriving DecidableEq

/-- What an explanation says of the reservations. -/
structure Lookup where
  res : Option (Reservation × Scope)
  resIgnored : Option (Reservation × Scope)
  verdict : Verdict
  /-- The class `KNOWN`, before the classes of the configuration. -/
  known : Bool

/-- The type of the row is enabled. -/
def isEnabled (enabled : Option (List String)) (r : Reservation) : Bool :=
  enabled.all fun names => r.identifierType.name ∈ names

/-- The reservation step of `explain`. -/
def explainReservation (cfg : Config) (client : Client) (found : (SubnetEntry × Json) × ℕ)
    (reservations : List Reservation) : Lookup :=
  let subnet := found.1.1
  let res := matchReservation client (cfg.candidates found) (idOf subnet.fields)
    (reservationFlags cfg subnet) reservations
  let (res, resIgnored) := match res with
    | some x => if isEnabled (enabledIdentifiers cfg) x.1 then (some x, none) else (none, some x)
    | none => (none, none)
  { res, resIgnored,
    verdict := if res.isSome then .matched else if resIgnored.isSome then .neverMatched else .none,
    known := res.isSome }

/-! ## What Kea would honor -/

/-- The rows that an explanation searches for a subnet, in its order: those of the subnet, and then the
global ones. -/
def searched (cfg : Config) (found : (SubnetEntry × Json) × ℕ) (reservations : List Reservation) :
    List Reservation :=
  let flags := reservationFlags cfg found.1.1
  let rows := reservations ++ (cfg.candidates found).flatMap fun s => configReservations s.fields
  (if flags.inSubnet then rows.filter fun r => r.subnetId = idOf found.1.1.fields else []) ++
    if flags.global then rows.filter fun r => r.subnetId = 0 else []

/-- The reservations that count for a subnet: the rows above, and where global ones count those of the
section. -/
def inScope (cfg : Config) (found : (SubnetEntry × Json) × ℕ) (reservations : List Reservation) :
    List Reservation :=
  searched cfg found reservations ++
    if (reservationFlags cfg found.1.1).global then configReservations cfg.fields else []

/-- A reservation that counts for the subnet is the client's by a type that is enabled. -/
def Reserved (cfg : Config) (client : Client) (found : (SubnetEntry × Json) × ℕ)
    (reservations : List Reservation) : Prop :=
  ∃ r ∈ inScope cfg found reservations,
    client.hit r = true ∧ isEnabled (enabledIdentifiers cfg) r = true

/-- The explanation does not hide the reservation. -/
def Shows (cfg : Config) (client : Client) (found : (SubnetEntry × Json) × ℕ)
    (reservations : List Reservation) : Prop :=
  Reserved cfg client found reservations →
    (explainReservation cfg client found reservations).res.isSome = true ∧
      (explainReservation cfg client found reservations).known = true

/-- Of the rows that are searched, one that is the client's by an enabled type stands before every one that
is the client's by another type. -/
def EnabledFirst (cfg : Config) (client : Client) (found : (SubnetEntry × Json) × ℕ)
    (reservations : List Reservation) : Prop :=
  ∃ before r after, searched cfg found reservations = before ++ r :: after ∧ client.hit r = true ∧
    isEnabled (enabledIdentifiers cfg) r = true ∧ ∀ r' ∈ before, client.hit r' = false

section Reservations

variable {cfg : Config} {client : Client} {found : (SubnetEntry × Json) × ℕ}
  {reservations : List Reservation}

/-- The lookup is the first row of the client's. -/
theorem matchReservation_fst :
    (matchReservation client (cfg.candidates found) (idOf found.1.1.fields)
      (reservationFlags cfg found.1.1) reservations).map Prod.fst =
      (searched cfg found reservations).find? client.hit := by
  have hfilter : ∀ (rows : List Reservation) (n : ℤ),
      (rows.filter fun r => r.subnetId = n).find? client.hit =
        rows.find? fun r => r.subnetId = n ∧ client.hit r := by
    intro rows n
    rw [List.find?_filter]
    congr 1
    funext r
    simp
  unfold matchReservation searched
  dsimp only
  generalize reservations ++ (cfg.candidates found).flatMap (fun s => configReservations s.fields) = rows
  cases (reservationFlags cfg found.1.1).inSubnet with
  | false =>
    cases (reservationFlags cfg found.1.1).global with
    | false => rfl
    | true =>
      simp only [if_true, Bool.false_eq_true, if_false, List.nil_append, hfilter, Option.map_map]
      exact Option.map_id'
  | true =>
    simp only [if_true, List.find?_append, hfilter]
    cases List.find? _ _ with
    | some r => rfl
    | none =>
      cases (reservationFlags cfg found.1.1).global with
      | false => rfl
      | true =>
        simp only [if_true, hfilter, Option.none_or, Option.map_map]
        exact Option.map_id'

theorem enabledFirst_iff : EnabledFirst cfg client found reservations ↔
    ∃ r, (searched cfg found reservations).find? client.hit = some r ∧
      isEnabled (enabledIdentifiers cfg) r = true := by
  constructor
  · rintro ⟨before, r, after, hsplit, hhit, henabled, hbefore⟩
    refine ⟨r, List.find?_eq_some_iff_append.mpr ⟨hhit, before, after, hsplit, fun r' hr' => ?_⟩,
      henabled⟩
    rw [hbefore r' hr']
    rfl
  · rintro ⟨r, hfind, henabled⟩
    obtain ⟨hhit, before, after, hsplit, hbefore⟩ := List.find?_eq_some_iff_append.mp hfind
    refine ⟨before, r, after, hsplit, hhit, henabled, fun r' hr' => ?_⟩
    simpa using hbefore r' hr'

/-- A reservation is reported just where the first row of the client's is of an enabled type. -/
theorem isSome_res_iff : (explainReservation cfg client found reservations).res.isSome = true ↔
    EnabledFirst cfg client found reservations := by
  rw [enabledFirst_iff, ← matchReservation_fst]
  unfold explainReservation
  dsimp only
  cases matchReservation client (cfg.candidates found) (idOf found.1.1.fields)
    (reservationFlags cfg found.1.1) reservations with
  | none => simp
  | some x =>
    dsimp only
    split_ifs with henabled
    · simp [henabled]
    · simp [henabled]

theorem known_eq : (explainReservation cfg client found reservations).known =
    (explainReservation cfg client found reservations).res.isSome := rfl

/-- An explanation hides no reservation just where the client has none by an enabled type, or a row that is
searched is one and stands before the client's rows of the other types. -/
theorem shows_iff (cfg : Config) (client : Client) (found : (SubnetEntry × Json) × ℕ)
    (reservations : List Reservation) :
    Shows cfg client found reservations ↔
      (Reserved cfg client found reservations → EnabledFirst cfg client found reservations) := by
  unfold Shows
  rw [known_eq, and_self, isSome_res_iff]

/-! ### A reservation behind another one -/

/-- A section with one subnet, in which reservations count by the MAC address alone. -/
def officeConfig : Config where
  fields := [("host-reservation-identifiers", .arr [.str "hw-address"]),
    ("reservations-global", .bool true),
    ("reservations", .arr [.obj [("hw-address", .str "aa:bb:cc:dd:ee:02"),
      ("ip-address", .str "10.0.5.9")]])]
  dhcp4 := { subnets := [{ fields := [("id", .int 5), ("subnet", .str "10.0.5.0/24")] }] }

/-- Its subnet. -/
def officeSubnet : (SubnetEntry × Json) × ℕ :=
  (({ fields := [("id", .int 5), ("subnet", .str "10.0.5.0/24")] }, .null), 0)

/-- A client with a reservation by its client id, and one by its MAC address. -/
def officeRows : List Reservation :=
  [{ subnetId := 5, identifierType := .number 3, identifier := "01aabbccddee01" },
    { subnetId := 5, identifierType := .number 0, identifier := "aabbccddee01" }]

/-- The reservation by the MAC address is hidden behind the one by the client id, and one of the section
itself is hidden from every client. -/
theorem not_shows_office : officeConfig.subnet4ById 5 = some officeSubnet ∧
    ¬ Shows officeConfig { mac := "aa:bb:cc:dd:ee:01", clientId := "01:aa:bb:cc:dd:ee:01" } officeSubnet
        officeRows ∧
      ¬ Shows officeConfig { mac := "aa:bb:cc:dd:ee:02" } officeSubnet [] := by
  refine ⟨by decide +kernel, fun h => ?_, fun h => ?_⟩
  · refine absurd (h ⟨{ subnetId := 5, identifierType := .number 0, identifier := "aabbccddee01" }, ?_,
      by decide +kernel, by decide +kernel⟩).2 (by decide +kernel)
    exact List.mem_append_left _ (List.mem_append_left _ (List.mem_filter.mpr
      ⟨List.mem_append_left _ (List.mem_cons_of_mem _ List.mem_cons_self), by decide +kernel⟩))
  · refine absurd (h ⟨configRow officeConfig.fields [("hw-address", .str "aa:bb:cc:dd:ee:02"),
      ("ip-address", .str "10.0.5.9")] "hw-address" "aa:bb:cc:dd:ee:02", ?_, by decide +kernel,
      by decide +kernel⟩).2 (by decide +kernel)
    exact List.mem_append_right _ List.mem_cons_self

end Reservations

end JenKea.Explain
