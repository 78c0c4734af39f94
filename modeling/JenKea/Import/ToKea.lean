import JenKea.Import.Windows
import JenKea.Lib.Dict

/-!
# A plan onto a configuration

`to_kea` of `jen/services/win_dhcp_import.py` and the edits of `jen/services/kea_config_edit.py` that
it makes: the scopes of a plan that the review page has chosen, onto the `Dhcp4` section of an existing
configuration. A `Dhcp4` holds what the import reads and writes of the section: entries as
dictionaries, in lists as Kea has them.
-/

namespace JenKea.Import

open Json

/-! ## The configuration -/

/-- A subnet: its entries, and its pools. -/
structure SubnetEntry where
  fields : Fields
  pools : List Fields := []
  deriving DecidableEq

/-- A shared network: its entries, and its subnets. -/
structure NetworkEntry where
  fields : Fields
  subnets : List SubnetEntry := []
  deriving DecidableEq

/-- The `Dhcp4` section. -/
structure Dhcp4 where
  optionData : List Fields := []
  classes : List Fields := []
  subnets : List SubnetEntry := []
  networks : List NetworkEntry := []
  deriving DecidableEq

/-- `iter_subnet4`: the subnets of the section, then those of each shared network. -/
def Dhcp4.iterSubnet4 (d4 : Dhcp4) : List SubnetEntry :=
  d4.subnets ++ d4.networks.flatMap NetworkEntry.subnets

/-- `container.get(key) == value`. -/
def has (key : String) (value : Json) (fs : Fields) : Bool :=
  match lookup key fs with
  | none => false
  | some v => v.pyEq value

/-- The subnet has this id. -/
def SubnetEntry.hasId (id : ℤ) (s : SubnetEntry) : Bool := has "id" (.int id) s.fields

/-- `subnet4_by_id`. -/
def Dhcp4.subnet4ById (d4 : Dhcp4) (id : ℤ) : Option SubnetEntry :=
  d4.iterSubnet4.find? (SubnetEntry.hasId id)

/-- The first element with the property, changed. -/
def changeFirst {α : Type} (p : α → Bool) (f : α → α) : List α → List α
  | [] => []
  | a :: l => if p a then f a :: l else a :: changeFirst p f l

/-! ## The spelling of guards -/

/-- `NEW_GUARD`. -/
def newGuard : String := "client-classes"

/-- `OLD_GUARD`. -/
def oldGuard : String := "client-class"

/-- `_scope_containers`: every dictionary that can carry a guard. -/
def Dhcp4.scopeContainers (d4 : Dhcp4) : List Fields :=
  (d4.iterSubnet4.flatMap fun s => s.fields :: s.pools) ++ d4.networks.map NetworkEntry.fields

/-- `_has_any`. -/
def hasAny (containers : List Fields) (keys : List String) : Bool :=
  containers.any fun c => keys.any fun k => (lookup k c).isSome

/-- `attachment_keys`: whether guards are written in the new spelling. -/
def attachmentKeys (d4 : Dhcp4) (version : Option (ℕ × ℕ × ℕ)) : Bool :=
  let newSeen := hasAny d4.scopeContainers [newGuard, "evaluate-additional-classes"] ||
    hasAny d4.classes ["only-in-additional-list"]
  let oldSeen := hasAny d4.scopeContainers [oldGuard, "require-client-classes"] ||
    hasAny d4.classes ["only-if-required"]
  if newSeen && !oldSeen then true
  else if oldSeen && !newSeen then false
  else if oldSeen && newSeen then true
  else
    match version with
    | none => false
    | some (x, y, z) => 2 < x || x == 2 && (7 < y || y == 7 && 4 ≤ z)

/-- The texts in a list. -/
def strings (xs : List Json) : List String :=
  xs.filterMap fun x => match x with
    | .str s => some s
    | _ => none

/-- `guard_classes`: the classes that guard a container, in either spelling. -/
def guardClasses (container : Fields) : List String :=
  match lookup newGuard container with
  | some (.arr xs) => strings xs
  | _ =>
    match lookup oldGuard container with
    | some (.str s) => [s]
    | _ => []

/-- The classes under the key of the new spelling. -/
def listedGuards (container : Fields) : List String :=
  match lookup newGuard container with
  | some (.arr xs) => strings xs
  | _ => []

/-- What attaching a guard writes: a list in the new spelling, and a text alone in the old one. -/
def attachGuard (new : Bool) (name : String) (container : Fields) : Fields :=
  if new then
    let lst := listedGuards container
    let lst := if name ∈ lst then lst else lst ++ [name]
    set newGuard (.arr (lst.map .str)) container
  else set oldGuard (.str name) container

/-! ## The edits -/

/-- The dictionary of a class. -/
def ClassDict.fields (cls : ClassDict) : Fields :=
  [("name", .str cls.name), ("test", .str cls.test)] ++
    if cls.optionData = [] then [] else [("option-data", .arr cls.optionData)]

/-- `upsert_class4`: the class in the place of the first of its name, or at the end. -/
def upsertClass4 (classes : List Fields) (cls : ClassDict) : List Fields :=
  if classes.any (has "name" (.str cls.name)) then
    changeFirst (has "name" (.str cls.name)) (fun _ => cls.fields) classes
  else classes ++ [cls.fields]

/-- The dictionary of a subnet. -/
def SubnetBlock.entry (b : SubnetBlock) : SubnetEntry where
  fields := [("id", .int b.id), ("subnet", .str b.subnet), ("valid-lifetime", .int b.validLifetime),
      ("option-data", .arr b.optionData)] ++
    (b.renewTimer.map fun n => ("renew-timer", Json.int n)).toList ++
    (b.rebindTimer.map fun n => ("rebind-timer", Json.int n)).toList ++
    (b.nextServer.map fun s => ("next-server", Json.str s)).toList ++
    (b.bootFileName.map fun s => ("boot-file-name", Json.str s)).toList
  pools := b.pools.map fun text => [("pool", .str text)]

/-- `create_shared_network4`, and whether there was one of this name. -/
def createSharedNetwork4 (d4 : Dhcp4) (name : String) : Dhcp4 × Bool :=
  if d4.networks.any fun n => has "name" (.str name) n.fields then (d4, true)
  else ({ d4 with networks := d4.networks ++ [{ fields := [("name", .str name)] }] }, false)

/-- `add_subnet4`: the section with the subnet, or why it is not added. -/
def addSubnet4 (d4 : Dhcp4) (block : SubnetBlock) (sharedNetwork : String) :
    Except String Dhcp4 :=
  if d4.iterSubnet4.any (SubnetEntry.hasId block.id) then .error "idexists"
  else if sharedNetwork = "" then .ok { d4 with subnets := d4.subnets ++ [block.entry] }
  else if d4.networks.any fun n => has "name" (.str sharedNetwork) n.fields then
    .ok { d4 with
      networks := changeFirst (fun n => has "name" (.str sharedNetwork) n.fields)
        (fun n => { n with subnets := n.subnets ++ [block.entry] }) d4.networks }
  else .error "nonetwork"

/-- The section with the first subnet of this id changed. -/
def Dhcp4.changeSubnet (d4 : Dhcp4) (id : ℤ) (f : SubnetEntry → SubnetEntry) : Dhcp4 :=
  if d4.subnets.any (SubnetEntry.hasId id) then
    { d4 with subnets := changeFirst (SubnetEntry.hasId id) f d4.subnets }
  else
    { d4 with
      networks := changeFirst (fun n => n.subnets.any (SubnetEntry.hasId id))
        (fun n => { n with subnets := changeFirst (SubnetEntry.hasId id) f n.subnets }) d4.networks }

/-- `attach_class4` of a guard at a subnet. `none` stands for `notfound`. -/
def attachSubnet4 (d4 : Dhcp4) (name : String) (id : ℤ) : Option Dhcp4 :=
  match d4.subnet4ById id with
  | none => none
  | some _ => some (d4.changeSubnet id fun s =>
      { s with fields := attachGuard (attachmentKeys d4 none) name s.fields })

/-- `attach_class4` of a guard at a pool. `none` stands for `notfound`. -/
def attachPool4 (d4 : Dhcp4) (name : String) (id : ℤ) (pool : String) : Option Dhcp4 :=
  match d4.subnet4ById id with
  | none => none
  | some s =>
    if s.pools.any (has "pool" (.str pool)) then
      some (d4.changeSubnet id fun s => { s with
        pools := changeFirst (has "pool" (.str pool)) (attachGuard (attachmentKeys d4 none) name)
          s.pools })
    else none

/-! ## The plan -/

/-- A plan. -/
structure Plan where
  serverOptions : Options := []
  scopes : List Scope := []
  /-- The scopes of a superscope, by its name. -/
  superscopes : List (String × List String) := []
  warnings : List String := []
  globalClasses : List Policy := []

/-- What the review page has chosen. -/
structure Selections where
  scopes : List (String × Bool) := []
  serverOptions : Bool := false
  classes : Bool := true

/-- The id and the name that the review page gives the subnet of a scope. -/
structure SubnetName where
  id : Option ℤ
  name : String

/-- A reservation for the host database. -/
structure ReservationRow where
  subnetId : ℤ
  hwAddress : String
  ipAddress : String
  hostname : String
  optionData : List Json

/-- What the import has come to. -/
structure Imported where
  cfg : Dhcp4
  /-- The `subnet` entries that are taken. -/
  existingCidrs : List Json
  reservations : List ReservationRow := []
  /-- The name and the network of a subnet, by its id. -/
  declared : List (ℤ × String × String) := []
  report : List String

/-- The scopes that the review page has chosen, or that are active where it has not. -/
def Plan.included (plan : Plan) (selections : Selections) : List Scope :=
  plan.scopes.filter fun s =>
    (selections.scopes.lookup s.scopeId).getD (s.state.toLower == "active")

/-- `SUBNET_NAME_FORBIDDEN_CHARS`, and the control characters of ASCII. -/
def isForbidden (c : Char) : Bool :=
  [',', '=', '[', ']'].contains c || c.toNat < 32 || c.toNat == 127

/-- `_sanitize_subnet_name`: at most 64 characters that a subnet name can have. -/
def sanitizeSubnetName (name : String) (fallbackId : ℤ) : String :=
  let blanked := name.toList.map fun c => if isForbidden c then ' ' else c
  let words := (blanked.splitOnP Text.isSpace).filter (· ≠ [])
  let sanitized := Text.strip (Text.take 64 (" ".intercalate (words.map String.ofList)))
  if sanitized = "" then "Subnet" ++ toString fallbackId else sanitized

/-- The superscopes with two included scopes or more, and these scopes. -/
def sharedBy (plan : Plan) (included : List Scope) : List (String × List String) :=
  (plan.superscopes.map fun net =>
    (net.1, net.2.filter fun id => included.any fun s => s.scopeId == id)).filter
    fun net => 2 ≤ net.2.length

/-- `network_for_scope`: the last of the superscopes that the scope is in. -/
def networkForScope (shared : List (String × List String)) (scopeId : String) : Option String :=
  ((shared.filter fun net => net.2.contains scopeId).getLast?).map Prod.fst

/-- The shared networks that the scopes are put into, in the order of their names. -/
def networkNames (shared : List (String × List String)) : List String :=
  ((shared.flatMap Prod.snd).filterMap (networkForScope shared)).dedup.insertionSort (· ≤ ·)

/-! ## The steps of the import -/

/-- The options of the server, where they have no entry yet. -/
def importServerOptions (optionsToKea : OptionsToKea) (plan : Plan) (st : Imported) : Imported :=
  let converted := optionsToKea plan.serverOptions "server"
  let codes := st.cfg.optionData.map (lookup "code")
  converted.entries.foldl (fun st e =>
    match e with
    | .obj fs =>
      let code := (lookup "code" fs).getD .null
      if codes.any fun c => (c.getD .null).pyEq code then
        { st with report := st.report ++ ["server option " ++
          (match code with
            | .int n => toString n
            | _ => "None") ++ " already present at global level — kept as-is"] }
      else { st with cfg := { st.cfg with optionData := st.cfg.optionData ++ [fs] } }
    | _ => st) { st with report := st.report ++ converted.warnings }

/-- The classes of the plan that belong to no scope. -/
def importClass (optionsToKea : OptionsToKea) (st : Imported) (policy : Policy) : Imported :=
  let (cls, warnings) := policyToClass optionsToKea policy "global"
  { st with
    cfg := { st.cfg with classes := cls.elim st.cfg.classes (upsertClass4 st.cfg.classes) }
    report := st.report ++ warnings }

/-- A shared network of the plan. -/
def importNetwork (st : Imported) (name : String) : Imported :=
  let (cfg, existed) := createSharedNetwork4 st.cfg name
  { st with
    cfg := cfg
    report := st.report ++
      if existed then ["shared network " ++ Text.repr name ++ " already exists in Kea — reusing it"]
      else [] }

/-- A guard of the whole subnet. -/
def importSubnetGuard (scope : Scope) (id : ℤ) (st : Imported) (name : String) : Imported :=
  match attachSubnet4 st.cfg name id with
  | some cfg => { st with cfg := cfg }
  | none => { st with report := st.report ++ ["scope " ++ scope.name ++
      ": could not attach class " ++ Text.repr name ++ " to the subnet (notfound)"] }

/-- A guard of a pool. -/
def importPoolGuard (scope : Scope) (id : ℤ) (st : Imported) (guard : String × String) : Imported :=
  match attachPool4 st.cfg guard.2 id guard.1 with
  | some cfg => { st with cfg := cfg }
  | none => { st with report := st.report ++ ["scope " ++ scope.name ++
      ": could not attach class " ++ Text.repr guard.2 ++ " to its pool (notfound)"] }

/-- A reservation of a scope. -/
def importReservation (optionsToKea : OptionsToKea) (id : ℤ) (st : Imported) (res : Reservation) :
    Imported :=
  let converted := optionsToKea res.options ("reservation " ++ res.ip)
  { st with
    reservations := st.reservations ++ [⟨id, res.mac, res.ip, res.hostname, converted.entries⟩]
    report := st.report ++ converted.warnings }

/-- A scope that was added to the configuration: the section that its guards were attached in, the id
of its subnet, and what it was mapped to. -/
structure Added where
  scope : Scope
  id : ℤ
  mapped : MappedScope
  before : Dhcp4

/-- What the report says of the name of a subnet. -/
def adjustedName (scope : Scope) (friendly sanitized : String) : List String :=
  if sanitized = friendly then []
  else ["scope " ++ scope.name ++ ": name " ++ Text.repr friendly ++ " adjusted to " ++
    Text.repr sanitized ++ " for storage"]

/-- One of the included scopes. -/
def importScope (optionsToKea : OptionsToKea) (subnetNames : List (String × SubnetName))
    (shared : List (String × List String)) (st : Imported) (scope : Scope) :
    Option (Imported × Option Added) :=
  let names := subnetNames.lookup scope.scopeId
  match names.bind SubnetName.id with
  | none =>
    some ({ st with report := st.report ++
      ["scope " ++ scope.name ++ ": no subnet id chosen — skipped"] }, none)
  | some id => do
    let friendly := Text.orElse ((names.map SubnetName.name).getD "") scope.name
    let sanitized := sanitizeSubnetName friendly id
    let mapped ← scopeToSubnet optionsToKea scope id
    let st := { st with
      report := st.report ++ adjustedName scope friendly sanitized ++ mapped.warnings }
    let cidr := mapped.subnet.subnet
    if st.existingCidrs.any fun c => c.pyEq (.str cidr) then
      return ({ st with report := st.report ++
        ["scope " ++ scope.name ++ ": CIDR " ++ cidr ++ " already exists in Kea — skipped"] }, none)
    else
      let st := { st with existingCidrs := st.existingCidrs ++ [Json.str cidr] }
      match addSubnet4 st.cfg mapped.subnet ((networkForScope shared scope.scopeId).getD "") with
      | .error code =>
        return ({ st with report := st.report ++ ["scope " ++ scope.name ++
          ": could not add subnet " ++ toString id ++ " (" ++ code ++ ") — skipped"] }, none)
      | .ok cfg =>
        let cfg := { cfg with classes := mapped.classes.foldl upsertClass4 cfg.classes }
        let st := mapped.subnetGuards.foldl (importSubnetGuard scope id) { st with cfg := cfg }
        let st := mapped.poolGuards.foldl (importPoolGuard scope id) st
        let st := { st with declared := st.declared ++ [(id, sanitized, cidr)] }
        let st := scope.reservations.foldl (importReservation optionsToKea id) st
        return ({ st with report := st.report ++ ["scope " ++ scope.name ++ ": mapped to subnet " ++
          toString id ++ " (" ++ cidr ++ "), " ++ toString mapped.subnet.pools.length ++
          " pool(s), " ++ toString mapped.classes.length ++ " class(es), " ++
          toString scope.reservations.length ++ " reservation(s)"] }, some ⟨scope, id, mapped, cfg⟩)

/-- The included scopes, one after the other, and those that were added. -/
def importScopes (optionsToKea : OptionsToKea) (subnetNames : List (String × SubnetName))
    (shared : List (String × List String)) (st : Imported) :
    List Scope → Option (Imported × List Added)
  | [] => some (st, [])
  | scope :: scopes => do
    let (st, added) ← importScope optionsToKea subnetNames shared st scope
    let (st, rest) ← importScopes optionsToKea subnetNames shared st scopes
    return (st, added.toList ++ rest)

/-- `_OPTION_81_WARNING`. -/
def option81Warning : String :=
  "option 81 (client FQDN flags) is DDNS behavior, not option-data — configure it on the DDNS page"

/-- The report without the repetitions of the warning on option 81. -/
def dedupReport (report : List String) : List String :=
  match report.span (· ≠ option81Warning) with
  | (before, []) => before
  | (before, first :: after) => before ++ first :: after.filter (· ≠ option81Warning)

/-- The import before its scopes: the options of the server, the classes, the shared networks. -/
def prepare (optionsToKea : OptionsToKea) (plan : Plan) (existing : Dhcp4)
    (selections : Selections) : Imported :=
  let st : Imported := {
    cfg := existing
    existingCidrs := existing.iterSubnet4.map fun s => (lookup "subnet" s.fields).getD .null
    report := plan.warnings }
  let st := if selections.serverOptions ∧ plan.serverOptions ≠ [] then
      importServerOptions optionsToKea plan st
    else st
  let st := if selections.classes then plan.globalClasses.foldl (importClass optionsToKea) st else st
  (networkNames (sharedBy plan (plan.included selections))).foldl importNetwork st

/-- `to_kea`: the configuration with the chosen scopes of a plan, and the scopes that were added.
`none` stands for the exception at a text that is no address. -/
def toKea (optionsToKea : OptionsToKea) (plan : Plan) (existing : Dhcp4)
    (subnetNames : List (String × SubnetName)) (selections : Selections) :
    Option (Imported × List Added) := do
  let included := plan.included selections
  let (st, added) ← importScopes optionsToKea subnetNames (sharedBy plan included)
    (prepare optionsToKea plan existing selections) included
  return ({ st with report := dedupReport st.report }, added)

end JenKea.Import
