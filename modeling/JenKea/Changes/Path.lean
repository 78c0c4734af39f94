import JenKea.Lib.Dict
import JenKea.Lib.Overwritten
import JenKea.Lib.PyEq
import JenKea.Lib.Text

/-!
# The parts of a configuration on a client's path

The Changes tab of the Investigation page compares two configurations over what decides what one client gets: the
subnets it is in, the pools there that hold its addresses, its reservations, the shared networks of the subnets,
the global settings, and the classes that any of these name. `extract` goes through the configuration, and writes
each of these elements into a dictionary under a label made of its content.
-/

namespace JenKea.Changes

open Json

/-! ## Python -/

/-- What is raised. -/
inductive Raised where
  | valueError
  | typeError
  | attributeError
deriving DecidableEq

/-- The functions of `ipaddress`: `none` is a `ValueError`. -/
structure Ipaddress where
  Address : Type
  Network : Type
  /-- `ip_address(text)` -/
  address : String → Option Address
  /-- `ip_network(text, strict=False)` -/
  network : String → Option Network
  addressText : Address → String
  networkText : Network → String
  addressVersion : Address → ℕ
  networkVersion : Network → ℕ
  /-- `a in net` -/
  contains : Network → Address → Bool
  /-- `a <= b`: `none` is a `TypeError`, for addresses of two versions. -/
  le : Address → Address → Option Bool

/-- `str(value or "")`. -/
def strOrEmpty (repr : Json → String) (value : Json) : String := if value.falsy then "" else pyStr repr value

/-- `for x in value or []`. -/
def each (value : Json) : Except Raised (List Json) :=
  if value.falsy then .ok []
  else match value with
    | .arr xs => .ok xs
    | .obj fs => .ok (fs.map fun f => .str f.1)
    | .str s => .ok (s.toList.map fun c => .str (String.singleton c))
    | _ => .error .typeError

/-- `any(test(x) for x in xs)`: what comes after the first hit is not tested. -/
def anyOf {α : Type} (test : α → Except Raised Bool) : List α → Except Raised Bool
  | [] => .ok false
  | x :: xs => do if ← test x then pure true else anyOf test xs

/-! ## The path -/

/-- The service, whose numbering a path is in. -/
inductive Service where
  | dhcp4
  | dhcp6
deriving DecidableEq

/-- `_SERVICES[service]["root"]` -/
def Service.root : Service → String
  | .dhcp4 => "Dhcp4"
  | .dhcp6 => "Dhcp6"

/-- `_SERVICES[service]["subnets"]` -/
def Service.subnets : Service → String
  | .dhcp4 => "subnet4"
  | .dhcp6 => "subnet6"

/-- `_SERVICES[service]["address_key"]` -/
def Service.addressKey : Service → String
  | .dhcp4 => "ip-address"
  | .dhcp6 => "ip-addresses"

/-- `ClientPath`: the sets are lists in the order in which Python goes through them. -/
structure ClientPath where
  service : Service
  subnetIds : List ℤ
  cidrs : List String
  identifiers : List String
  addresses : List String
  classes : List String

def classKeys : List String :=
  ["client-class", "client-classes", "require-client-classes", "evaluate-additional-classes"]

def globalLabel : String := "global DHCP settings"

def globalKeys : List String :=
  ["option-data", "valid-lifetime", "min-valid-lifetime", "max-valid-lifetime", "preferred-lifetime",
    "min-preferred-lifetime", "max-preferred-lifetime", "renew-timer", "rebind-timer", "calculate-tee-times",
    "t1-percent", "t2-percent", "host-reservation-identifiers", "reservations-global", "reservations-in-subnet",
    "reservations-out-of-pool", "match-client-id", "echo-client-id"]

section Path

variable (ip : Ipaddress) (repr : Json → String)

/-! ## Normal forms -/

/-- `_hex` -/
def hex (value : Json) : String :=
  let text := (Text.without (· ∈ [':', '-', '.', ' ']) (strOrEmpty repr value)).toList.map Char.toLower
  if text.all (· ∈ "0123456789abcdef".toList) then String.ofList text else ""

/-- `_addr`, of a text -/
def addr (text : String) : String := ((ip.address (Text.strip text)).map ip.addressText).getD ""

/-- `_cidr` -/
def cidr (value : Json) : String := ((ip.network (Text.strip (strOrEmpty repr value))).map ip.networkText).getD ""

/-- `_as_list` -/
def asList : Json → List Json
  | .null => []
  | .arr xs => xs
  | v => [v]

/-- `_inner` -/
def inner (cfg : Json) (service : Service) : Fields :=
  match cfg with
  | .obj fs =>
    match valueOf service.root fs with
    | .obj root => root
    | _ => fs
  | _ => []

/-! ## What is on the path -/

/-- An address, or network, that Python reads from a text or raises a `ValueError` for. -/
def read {α : Type} (x : Option α) : Except Raised α := x.elim (.error .valueError) .ok

/-- The addresses that have a colon are compared where the pool's version is 6, and the others where it is not. -/
def sameFamily (a : String) (version : ℕ) : Bool := a.toList.contains ':' == (version == 6)

/-- `_pool_contains`, before a `ValueError` is caught. -/
def poolHolds (text : String) (addresses : List String) : Except Raised Bool :=
  if '/' ∈ text.toList then do
    let net ← read (ip.network text)
    anyOf (fun a => do pure (ip.contains net (← read (ip.address a))))
      (addresses.filter fun a => sameFamily a (ip.networkVersion net))
  else
    match text.toList.span (· ≠ '-') with
    | (lo, _ :: hi) => do
      let lo ← read (ip.address (Text.strip (String.ofList lo)))
      let hi ← read (ip.address (Text.strip (String.ofList hi)))
      anyOf (fun a => do
          let a ← read (ip.address a)
          if ← (ip.le lo a).elim (.error .typeError) .ok then (ip.le a hi).elim (.error .typeError) .ok
          else pure false)
        (addresses.filter fun a => sameFamily a (ip.addressVersion lo))
    | _ => .error .valueError

/-- `_pool_contains`: `none` where the pool cannot be parsed. -/
def poolContains (poolText : Json) (addresses : List String) : Except Raised (Option Bool) :=
  match poolHolds ip (Text.strip (strOrEmpty repr poolText)) addresses with
  | .ok b => .ok (some b)
  | .error .valueError => .ok none
  | .error e => .error e

/-- `_reservation_matches` -/
def reservationMatches (path : ClientPath) : Json → Bool
  | .obj res =>
    ["hw-address", "duid", "client-id"].any (fun key =>
      let found := hex repr (valueOf key res)
      found ≠ "" && found ∈ path.identifiers) ||
    [path.service.addressKey, "ip-address", "ip-addresses", "prefixes"].any fun key =>
      (asList (valueOf key res)).any fun value =>
        addr ip (String.ofList ((pyStr repr value).toList.takeWhile (· ≠ '/'))) ∈ path.addresses
  | _ => false

/-- `_classes_named` -/
def classesNamed : Json → List String
  | .obj element =>
    classKeys.flatMap fun key => ((asList (valueOf key element)).filter fun c => !c.falsy).map (pyStr repr)
  | _ => []

/-- `_without` -/
def without (keys : List String) (element : Fields) : Fields := element.filter fun f => f.1 ∉ keys

/-- `matched_subnet` -/
def matchedSubnet (path : ClientPath) (subnet : Fields) : Bool :=
  let found := cidr ip repr (valueOf "subnet" subnet)
  (match valueOf "id" subnet with
    | .int sid => decide (sid ∈ path.subnetIds)
    | .bool b => decide ((if b then 1 else 0 : ℤ) ∈ path.subnetIds)
    | _ => false) || (found ≠ "" && found ∈ path.cidrs)

/-- `where`, the label of a subnet -/
def subnetLabel (subnet : Fields) : String :=
  let sid := valueOf "id" subnet
  let net := valueOf "subnet" subnet
  if sid ≠ .null then "subnet " ++ pyStr repr sid ++ " (" ++ pyStr repr net ++ ")"
  else "subnet " ++ pyStr repr (if net.falsy then sid else net)

/-- `_reservation_label` -/
def reservationLabel (res : Fields) : String :=
  match ["hw-address", "duid", "client-id", "ip-address"].find? fun key => !(valueOf key res).falsy with
  | some key => pyStr repr (valueOf key res)
  | none =>
    match ["ip-addresses", "prefixes"].find? fun key => !(valueOf key res).falsy with
    | some key => pyStr repr ((asList (valueOf key res)).headD .null)
    | none => "(unkeyed)"

/-! ## Going through the configuration -/

/-- The local variables of `extract`. -/
structure Walk where
  /-- What is written to `out`, in order: the label of an element, and the element. -/
  out : List (String × Json)
  referenced : List String
  /-- The positions of the networks of `seen_networks`. -/
  seen : List ℕ

/-- `out[label] = value`, after which the classes that `element` names are referenced. -/
def Walk.put (w : Walk) (label : String) (value element : Json) : Walk :=
  { w with out := w.out ++ [(label, value)], referenced := w.referenced ++ classesNamed repr element }

/-- `contexts`: the subnets, each with the shared network it is in, and the place of the network. -/
def contexts (service : Service) (inner : Fields) : Except Raised (List (Option (ℕ × Fields) × Json)) := do
  let top ← each (valueOf service.subnets inner)
  let networks ← each (valueOf "shared-networks" inner)
  let nested ← networks.zipIdx.mapM fun
    | (.obj network, i) => do
      let subnets ← each (valueOf service.subnets network)
      pure (subnets.map fun s => (some (i, network), s))
    | _ => pure []
  pure (top.map (fun s => (none, s)) ++ nested.flatten)

/-- `pool or {}`, which is asked for its keys. -/
def poolFields (pool : Json) : Except Raised Fields :=
  if pool.falsy then .ok []
  else match pool with
    | .obj fs => .ok fs
    | _ => .error .attributeError

/-- `inside`: `none` where the code cannot tell, or the client has no address yet. -/
def poolInside (path : ClientPath) (poolKey : String) (text : Json) : Except Raised (Option Bool) :=
  if path.addresses ≠ [] ∧ poolKey = "pools" then poolContains ip repr text path.addresses else .ok none

/-- A turn of the loop over the pools. -/
def putPool (path : ClientPath) (poolKey : String) (w : Walk) (pool : Json) : Except Raised Walk := do
  let fields ← poolFields pool
  let text : Json :=
    if !(valueOf "pool" fields).falsy then valueOf "pool" fields
    else if !(valueOf "prefix" fields).falsy then valueOf "prefix" fields
    else .str ""
  let inside ← poolInside ip repr path poolKey text
  if inside = some false then pure w else pure (w.put repr ("pool " ++ pyStr repr text) pool pool)

/-- A turn of the loops over reservations. -/
def putReservation (kind : String) (path : ClientPath) (w : Walk) (res : Json) : Walk :=
  match res with
  | .obj fs =>
    if reservationMatches ip repr path res then w.put repr (kind ++ reservationLabel repr fs) res res else w
  | _ => w

/-- The shared network of a subnet that matched, where it was not met before. -/
def putNetwork (service : Service) (w : Walk) : Option (ℕ × Fields) → Walk
  | some (i, network) =>
    if i ∈ w.seen then w
    else
      { w with seen := i :: w.seen }.put repr ("shared network " ++ pyStr repr (valueOf "name" network))
        (.obj (without [service.subnets] network)) (.obj network)
  | none => w

/-- A turn of the loop over the subnets. -/
def visit (path : ClientPath) (w : Walk) : Option (ℕ × Fields) × Json → Except Raised Walk
  | (network, .obj subnet) =>
    if matchedSubnet ip repr path subnet then do
      let w := w.put repr (subnetLabel repr subnet) (.obj (without ["pools", "pd-pools", "reservations"] subnet))
        (.obj subnet)
      let w ← (← each (valueOf "pools" subnet)).foldlM (putPool ip repr path "pools") w
      let w ← (← each (valueOf "pd-pools" subnet)).foldlM (putPool ip repr path "pd-pools") w
      let w := (← each (valueOf "reservations" subnet)).foldl (putReservation ip repr "reservation " path) w
      pure (putNetwork repr path.service w network)
    else pure w
  | _ => pure w

/-- A turn of the loop over the classes. A list or dictionary for a name cannot be looked up in a set. -/
def putClass (w : Walk) : Json → Except Raised Walk
  | .obj definition =>
    match valueOf "name" definition with
    | .str name =>
      if name ∈ w.referenced then pure { w with out := w.out ++ [("class " ++ name, .obj definition)] } else pure w
    | .arr _ | .obj _ => .error .typeError
    | _ => pure w
  | _ => pure w

/-- The elements of the configuration that are on the path, each with its label, as `extract` comes to them. -/
def elements (cfg : Json) (path : ClientPath) : Except Raised (List (String × Json)) := do
  let cfg := inner cfg path.service
  let w ← (← contexts path.service cfg).foldlM (visit ip repr path) ⟨[], path.classes, []⟩
  let settings : Fields := globalKeys.filterMap fun key => (lookup key cfg).map fun v => (key, v)
  let w := if settings ≠ [] then { w with out := w.out ++ [(globalLabel, .obj settings)] } else w
  let w := (← each (valueOf "reservations" cfg)).foldl (putReservation ip repr "global reservation " path) w
  let w ← (← each (valueOf "client-classes" cfg)).foldlM putClass w
  pure w.out

/-- `extract` -/
def extract (cfg : Json) (path : ClientPath) : Except Raised (Map String Json) :=
  (elements ip repr cfg path).map Map.ofList

/-! ## Comparing two configurations -/

/-- What happened to an element. -/
inductive Kind where
  | added
  | removed
  | changed
deriving DecidableEq

/-- An entry of what `diff_paths` returns. -/
structure Change where
  label : String
  kind : Kind
  lines : List String
  more : ℕ
deriving DecidableEq

def maxLines : ℕ := 60

variable (canonical : Json → String) (diff : String → String → List String)

/-- A turn of the loop over the labels, where `canonical` is the masked text of a value, and `diff` gives the
lines of a unified diff. -/
def changeAt (old new : Map String Json) (label : String) : Option Change :=
  let lines := (diff (((old.get label).map canonical).getD "") (((new.get label).map canonical).getD "")).filter
    fun line => !("---".toList.isPrefixOf line.toList || "+++".toList.isPrefixOf line.toList)
  let change := fun kind => some { label, kind, lines := lines.take maxLines, more := lines.length - maxLines }
  match old.get label, new.get label with
  | some v, some w => if v.pyEq w then none else change .changed
  | none, some _ => change .added
  | _, _ => change .removed

/-- `sorted(old.keys() | new.keys())` -/
def labels (old new : Map String Json) : List String :=
  (old.keys ++ new.keys.filter (· ∉ old.keys)).insertionSort fun a b => keyLe a.toList b.toList

/-- `diff_paths` -/
def diffPaths (before after : Json) (path : ClientPath) : Except Raised (List Change) := do
  let old ← extract ip repr before path
  let new ← extract ip repr after path
  pure ((labels old new).filterMap (changeAt canonical diff old new))

end Path

end JenKea.Changes
