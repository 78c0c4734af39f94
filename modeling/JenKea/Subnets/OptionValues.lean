import JenKea.Lib.Hex
import JenKea.Lib.Items
import JenKea.Lib.Ipv4Net

/-!
# The values of options

How `jen/services/dhcp_options.py` validates the value of an option and writes it in its canonical form.
-/

namespace JenKea.Subnets

open Text

/-- `TYPES`. -/
inductive OptType where
  | ip
  | ipList
  | ipPairList
  | string
  | fqdn
  | fqdnList
  | boolean
  | uint8
  | uint16
  | uint32
  | int32
  | hex
  | classlessRoutes
  deriving DecidableEq, Repr

/-- The types by their names. -/
def optTypes : List (String × OptType) :=
  [("ip", .ip), ("ip-list", .ipList), ("ip-pair-list", .ipPairList), ("string", .string), ("fqdn", .fqdn),
    ("fqdn-list", .fqdnList), ("boolean", .boolean), ("uint8", .uint8), ("uint16", .uint16),
    ("uint32", .uint32), ("int32", .int32), ("hex", .hex), ("classless-routes", .classlessRoutes)]

/-- The type of a name. -/
def OptType.ofName (name : String) : Option OptType :=
  (optTypes.find? fun entry => entry.1 = name).map Prod.snd

/-- `V4_OPTIONS`: the options that Jen knows, with their names and types. -/
def V4_OPTIONS : List (ℕ × String × OptType) :=
  [(1, "subnet-mask", .ip), (2, "time-offset", .int32), (3, "routers", .ipList), (4, "time-servers", .ipList),
    (6, "domain-name-servers", .ipList), (7, "log-servers", .ipList), (12, "host-name", .string),
    (15, "domain-name", .fqdn), (19, "ip-forwarding", .boolean), (26, "interface-mtu", .uint16),
    (28, "broadcast-address", .ip), (33, "static-routes", .ipPairList), (40, "nis-domain", .string),
    (41, "nis-servers", .ipList), (42, "ntp-servers", .ipList), (43, "vendor-encapsulated-options", .hex),
    (44, "netbios-name-servers", .ipList), (46, "netbios-node-type", .uint8), (47, "netbios-scope", .string),
    (60, "vendor-class-identifier", .string), (66, "tftp-server-name", .string),
    (67, "boot-file-name", .string), (69, "smtp-server", .ipList), (70, "pop-server", .ipList),
    (72, "www-server", .ipList), (119, "domain-search", .fqdnList),
    (121, "classless-static-route", .classlessRoutes), (150, "tftp-servers", .ipList)]

/-- `type_for`. -/
def typeFor (code : ℕ) : Option OptType := (V4_OPTIONS.find? fun entry => entry.1 = code).map fun entry => entry.2.2

/-- `NAME_TO_CODE`. -/
def codeOfName (name : String) : Option ℕ := (V4_OPTIONS.find? fun entry => entry.2.1 = name).map Prod.fst

/-! ## What is checked -/

/-- `_ipv4`. -/
def isIpv4 (s : String) : Bool := (Ipv4.parse s).isSome

/-- `_uint`: a whole number of so many bits. -/
def uint (data : String) (bits : ℕ) : Option String :=
  match toInt (strip data) with
  | none => some "must be a whole number"
  | some v => if 0 ≤ v ∧ v < 2 ^ bits then none
    else let most := (2 ^ bits - 1 : ℤ); some s!"must be between 0 and {most}"

/-- A label of a domain name. -/
def isLabel (cs : List Char) : Bool :=
  cs.length ≤ 63 && cs.head?.any Char.isAlphanum && cs.getLast?.any Char.isAlphanum &&
    cs.all fun c => c.isAlphanum || c == '-'

/-- `_FQDN_RE`, of a text that does not end in a newline. -/
def isFqdn (s : String) : Bool :=
  let cs := s.toList
  let labels := if cs.getLast? = some '.' then cs.dropLast else cs
  1 ≤ cs.length && cs.length ≤ 253 && (labels.splitOn '.').all isLabel

/-- The characters of a value in lower case. -/
def lower (s : String) : String := String.ofList (s.toList.map Char.toLower)

/-- The value without its `0x`, in either case. -/
def withoutPrefix (cs : List Char) : List Char :=
  match cs with
  | '0' :: c :: rest => if c.toLower = 'x' then rest else cs
  | _ => cs

/-- The digits of a hexadecimal value. -/
def hexBody (data : String) : List Char :=
  (withoutPrefix data.toList).filter fun c => c ≠ ':' ∧ c ≠ ' '

/-- `_HEX_RE`: it takes another `0x`, and does not see a newline at the end. -/
def matchesHex (body : List Char) : Bool :=
  let digits := match body with
    | '0' :: 'x' :: rest => rest
    | _ => body
  (if digits.getLast? = some '\n' then digits.dropLast else digits).all isHexDigit

/-- `text.partition(" - ")`, where the separator is there. -/
def partitionDash : List Char → Option (List Char × List Char)
  | ' ' :: '-' :: ' ' :: rest => some ([], rest)
  | [] => none
  | c :: cs => (partitionDash cs).map fun parts => (c :: parts.1, parts.2)

/-- The check of one route. -/
def checkRoute (pair : String) : Option String :=
  match partitionDash pair.toList with
  | none => let shown := Text.repr pair; some s!"each route must be 'network/prefix - router': {shown}"
  | some (net, gw) =>
    let net := strip (String.ofList net)
    let gw := strip (String.ofList gw)
    if (Ipv4.parseNetwork net).isNone then let shown := Text.repr net; some s!"not an IPv4 network: {shown}"
    else if !isIpv4 gw then let shown := Text.repr gw; some s!"not an IPv4 router: {shown}"
    else none

/-- What is wrong with the items of a list. -/
def badItems (ok : String → Bool) (what : String) (parts : List String) : Option String :=
  let bad := parts.filter fun p => !ok p
  if bad.isEmpty then none else let shown := commaJoin bad; some s!"not {what}: {shown}"

/-- The check of a value that is not empty. -/
def OptType.check (type : OptType) (data : String) : Option String :=
  match type with
  | .ip => if isIpv4 data then none else some "must be an IPv4 address"
  | .ipList => badItems isIpv4 "IPv4 address(es)" (items data)
  | .ipPairList =>
    let parts := items data
    if parts.isEmpty ∨ parts.length % 2 = 1 then
      some "must be an even number of IPv4 addresses (destination, router, …)"
    else badItems isIpv4 "IPv4 address(es)" parts
  | .string => none
  | .fqdn => if isFqdn data then none else some "must be a valid domain name"
  | .fqdnList => badItems isFqdn "valid domain name(s)" (items data)
  | .boolean => if lower data = "true" ∨ lower data = "false" then none else some "must be true or false"
  | .uint8 => uint data 8
  | .uint16 => uint data 16
  | .uint32 => uint data 32
  | .int32 => match toInt data with
    | none => some "must be a whole number"
    | some v => if -(2 ^ 31) ≤ v ∧ v < 2 ^ 31 then none else some "must fit in a signed 32-bit integer"
  | .hex =>
    let body := hexBody data
    if body = [] ∨ ¬ matchesHex body ∨ body.length % 2 = 1 then
      some "must be an even-length hex string (e.g. 0a1b2c or 0x0a1b2c)"
    else none
  | .classlessRoutes => (items data).findSome? checkRoute

/-- `validate`: what is wrong with a value. -/
def validate (optType data : String) : Option String :=
  let data := strip data
  match OptType.ofName optType with
  | none => let shown := Text.repr optType; some s!"unknown option type {shown}"
  | some type => if data = "" then some "a value is required" else type.check data

/-- One route in its canonical form. -/
def canonicalRoute (pair : String) : String :=
  let (net, gw) := (partitionDash pair.toList).getD (pair.toList, [])
  strip (String.ofList net) ++ " - " ++ strip (String.ofList gw)

/-- The canonical form of a value of a type. -/
def OptType.canonical (type : OptType) (data : String) : String :=
  match type with
  | .ipList | .ipPairList | .fqdnList => commaJoin (items data)
  | .classlessRoutes => commaJoin ((items data).map canonicalRoute)
  | .boolean => lower data
  | .hex => lower (String.ofList (hexBody data))
  | _ => data

/-- `normalize`. -/
def normalize (optType data : String) : String :=
  let data := strip data
  match OptType.ofName optType with
  | none => data
  | some type => type.canonical data

example : normalize "classless-routes" "10.0.0.0/8 -  10.0.0.1 ,, " = "10.0.0.0/8 - 10.0.0.1" := by decide

end JenKea.Subnets
