import JenKea.Import.Routes
import JenKea.Import.ToKea

/-!
# An export of Windows, read into a plan

`parse_export` of `jen/services/win_dhcp_import.py`, from the element at the root of the document. A real
export has its fields in child elements, an older shape in attributes; each is looked up without its
namespace and without regard to case. Whether a text is an IPv6 address is a parameter: `valid_ip` takes
these too.
-/

namespace JenKea.Import

open Subnets (lower)
open Text (strip orElse commaJoin isHexDigit)

/-- An element of a document: its tag, its attributes, the text before its first child, and its
children. -/
inductive Elem where
  | mk (tag : String) (attrib : List (String × String)) (text : Option String) (children : List Elem)

namespace Elem

def tag : Elem → String
  | .mk tag _ _ _ => tag

def attrib : Elem → List (String × String)
  | .mk _ attrib _ _ => attrib

def ownText : Elem → Option String
  | .mk _ _ text _ => text

def elements : Elem → List Elem
  | .mk _ _ _ children => children

end Elem

/-- `_local`: a name without its namespace. -/
def localName (tag : String) : String := String.ofList (tag.toList.reverse.takeWhile (· ≠ '}')).reverse

/-- `_children`. -/
def childrenOf (elem : Option Elem) (name : String) : List Elem :=
  match elem with
  | none => []
  | some elem => elem.elements.filter fun c => lower (localName c.tag) = lower name

/-- `_child`. -/
def childOf (elem : Option Elem) (name : String) : Option Elem := (childrenOf elem name).head?

/-- `_attr`. -/
def attrOf (elem : Elem) (name : String) : String :=
  ((elem.attrib.find? fun a => lower (localName a.1) = lower name).map Prod.snd).getD ""

/-- `_text`. -/
def textOf (elem : Elem) : String := strip (elem.ownText.getD "")

/-- `_field`: the attribute, or the text of the first child of that name. -/
def fieldOr (elem : Elem) (name default : String) : String :=
  let value := attrOf elem name
  if value ≠ "" then value
  else match childOf (some elem) name with
  | some child => textOf child
  | none => default

/-- `_field`, with a blank for what is not there. -/
def field (elem : Elem) (name : String) : String := fieldOr elem name ""

/-- `_bool_field`. -/
def boolField (elem : Elem) (name : String) (default : Bool) : Bool :=
  let v := lower (strip (field elem name))
  if v ∈ ["true", "1", "yes"] then true
  else if v ∈ ["false", "0", "no"] then false
  else default

/-- `_int_field`. -/
def intField (elem : Elem) (name : String) (default : ℤ) : ℤ :=
  (Text.int? (fieldOr elem name (toString default))).getD default

/-! ## Lease durations -/

/-- A number of digits. -/
def readDigits (cs : List Char) : Option ℕ :=
  if cs ≠ [] ∧ cs.all Char.isDigit then some (cs.foldl (fun n c => 10 * n + (c.toNat - 48)) 0) else none

/-- `_DURATION_RE`: `d.hh:mm:ss` or `hh:mm:ss`, in seconds. -/
def readDuration (text : String) : Option ℕ :=
  match text.toList.splitOn ':' with
  | [front, mm, ss] =>
    let (days, hh) := match front.splitOn '.' with
      | [hh] => (some 0, hh)
      | [days, hh] => (readDigits days, hh)
      | _ => (none, [])
    if hh.length ≤ 2 ∧ mm.length = 2 ∧ ss.length = 2 then do
      return (← days) * 86400 + (← readDigits hh) * 3600 + (← readDigits mm) * 60 + (← readDigits ss)
    else none
  | _ => none

/-- `_parse_duration`. -/
def parseDuration (text context : String) : ℤ × List String :=
  let text := strip text
  if text = "" ∨ lower text = "unlimited" then
    (86400, [context ++ ": lease duration unlimited/absent — defaulted to 86400s (1 day)"])
  else match readDuration text with
  | none =>
    (86400, [context ++ ": unparsable lease duration " ++ Text.repr text ++
      " — defaulted to 86400s (1 day)"])
  | some total => (total, [])

/-! ## Option values -/

/-- `out[code] = raw`. -/
def putOption (code : ℤ) (raw : String) : Options → Options
  | [] => [(code, raw)]
  | (c, r) :: options => if c = code then (c, raw) :: options else (c, r) :: putOption code raw options

/-- One `OptionValue`. -/
def parseOptionValue (context : String) (st : Options × List String) (ov : Elem) :
    Options × List String :=
  match Text.int? (field ov "OptionId") with
  | none => (st.1, st.2 ++ [context ++ ": OptionValue with a non-numeric OptionId — skipped"])
  | some code =>
    if field ov "VendorClass" ≠ "" ∨ field ov "UserClass" ≠ "" then
      (st.1, st.2 ++ [context ++ ": vendor/user-class-scoped option " ++ toString code ++
        " not imported (Kea models these as client classes)"])
    else
      let values := (childrenOf (some ov) "Value").map textOf
      (putOption code (commaJoin (values.filter (· ≠ ""))) st.1, st.2)

/-- `_parse_option_values`. -/
def parseOptionValues (elem : Option Elem) (context : String) : Options × List String :=
  (childrenOf elem "OptionValue").foldl (parseOptionValue context) ([], [])

/-! ## Reservations -/

/-- Six octets of two digits each, with `:` or `-` between them. -/
def sixOctets : ℕ → List Char → Bool
  | 0, _ => false
  | 1, cs => cs.length == 2 && cs.all isHexDigit
  | n + 1, a :: b :: s :: cs =>
    isHexDigit a && isHexDigit b && (s == ':' || s == '-') && sixOctets n cs
  | _, _ => false

/-- `_CLIENT_ID_RE`. -/
def matchesClientId (clientId : String) : Bool := sixOctets 6 (withoutNewline clientId.toList)

/-- The runs of characters with the property, each as one dash. -/
def dashRuns (p : Char → Bool) : List Char → List Char
  | [] => []
  | c :: cs =>
    if p c then
      match cs with
      | [] => ['-']
      | d :: _ => if p d then dashRuns p cs else '-' :: dashRuns p cs
    else c :: dashRuns p cs

/-- A character that a host name can have. -/
def hostChar (c : Char) : Bool := c.isAlphanum || c == '.' || c == '-'

/-- `_sanitize_hostname`. -/
def sanitizeHostname (name : String) : String :=
  let sanitized := dashRuns (· == '-') (dashRuns (fun c => !hostChar c) name.toList)
  let edge (c : Char) : Bool := c == '-' || c == '.'
  String.ofList ((sanitized.dropWhile edge).reverse.dropWhile edge).reverse

/-- `valid_hostname`. -/
def validHostname (hostname : String) : Bool :=
  hostname == "" || (hostname.toList.length ≤ 253 &&
    ((withoutNewline hostname.toList).splitOn '.').all Subnets.isLabel)

/-- The host name of a reservation, and the warning where it has none. -/
def reservationHostname (name ip context : String) : String × List String :=
  if name = "" then ("", [])
  else if validHostname (sanitizeHostname name) then (sanitizeHostname name, [])
  else ("", [context ++ ": reservation " ++ ip ++ " hostname " ++ Text.repr name ++
    " failed validation — imported without it"])

/-- One `Reservation`: what is imported of it, and the warnings. -/
def parseReservation (isIpv6 : String → Bool) (context : String) (r : Elem) :
    Option Reservation × List String :=
  let rtype := fieldOr r "Type" "Dhcp"
  let ip := field r "IPAddress"
  let clientId := field r "ClientId"
  let name := field r "Name"
  if lower rtype = "bootp" then
    (none, [context ++ ": reservation " ++ orElse ip "?" ++ ": BOOTP-only — not imported"])
  else if ¬ matchesClientId clientId then
    let bytes := if clientId = "" then 0
      else (clientId.toList.splitOnP fun c => c == ':' || c == '-').length
    (none, [context ++ ": reservation " ++ orElse (orElse name ip) "?" ++ " (" ++ orElse ip "?" ++
      ") uses a " ++ toString bytes ++ "-byte client identifier, not a MAC — Kea needs a `client-id` " ++
      "reservation for it; add it by hand after the import"])
  else
    let mac := lower (String.ofList (clientId.toList.map fun c => if c = '-' then ':' else c))
    if ¬ validIp isIpv6 ip then
      (none, [context ++ ": reservation for " ++ mac ++ " has an invalid IP " ++ Text.repr ip ++
        " — skipped"])
    else
      let hostname := reservationHostname name ip context
      let options := parseOptionValues (childOf (some r) "OptionValues")
        (context ++ " reservation " ++ ip)
      (some { mac := mac, ip := ip, hostname := hostname.1, options := options.1 },
        hostname.2 ++ options.2)

/-- `_parse_reservations`. -/
def parseReservations (isIpv6 : String → Bool) (elem : Option Elem) (context : String) :
    List Reservation × List String :=
  let parsed := (childrenOf elem "Reservation").map (parseReservation isIpv6 context)
  (parsed.filterMap Prod.fst, parsed.flatMap Prod.snd)

/-! ## Policies -/

/-- One `Condition`. -/
def parseCondition (c : Elem) : Condition where
  type := field c "Type"
  operator := fieldOr c "Operator" "Equals"
  value := field c "Value"

/-- One `IPRange`. -/
def parseIpRange (r : Elem) : String × String := (field r "StartRange", field r "EndRange")

/-- One `Policy`. -/
def parsePolicy (context : String) (p : Elem) : Policy × List String :=
  let name := field p "Name"
  let options := parseOptionValues (childOf (some p) "OptionValues") (context ++ " policy " ++ name)
  ({ name := name
     enabled := boolField p "Enabled" true
     processingOrder := intField p "ProcessingOrder" 0
     condition := (fieldOr p "Condition" "AND").toUpper
     conditions := (childrenOf (childOf (some p) "Conditions") "Condition").map parseCondition
     ipRanges := (childrenOf (childOf (some p) "IPRanges") "IPRange").map parseIpRange
     options := options.1 }, options.2)

/-- `_parse_policies`. -/
def parsePolicies (elem : Option Elem) (context : String) : List Policy × List String :=
  let parsed := (childrenOf elem "Policy").map (parsePolicy context)
  (parsed.map Prod.fst, parsed.flatMap Prod.snd)

/-! ## Scopes -/

/-- The addresses that a scope must have, by their fields. -/
def requiredFields : List String := ["ScopeId", "SubnetMask", "StartRange", "EndRange"]

/-- The name of a scope. -/
def scopeName (elem : Elem) : String := orElse (field elem "Name") (field elem "ScopeId")

/-- How the warnings name a scope. -/
def scopeContext (elem : Elem) : String :=
  "scope " ++ scopeName elem ++ " (" ++ field elem "ScopeId" ++ ")"

/-- `_parse_scope`: the scope and its superscope, or none where an address is missing or none at all,
and the warnings. -/
def parseScope (isIpv6 : String → Bool) (elem : Elem) :
    Option (Scope × Option String) × List String :=
  let scopeId := field elem "ScopeId"
  let name := scopeName elem
  let context := scopeContext elem
  match requiredFields.find? fun key => field elem key = "" ∨ ¬ validIp isIpv6 (field elem key) with
  | some key => (none, ["scope " ++ name ++ ": missing/invalid " ++ key ++ " — skipped"])
  | none =>
    let duration := parseDuration (field elem "LeaseDuration") context
    let reservations := parseReservations isIpv6 (childOf (some elem) "Reservations") context
    let options := parseOptionValues (childOf (some elem) "OptionValues") context
    let policies := parsePolicies (childOf (some elem) "Policies") context
    let state := fieldOr elem "State" "Active"
    let superscope := field elem "SuperscopeName"
    let scope : Scope := {
      scopeId := scopeId
      subnetMask := field elem "SubnetMask"
      name := name
      state := state
      startRange := field elem "StartRange"
      endRange := field elem "EndRange"
      leaseSeconds := duration.1
      exclusions := (childrenOf (childOf (some elem) "ExclusionRanges") "IPRange").map parseIpRange
      options := options.1
      reservations := reservations.1
      policies := policies.1 }
    let inactive := if lower state = "active" then []
      else [context ++ ": scope is Inactive in Windows — imported, unticked by default"]
    (some (scope, if superscope = "" then none else some superscope),
      duration.2 ++ reservations.2 ++ options.2 ++ policies.2 ++ inactive)

/-! ## The document -/

/-- `out[name] = ids`. -/
def putSuperscope (name : String) (ids : List String) :
    List (String × List String) → List (String × List String)
  | [] => [(name, ids)]
  | s :: superscopes =>
    if s.1 = name then (name, ids) :: superscopes else s :: putSuperscope name ids superscopes

/-- `_parse_superscopes`. -/
def parseSuperscopes (elem : Option Elem) : List (String × List String) :=
  (childrenOf elem "Superscope").foldl (fun out sc =>
    let name := field sc "Name"
    if name = "" then out
    else putSuperscope name (((childrenOf (some sc) "ScopeId").map textOf).filter (· ≠ "")) out) []

/-- A scope in the superscope that it names. -/
def joinSuperscope (superscopes : List (String × List String)) (s : Scope × Option String) :
    List (String × List String) :=
  match s.2 with
  | none => superscopes
  | some name =>
    let members := (superscopes.lookup name).getD []
    putSuperscope name (if s.1.scopeId ∈ members then members else members ++ [s.1.scopeId]) superscopes

/-- What the report says of the filters of Windows. -/
def filterWarnings (filters : Option Elem) : List String :=
  match filters with
  | none => []
  | some f =>
    if boolField f "Allow" false ∨ boolField f "Deny" false then
      let lists := (childrenOf (some f) "Filter").map fun entry => lower (field entry "List")
      ["MAC allow/deny filtering is enabled in Windows (" ++ toString (lists.count "allow") ++
        " allow / " ++ toString (lists.count "deny") ++
        " deny entries) — not imported; Kea's equivalent is a client class"]
    else []

/-- `parse_export`. -/
def parseExport (isIpv6 : String → Bool) (root : Elem) : Plan :=
  match childOf (some root) "ipv4" with
  | none => { warnings := ["No <IPv4> section found in the export — nothing to import."] }
  | some ipv4 =>
    let serverOptions := parseOptionValues (childOf (some ipv4) "OptionValues") "server"
    let parsed := (childrenOf (childOf (some ipv4) "Scopes") "Scope").map (parseScope isIpv6)
    let scopes := parsed.filterMap Prod.fst
    let ipv6 := childOf (some root) "ipv6"
    { serverOptions := serverOptions.1
      scopes := scopes.map Prod.fst
      superscopes := scopes.foldl joinSuperscope (parseSuperscopes (childOf (some ipv4) "Superscopes"))
      warnings := serverOptions.2 ++ parsed.flatMap Prod.snd ++
        (if scopes = [] then ["No scopes found in the export."] else []) ++
        filterWarnings (childOf (some ipv4) "Filters") ++
        if childrenOf (childOf ipv6 "Scopes") "Scope" ≠ [] then
          ["IPv6 scopes are not imported (IPv4 only)"] else [] }

end JenKea.Import
