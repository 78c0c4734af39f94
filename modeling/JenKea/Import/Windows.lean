import Mathlib.Data.List.Sort
import JenKea.Import.Classes
import JenKea.Lib.Interval
import JenKea.Lib.Ipv4
import JenKea.Lib.Json

/-!
# Scopes and policies

The stage of `jen/services/win_dhcp_import.py` that maps a scope of a plan onto a Kea subnet: the
range of the scope without its exclusions, the pools that are carved out of it for policies, and the
classes of the policies. The importer of `dhcpd.conf` builds the same plans.

`OptionsToKea` is the conversion of option values (`_options_to_kea`), which no pool depends on.
-/

namespace JenKea.Import

open JenKea.Interval (Range)

/-- Option values by code. -/
abbrev Options := List (ℤ × String)

/-- What `_options_to_kea` makes of option values: entries of `option-data`, lease timers by name,
and warnings. -/
structure Converted where
  entries : List Json
  timers : List (String × String)
  warnings : List String

/-- `_options_to_kea`. -/
abbrev OptionsToKea := Options → String → Converted

/-- A condition of a policy, as an export of Windows has it. -/
structure Condition where
  type : String
  operator : String
  value : String
  deriving DecidableEq, Repr

/-- A policy. -/
structure Policy where
  name : String
  enabled : Bool
  processingOrder : ℤ
  /-- `AND` or `OR`. -/
  condition : String
  conditions : List Condition := []
  ipRanges : List (String × String) := []
  options : Options := []
  rules : List Rule := []
  negate : Bool := false
  deriving DecidableEq, Repr

/-- A reservation. -/
structure Reservation where
  mac : String
  ip : String
  hostname : String
  options : Options := []
  deriving DecidableEq, Repr

/-- A scope. -/
structure Scope where
  scopeId : String
  subnetMask : String
  name : String
  state : String
  startRange : String
  endRange : String
  leaseSeconds : ℤ
  exclusions : List (String × String) := []
  options : Options := []
  reservations : List Reservation := []
  policies : List Policy := []
  nextServer : String := ""
  bootFile : String := ""
  deriving DecidableEq, Repr

/-! ## The arithmetic of pools -/

/-- `split_pool_by_exclusions`: the range without each of the exclusions. An exclusion with a blank
end is passed over. -/
def splitPoolByExclusions (start end_ : String) (exclusions : List (String × String)) :
    Option (List Range) := do
  let s ← Ipv4.parse start
  let e ← Ipv4.parse end_
  let segments ← exclusions.foldlM (fun segments exc =>
    if exc.1 = "" ∨ exc.2 = "" then some segments
    else do
      let es ← Ipv4.parse exc.1
      let ee ← Ipv4.parse exc.2
      return segments.flatMap fun seg =>
        if ee < seg.1 ∨ seg.2 < es then [seg]
        else (if seg.1 < es then [(seg.1, es - 1)] else []) ++
          if ee < seg.2 then [(ee + 1, seg.2)] else []) [(s, e)]
  return segments.filter fun seg => decide (seg.1 ≤ seg.2)

/-- The segment holds the range that is wanted, by its ends. -/
def fits (want seg : Range) : Bool := decide (seg.1 ≤ want.1 ∧ want.2 ≤ seg.2)

/-- `_carve_pool`: the segments without a range that one of them holds, and whether one does. -/
def carvePool (segments : List Range) (want : Range) : List Range × Bool :=
  match segments.find? (fits want) with
  | none => (segments, false)
  | some seg =>
    (segments.eraseP (fits want) ++ ((if seg.1 < want.1 then [(seg.1, want.1 - 1)] else []) ++
      if want.2 < seg.2 then [(want.2 + 1, seg.2)] else []), true)

/-! ## Policies to classes -/

/-- `_WINDOWS_CONDITION_FIELDS`. -/
def windowsConditionFields : List (String × String) :=
  [("vendorclass", "vendor_class"), ("userclass", "user_class"), ("clientid", "client_id"),
    ("relayagentinformation", "circuit_id")]

/-- `_condition_to_rule`: the rule row of a condition. -/
def conditionToRule (cond : Condition) (context : String) : Except String Rule :=
  let ctype := (Text.strip cond.type).toLower
  if ctype = "macaddress" then
    let stripped := Text.rstrip cond.value '*'
    let hexOnly := Text.without (fun c => c == ':' || c == '-') stripped
    let field := if Text.endsWith cond.value '*' && hexOnly.length == 6 then "mac_oui" else "mac"
    .ok { field := field, op := "equals", value := stripped }
  else
    match windowsConditionFields.lookup ctype with
    | none => .error (context ++ ": condition type " ++ Text.repr cond.type ++ " is not supported")
    | some field => .ok { field := field, op := "equals", value := cond.value }

/-- A class of Kea, as the import writes it. -/
structure ClassDict where
  name : String
  test : String
  optionData : List Json
  deriving DecidableEq

/-- The rules of a policy and whether they are negated, or why it has none that Kea can express. -/
def policyRules (policy : Policy) (label : String) : Except String (List Rule × Bool) :=
  if policy.rules ≠ [] then .ok (policy.rules, policy.negate)
  else if policy.conditions = [] then .error s!"{label}: has no conditions — not imported"
  else
    let negative := fun cond : Condition =>
      (Text.strip (Text.orElse cond.operator "Equals")).toLower == "notequals"
    let toRules := policy.conditions.mapM fun cond =>
      (conditionToRule cond label).mapError fun why => why ++ " — policy not imported"
    if policy.conditions.all negative then
      if 1 < policy.conditions.length then
        .error s!"{label}: NotEquals is only supported on a single-condition policy — not imported"
      else toRules.map fun rules => (rules, true)
    else if policy.conditions.any negative then
      .error s!"{label}: mixes Equals and NotEquals conditions — not imported"
    else toRules.map fun rules => (rules, false)

/-- The expression of a policy, or why it has none. -/
def policyTest (policy : Policy) (label : String) : Except String String :=
  if ¬ policy.enabled then .error s!"{label}: disabled in Windows — not imported"
  else do
    let (rules, negate) ← policyRules policy label
    (buildExpression rules (if policy.condition = "OR" then .any else .all) negate).mapError
      fun why => s!"{label}: not imported: {why}"

/-- `policy_to_class`: the class of a policy, or none, and the warnings. -/
def policyToClass (optionsToKea : OptionsToKea) (policy : Policy) (context : String) :
    Option ClassDict × List String :=
  let label := context ++ " policy " ++ Text.repr policy.name
  match policyTest policy label with
  | .error why => (none, [why])
  | .ok test =>
    let renamed :=
      if validClassName policy.name then []
      else [label ++ ": name sanitized to " ++ Text.repr (sanitizeClassName policy.name) ++
        " for Kea"]
    let converted := optionsToKea policy.options label
    let options := if policy.options = [] then ([], []) else (converted.entries, converted.warnings)
    (some ⟨className policy.name, test, options.1⟩, renamed ++ options.2)

/-! ## Scopes to subnets -/

/-- `_prefix_len`: the number of ones of a mask, or 24 for a text that is none. -/
def prefixLen (mask : String) : ℕ :=
  let octets := (mask.toList.splitOn '.').mapM fun part => Text.int? (String.ofList part)
  match octets with
  | none => 24
  | some octets => (octets.map fun o => (Nat.toDigits 2 o.natAbs).count '1').sum

/-- The text of a pool. -/
def poolText (r : Range) : Option String := do
  let s ← Ipv4.toText r.1
  let e ← Ipv4.toText r.2
  return s ++ " - " ++ e

/-- A `subnet4` entry, as the import writes it. -/
structure SubnetBlock where
  id : ℤ
  subnet : String
  pools : List String
  validLifetime : ℤ
  optionData : List Json
  renewTimer : Option ℤ
  rebindTimer : Option ℤ
  nextServer : Option String
  bootFileName : Option String

/-- Everything that a scope becomes. -/
structure MappedScope where
  subnet : SubnetBlock
  classes : List ClassDict
  /-- The text of a pool, and the class that guards it. -/
  poolGuards : List (String × String)
  /-- The classes that guard the whole subnet. -/
  subnetGuards : List String
  warnings : List String

/-- What the walk through the policies of a scope has come to. -/
structure Carving where
  segments : List Range
  carved : List Range := []
  classes : List ClassDict := []
  poolGuards : List (String × String) := []
  subnetGuards : List String := []
  warnings : List String := []

/-- The ranges of a policy, one after the other, until one fits: the segments that are left, the range
that was carved out, and the ranges that did not fit before it. -/
def carveRanges (segments : List Range) :
    List (String × String) → Option (List Range × Option Range × List (String × String))
  | [] => some (segments, none, [])
  | r :: ranges =>
    if r.1 = "" ∨ r.2 = "" then carveRanges segments ranges
    else do
      let wantS ← Ipv4.parse r.1
      let wantE ← Ipv4.parse r.2
      match carvePool segments (wantS, wantE) with
      | (left, true) => return (left, some (wantS, wantE), [])
      | (_, false) =>
        let (left, carved, failed) ← carveRanges segments ranges
        return (left, carved, r :: failed)

/-- One policy of a scope. -/
def carvePolicy (optionsToKea : OptionsToKea) (context : String) (c : Carving) (policy : Policy) :
    Option Carving :=
  match policyToClass optionsToKea policy context with
  | (none, warnings) => some { c with warnings := c.warnings ++ warnings }
  | (some cls, warnings) => do
    let (segments, carved, failed) ← carveRanges c.segments policy.ipRanges
    let unfit := failed.map fun r =>
      context ++ ": policy " ++ Text.repr policy.name ++ "'s IP range " ++ r.1 ++ "-" ++ r.2 ++
        " doesn't sit inside a single existing pool — " ++ cls.name ++
        " attached to the whole subnet instead"
    let c : Carving := { c with
      segments := segments, classes := c.classes ++ [cls],
      warnings := c.warnings ++ warnings ++ unfit }
    match carved with
    | some r => do
      let text ← poolText r
      return { c with carved := c.carved ++ [r], poolGuards := c.poolGuards ++ [(text, cls.name)] }
    | none => return { c with subnetGuards := c.subnetGuards ++ [cls.name] }

/-- A lease timer in seconds, and the warning where it is no number. -/
def timer (converted : Converted) (context key : String) (code : ℕ) : Option ℤ × List String :=
  match converted.timers.lookup key with
  | none => (none, [])
  | some text =>
    match Text.int? text with
    | some n => (some n, [])
    | none => (none, [context ++ ": option " ++ toString code ++ " value isn't a number — skipped"])

/-- The policies of a scope in the order that they are processed in. -/
def Scope.inOrder (scope : Scope) : List Policy :=
  scope.policies.insertionSort fun p q => p.processingOrder ≤ q.processingOrder

/-- `scope_to_subnet`: the subnet of a scope, its pools, and the classes of its policies with what
they guard. `none` stands for the exception at a text that is no address. -/
def scopeToSubnet (optionsToKea : OptionsToKea) (scope : Scope) (jenId : ℤ) :
    Option MappedScope := do
  let context := "scope " ++ scope.name
  let segments ← splitPoolByExclusions scope.startRange scope.endRange scope.exclusions
  let covered :=
    if segments = [] ∧ scope.exclusions ≠ [] then
      [context ++ ": exclusions cover the entire range — no pools (reservation-only subnet)"]
    else []
  let c ← scope.inOrder.foldlM (carvePolicy optionsToKea context)
    { segments := segments, warnings := covered }
  let pools ← (c.segments ++ c.carved).mapM poolText
  let converted := optionsToKea scope.options context
  -- Windows hands out option 51 where it differs from the lease duration of the scope
  let opt51 := (converted.timers.lookup "valid-lifetime").bind Text.int?
  let validLifetime := opt51.getD scope.leaseSeconds
  let differs :=
    if validLifetime ≠ scope.leaseSeconds then
      [context ++ ": option 51 (" ++ toString validLifetime ++ "s) differs from LeaseDuration (" ++
        toString scope.leaseSeconds ++
        "s) — option 51 wins, matching what Windows actually handed clients"]
    else []
  let renew := timer converted context "renew-timer" 58
  let rebind := timer converted context "rebind-timer" 59
  return {
    subnet := {
      id := jenId
      subnet := scope.scopeId ++ "/" ++ toString (prefixLen scope.subnetMask)
      pools := pools
      validLifetime := validLifetime
      optionData := converted.entries
      renewTimer := renew.1
      rebindTimer := rebind.1
      nextServer := if scope.nextServer = "" then none else some scope.nextServer
      bootFileName := if scope.bootFile = "" then none else some scope.bootFile }
    classes := c.classes
    poolGuards := c.poolGuards
    subnetGuards := c.subnetGuards
    warnings := c.warnings ++ converted.warnings ++ differs ++ renew.2 ++ rebind.2 }

end JenKea.Import
