import JenKea.Lib.Digits
import JenKea.Lib.Except
import JenKea.Lib.IniParts

/-!
# The map of the subnets, in its section of the configuration

`derive_subnet_map`, `_reconcile_subnet_names` and the writers of `config.py`. A subnet is a line of `[subnets]` or
`[subnets6]`, its id the key, and its name, its prefix and the id it is paired with between commas. A write makes the
section anew from the map that is given; what the reader made nothing of is taken from the old section, its name
without commas.

`ipaddress.ip_network` is a parameter: whether it takes a text.
-/

namespace JenKea.SubnetMap

open Text

/-- A subnet of the map. Those of `[subnets]` are never paired. -/
structure Entry where
  name : String
  cidr : String
  pairedSubnet4Id : Option ℤ
  deriving DecidableEq

/-- Which of the two sections. -/
inductive Family
  | v4
  | v6
  deriving DecidableEq

/-- The name of the section. -/
def Family.sectionName : Family → String
  | .v4 => "subnets"
  | .v6 => "subnets6"

/-! ## Names -/

/-- `SUBNET_NAME_MAX_LEN`. -/
def subnetNameMaxLen : ℕ := 64

/-- `SUBNET_NAME_FORBIDDEN_CHARS`. -/
def subnetNameForbiddenChars : List Char := [',', '=', '[', ']']

/-- `invalid_subnet_name_reason`. -/
def invalidSubnetNameReason (name : String) : Option String :=
  if name = "" then some "Name is required"
  else if subnetNameMaxLen < name.length then
    some ("Name must be at most " ++ toString subnetNameMaxLen ++ " characters")
  else if subnetNameForbiddenChars.any fun c => name.toList.contains c then
    some "Name must not contain a comma, =, [ or ]"
  else if name.toList.any fun c => c.toNat < 0x20 ∨ c.toNat = 0x7f then
    some "Name must not contain a control character"
  else none

/-! ## Reading -/

/-- `[p.strip() for p in val.split(",")]`. -/
def parts (val : String) : List String := (val.toList.splitOn ',').map fun cs => strip (String.ofList cs)

/-- `parser.items(section)`: the defaults, and the options of the section over them. -/
def items (p : Ini) (options : Map String String) : Map String String := p.defaults.putAll options.entries

/-- `dict(parser.items(section))`, and nothing where there is no such section. -/
def rawSection (f : Family) (p : Ini) : Map String String :=
  match p.sections.get f.sectionName with
  | none => .empty
  | some options => items p options

section Reading

variable (isNetwork : String → Bool)

/-- The subnet of a line, where it is one. -/
def entryOf (f : Family) (val : String) : Option Entry :=
  match f, parts val with
  | _, [name, cidr] => if isNetwork cidr then some ⟨name, cidr, none⟩ else none
  | .v6, [name, cidr, paired] =>
    if isNetwork cidr then
      if paired = "" then some ⟨name, cidr, none⟩ else (toInt paired).map fun n => ⟨name, cidr, some n⟩
    else none
  | _, _ => none

/-- One line of the section; nothing where it is skipped. -/
def loaded (f : Family) (x : String × String) : Option (ℤ × Entry) :=
  (entryOf isNetwork f x.2).bind fun entry => (toInt x.1).map fun sid => (sid, entry)

/-- `derive_subnet_map`. -/
def deriveSubnetMap (f : Family) (p : Ini) : Map ℤ Entry :=
  Map.ofList ((rawSection f p).entries.filterMap (loaded isNetwork f))

end Reading

/-! ## Writing -/

/-- `str(n)`. -/
def intText (n : ℤ) : Except String String :=
  match strOf n with
  | none => .error ("Exceeds the limit (4300 digits) for integer string conversion; use " ++
      "sys.set_int_max_str_digits() to increase the limit")
  | some text => .ok text

/-- The check of one subnet of the map: its name is as it is stored, or such that it can be. -/
def checkName (stored : Map ℤ Entry) (x : ℤ × Entry) : Except String Unit :=
  if (stored.get x.1).map Entry.name = some x.2.name then .ok ()
  else
    match invalidSubnetNameReason x.2.name with
    | none => .ok ()
    | some reason => do
      let sid ← intText x.1
      .error ("subnet " ++ sid ++ ": " ++ reason)

/-- `name.replace(",", " ")`. -/
def withoutCommas (name : String) : String := String.ofList (name.toList.map fun c => if c = ',' then ' ' else c)

/-- The subnet that is made of a line that was not read: what stands after its last comma is the prefix. -/
def repaired (raw : String) : Option Entry :=
  match (parts raw).reverse with
  | cidr :: n :: names => some ⟨withoutCommas (commaJoin (n :: names).reverse), cidr, none⟩
  | _ => none

/-- One line of the section that there was. -/
def repairStep (stored reconciled : Map ℤ Entry) (x : String × String) : Map ℤ Entry :=
  match toInt x.1 with
  | none => reconciled
  | some sid =>
    if sid ∈ stored.keys ∨ sid ∈ reconciled.keys then reconciled
    else
      match repaired x.2 with
      | none => reconciled
      | some entry => reconciled.put sid entry

/-- `_reconcile_subnet_names`. -/
def reconcileSubnetNames (subnetDict stored : Map ℤ Entry) (raw : Map String String) :
    Except String (Map ℤ Entry) := do
  let _ ← subnetDict.entries.mapM (checkName stored)
  return raw.entries.foldl (repairStep stored) subnetDict

/-- The option of a subnet. Only `[subnets6]` has a third part. -/
def option (f : Family) (x : ℤ × Entry) : Except String (String × String) := do
  let key ← intText x.1
  match f, x.2.pairedSubnet4Id with
  | .v6, some paired => do
    let paired ← intText paired
    return (key, commaJoin [x.2.name, x.2.cidr, paired])
  | _, _ => return (key, commaJoin [x.2.name, x.2.cidr])

/-- `write_subnets` and `write_subnets6`, up to the write of the file: the section is made anew, at the end. -/
def writeSubnets (isNetwork : String → Bool) (f : Family) (subnetDict : Map ℤ Entry) (p : Ini) :
    Except String Ini := do
  let stored := deriveSubnetMap isNetwork f p
  let reconciled ← reconcileSubnetNames subnetDict stored (rawSection f p)
  let options ← reconciled.entries.mapM (option f)
  return ⟨p.defaults, (p.sections.erase f.sectionName).put f.sectionName (.ofList options)⟩

end JenKea.SubnetMap
