import JenKea.Lib.Text
import JenKea.Lib.Hex

/-!
# Classification expressions

The rule builder of `jen/services/kea_classes.py`: rule rows to the text of a Kea expression, and the
names of `jen/services/auth.py` and `jen/services/win_dhcp_import.py` that a Kea class can have.
-/

namespace JenKea.Import

/-- A rule row. -/
structure Rule where
  field : String
  op : String := "equals"
  value : String := ""
  deriving DecidableEq, Repr

/-- What a field of `FIELDS` is compared as. -/
inductive Kind where
  | string
  | userClassLp
  | mac
  | oui
  | hex
  | member
  deriving DecidableEq, Repr

/-- An entry of `FIELDS`. -/
structure Field where
  /-- Kea's name for the value; a class membership has none. -/
  kea : String
  kind : Kind
  ops : List String

/-- `FIELDS`. -/
def fields : List (String × Field) :=
  [("vendor_class", ⟨"option[60].hex", .string, ["equals", "starts_with"]⟩),
    ("user_class", ⟨"option[77].hex", .string, ["equals", "starts_with"]⟩),
    ("user_class_lp", ⟨"option[77].hex", .userClassLp, ["equals", "starts_with"]⟩),
    ("hostname", ⟨"option[12].text", .string, ["equals", "starts_with"]⟩),
    ("mac", ⟨"pkt4.mac", .mac, ["equals"]⟩),
    ("mac_oui", ⟨"substring(pkt4.mac,0,3)", .oui, ["equals"]⟩),
    ("client_id", ⟨"option[61].hex", .hex, ["equals"]⟩),
    ("circuit_id", ⟨"relay4[1].hex", .string, ["equals"]⟩),
    ("remote_id", ⟨"relay4[2].hex", .hex, ["equals"]⟩),
    ("member", ⟨"", .member, ["equals"]⟩)]

/-- `_hexify`: the bytes that a text writes in hexadecimal, as Kea writes them. -/
def hexify (value label : String) (exactBytes : Option ℕ) : Except String String :=
  let body := Text.without (fun c => c == ':' || c == '-' || Text.isSpace c) value
  if body = "" ∨ ¬ body.toList.all Text.isHexDigit ∨ body.length % 2 = 1 then
    .error s!"{label}: must be an even-length hex string (e.g. 00:11:22:33:44:55)"
  else
    match exactBytes with
    | some n =>
      if body.length ≠ n * 2 then
        .error (label ++ ": must be exactly " ++ toString n ++ " bytes (" ++ toString (n * 2) ++
          " hex digits)")
      else .ok ("0x" ++ body.toLower)
    | none => .ok ("0x" ++ body.toLower)

/-- `_stringify`: a text without the blanks around it, which a quoted literal of Kea can hold. -/
def stringify (value label : String) : Except String String :=
  let value := Text.strip value
  if value = "" then .error s!"{label}: a value is required"
  else if value.toList.contains Text.singleQuote then
    .error s!"{label}: cannot contain a single quote — Kea string literals have no escape sequence"
  else .ok value

/-- A literal of Kea. -/
def quoted (value : String) : String :=
  String.singleton Text.singleQuote ++ value ++ String.singleton Text.singleQuote

/-- `_rule_expression`: the comparison that a rule row makes. -/
def ruleExpression (rule : Rule) : Except String String :=
  match fields.lookup rule.field with
  | none => .error ("unknown field " ++ Text.repr rule.field)
  | some entry =>
    let kea := entry.kea
    if ¬ rule.op ∈ entry.ops then
      .error ("op " ++ Text.repr rule.op ++ " is not valid for field " ++ Text.repr rule.field)
    else
      match entry.kind with
      | .member => do
        let name ← stringify rule.value "member"
        return "member(" ++ quoted name ++ ")"
      | .string => do
        let value ← stringify rule.value rule.field
        if rule.op = "starts_with" then
          return "substring(" ++ kea ++ ",0," ++ toString value.length ++ ") == " ++ quoted value
        else return kea ++ " == " ++ quoted value
      | .userClassLp => do
        let value ← stringify rule.value rule.field
        let raw := value.toUTF8.toList
        if 255 < raw.length then .error (rule.field ++ ": a user class is at most 255 bytes")
        else if rule.op = "starts_with" then
          return "substring(" ++ kea ++ ",1," ++ toString raw.length ++ ") == " ++ quoted value
        else return kea ++ " == 0x" ++ Text.hex (UInt8.ofNat raw.length :: raw)
      | .mac => do
        let value ← hexify rule.value rule.field (some 6)
        return kea ++ " == " ++ value
      | .oui => do
        let value ← hexify rule.value rule.field (some 3)
        return kea ++ " == " ++ value
      | .hex => do
        let value ← hexify rule.value rule.field none
        return kea ++ " == " ++ value

/-- How the rules of a class are combined. -/
inductive Combinator where
  | all
  | any
  deriving DecidableEq, Repr

/-- `build_expression`: the expression of a list of rule rows. -/
def buildExpression (rules : List Rule) (combinator : Combinator) (negate : Bool) :
    Except String String :=
  if rules = [] then .error "at least one rule is required"
  else do
    let clauses ← rules.mapM ruleExpression
    let body :=
      match clauses with
      | [clause] => clause
      | _ => (match combinator with
          | .all => " and "
          | .any => " or ").intercalate (clauses.map fun c => "(" ++ c ++ ")")
    return if negate then "not (" ++ body ++ ")" else body

/-! ## The names of classes -/

/-- A letter of ASCII. -/
def isAsciiLetter (c : Char) : Bool :=
  (97 ≤ c.toNat && c.toNat ≤ 122) || (65 ≤ c.toNat && c.toNat ≤ 90)

/-- A character that the name of a class can have. -/
def isNameChar (c : Char) : Bool := isAsciiLetter c || c.isDigit || c == '_' || c == '-'

/-- `valid_class_name`: a letter, and up to 63 letters, digits, underscores, and hyphens, between
blanks. -/
def validClassName (value : String) : Bool :=
  match (Text.strip value).toList with
  | [] => false
  | c :: cs => isAsciiLetter c && cs.all isNameChar && cs.length ≤ 63

/-- `_sanitize_class_name`: a name that a class can have. -/
def sanitizeClassName (name : String) : String :=
  let sanitized := String.ofList (name.toList.map fun c => if isNameChar c then c else '_')
  let sanitized :=
    if sanitized.toList.head?.all fun c => !isAsciiLetter c then "policy_" ++ sanitized
    else sanitized
  Text.take 64 sanitized

/-- What a class is called that is made from a policy of this name. -/
def className (name : String) : String :=
  if validClassName name then name else sanitizeClassName name

end JenKea.Import
