import JenKea.Lib.Digits
import JenKea.Lib.Ipv4

/-!
# IPv4 networks, as Python's `ipaddress` reads them

`ipaddress.IPv4Network(text, strict=False)`: an address alone, or an address and the length of its prefix, a
netmask, or a hostmask. It raises `ValueError` where there is no network.
-/

namespace JenKea.Ipv4

/-- A network: its first address, and the length of its prefix. -/
structure Network where
  address : ℤ
  prefixLength : ℕ
  deriving DecidableEq, Repr

/-- The addresses that a prefix of this length leaves open. -/
def hosts (prefixLength : ℕ) : ℤ := 2 ^ (32 - prefixLength)

/-- `_prefix_from_prefix_string`. -/
def prefixOfText (mask : String) : Option ℕ :=
  let cs := mask.toList
  if cs ≠ [] ∧ cs.all Char.isDigit ∧ cs.length ≤ Text.digitLimit ∧ decimal cs ≤ 32 then
    some (decimal cs)
  else none

/-- `_prefix_from_ip_int`: the ones of a netmask lead its zeros. -/
def prefixOfNumber (n : ℤ) : Option ℕ := (List.range 33).find? fun p => n = 2 ^ 32 - hosts p

/-- `_make_netmask`. -/
def prefixOf (mask : String) : Option ℕ :=
  match prefixOfText mask with
  | some p => some p
  | none => do
    let n ← parse mask
    match prefixOfNumber n with
    | some p => return p
    | none => prefixOfNumber (2 ^ 32 - 1 - n)

/-- `IPv4Network(text, strict=False)`. -/
def parseNetwork (text : String) : Option Network := do
  let (address, length) ← match text.toList.splitOn '/' with
    | [address] => some (String.ofList address, 32)
    | [address, mask] => (prefixOf (String.ofList mask)).map fun length => (String.ofList address, length)
    | _ => none
  let n ← parse address
  return ⟨n - n % hosts length, length⟩

/-- The last address of a network. -/
def Network.broadcast (n : Network) : ℤ := n.address + hosts n.prefixLength - 1

example : parseNetwork "10.1.2.3/0.0.0.255" = some ⟨167838208, 24⟩ := by decide

end JenKea.Ipv4
