import Mathlib.Data.List.Sort
import JenKea.Lib.Ipv4
import JenKea.Lib.Map
import JenKea.Lib.Text

/-!
# The names of the DNS sync

What the plugin `dns-sync` asks a DNS server to hold: the names of three sources merged by address,
brought to DNS labels, and told apart where two addresses have one name.
-/

namespace JenKea.Dns

open Text

/-! ## Addresses and names -/

/-- An IPv4 address, as the sources spell it. -/
structure Address where
  text : String
  isIpv4 : (Ipv4.parse text).isSome
  deriving DecidableEq

/-- `ipaddress.IPv4Address(ip)`, by its number. -/
def Address.number (a : Address) : ℤ := (Ipv4.parse a.text).get a.isIpv4

/-- `[a-z0-9]`. -/
def isAlnum (c : Char) : Bool := c.isLower || c.isDigit

/-- `[a-z0-9-]`. -/
def isLabelChar (c : Char) : Bool := isAlnum c || c == '-'

/-- A name that the plugin writes: the characters of a label, and at least one. -/
structure Name where
  text : String
  chars : text.toList ≠ [] ∧ text.toList.all isLabelChar
  deriving DecidableEq

/-- A name is its text. -/
theorem Name.eq_of_text {name name' : Name} (h : name.text = name'.text) : name = name' := by
  cases name
  cases name'
  simpa using h

/-- An address is its text. -/
theorem Address.eq_of_text {ip ip' : Address} (h : ip.text = ip'.text) : ip = ip' := by
  cases ip
  cases ip'
  simpa using h

/-- `_LABEL_RE`. -/
def isLabel (cs : List Char) : Bool :=
  cs.head?.any isAlnum && cs.getLast?.any isAlnum && cs.all isLabelChar && cs.length ≤ 63

/-- A character of `text.lower()`. Of the characters beyond ASCII only the Kelvin sign becomes one of a
label. -/
def lowerChar (c : Char) : Char := if c.toNat = 0x212a then 'k' else c.toLower

/-- `text.replace("_", "-")`, of one character. -/
def dashed (c : Char) : Char := if c = '_' then '-' else c

/-- `normalize_name`. -/
def normalizeName (raw : String) : Except String Name :=
  let s := (strip raw).toList.map fun c => dashed (lowerChar c)
  if s = [] then .error "empty hostname"
  else if h : isLabel s = true then
    .ok ⟨String.ofList s, by
      rw [String.toList_ofList]
      unfold isLabel at h
      simp only [Bool.and_eq_true] at h
      refine ⟨fun hnil => ?_, h.1.2⟩
      rw [hnil] at h
      simp at h⟩
  else .error s!"{Text.repr raw} is not a valid DNS label"

/-! ## The sources -/

/-- The source of a record. -/
inductive Source where
  | lease
  | reservation
  | ipam
  deriving DecidableEq, Repr

/-- `_SOURCES`: the source's key in a target. -/
def Source.key : Source → String
  | .lease => "leases"
  | .reservation => "reservations"
  | .ipam => "ipam"

/-- What a source knows: an address, and its hostname. -/
structure Candidate where
  ip : Address
  hostname : String

/-- The candidates of one source, written over those before. -/
def addSource (source : Source) (candidates : List Candidate)
    (out : Map Address (String × Source)) : Map Address (String × Source) :=
  out.putAll ((candidates.filter fun e => e.hostname ≠ "").map fun e => (e.ip, e.hostname, source))

/-- `build_desired`: a reservation counts before a lease, and a lease before an IPAM entry. -/
def buildDesired (sourcesEnabled : List String) (leases reservations ipamEntries : List Candidate) :
    Map Address (String × Source) :=
  let out := Map.empty
  let out := if Source.ipam.key ∈ sourcesEnabled then addSource .ipam ipamEntries out else out
  let out := if Source.lease.key ∈ sourcesEnabled then addSource .lease leases out else out
  if Source.reservation.key ∈ sourcesEnabled then addSource .reservation reservations out else out

/-! ## Names told apart -/

/-- The suffix of a name at an address, where other addresses have the name too: the lowest address keeps
the bare name. -/
def suffixFor (candidates : List (Address × Name)) (name : Name) (ip : Address) : Option ℕ :=
  let ips := ((candidates.filter fun x => x.2 = name).map Prod.fst).dedup
  let ordered := ips.mergeSort fun a b => a.number ≤ b.number
  if ips.length ≤ 1 then none
  else match ordered.idxOf ip with
    | 0 => none
    | i + 1 => some (i + 2)

/-- A name with a suffix. -/
def Name.suffixed (name : Name) (n : ℕ) : Name where
  text := String.ofList (name.text.toList ++ '-' :: Nat.toDigits 10 n)
  chars := by
    have hdigits : (Nat.toDigits 10 n).all isLabelChar = true := by
      refine List.all_eq_true.mpr fun c hc => ?_
      have hdigit : c.isDigit = true := Nat.isDigit_of_mem_toDigits (by norm_num) (by norm_num) hc
      simp [isLabelChar, isAlnum, hdigit]
    have hdash : isLabelChar '-' = true := by decide
    rw [String.toList_ofList]
    exact ⟨by simp, by simp [hdigits, hdash, name.chars.2]⟩

/-- `dedupe_names`. -/
def dedupeNames (candidates : List (Address × Name)) : List (Address × Name) :=
  candidates.map fun x =>
    (x.1, match suffixFor candidates x.2 x.1 with
      | some suffix => x.2.suffixed suffix
      | none => x.2)

/-- `normalize_desired`: the names with their addresses and sources, and what was skipped. -/
def normalizeDesired (rawDesired : Map Address (String × Source)) :
    Map Name (Address × Source) × List (Address × String × String) :=
  let normalized := rawDesired.entries.filterMap fun x =>
    match normalizeName x.2.1 with
    | .ok name => some (x.1, name)
    | .error _ => none
  let skipped := rawDesired.entries.filterMap fun x =>
    match normalizeName x.2.1 with
    | .ok _ => none
    | .error reason => some (x.1, x.2.1, reason)
  let source := fun ip => ((rawDesired.get ip).map Prod.snd).getD .lease
  (Map.ofList ((dedupeNames normalized).map fun x => (x.2, x.1, source x.1)), skipped)

/-! ## Targets -/

/-- A row of the targets. -/
structure Target where
  enabled : Bool
  previewed : Bool
  /-- The sources, joined by commas. -/
  sources : String
  /-- `_target_subnets`. -/
  subnetIds : List ℤ

/-- The sources that the target enables. -/
def Target.enabledSources (t : Target) : List String :=
  (t.sources.toList.splitOn ',').map String.ofList

/-- `_desired_for_target`, of what the three queries answered: a query that fails answers with `[]`, and
none is made for a target without subnets. -/
def desiredOf (t : Target) (answer : Source → Option (List Candidate)) :
    Map Name (Address × Source) × List (Address × String × String) :=
  let rows := fun source => if t.subnetIds = [] then [] else (answer source).getD []
  normalizeDesired (buildDesired t.enabledSources (rows .lease) (rows .reservation) (rows .ipam))

end JenKea.Dns
