import JenKea.Import.Classes
import JenKea.Lib.Map

/-!
# What is known of a client

The inputs of an explanation in `jen/services/dhcp_explain.py`, and the bytes that a class expression may
be reading of them.
-/

namespace JenKea.Explain

open Import
open Text (isHexDigit hexValue fromHex)

/-- The bytes of a packet's field. -/
abbrev Bytes : Type := List UInt8

/-- What an explanation is asked about. An input that nobody supplied is empty. -/
structure Client where
  mac : String := ""
  clientId : String := ""
  vendorClass : String := ""
  userClass : String := ""
  hostname : String := ""
  circuitId : String := ""
  remoteId : String := ""
  /-- The user class as it was sent, in hexadecimal. -/
  userClassBytes : String := ""
  /-- The circuit id as it was sent, in hexadecimal. -/
  circuitIdHex : String := ""

/-- `re.sub(r"[:\-\s]", "", text)`. -/
def bare (text : String) : String := Text.without (fun c => c == ':' || c == '-' || Text.isSpace c) text

/-- `_norm_mac`. -/
def normMac (mac : String) : String := (bare mac).toLower

/-! ## Bytes -/

/-- The bytes that a text writes in hexadecimal, where it is not empty. -/
def hexBytes (text : String) : Option Bytes := if text = "" then none else fromHex text.toList

/-- `text.encode()`. -/
def encode (text : String) : Bytes := text.toList.flatMap String.utf8EncodeChar

/-! ## Accessors -/

/-- The accessors of `ACCESSORS`. -/
inductive Accessor where
  | vendorClass
  | userClass
  | hostname
  | mac
  | clientId
  | circuitId
  | remoteId
  deriving DecidableEq, Repr

/-- How an accessor is written. -/
def Accessor.text : Accessor → String
  | .vendorClass => "option[60].hex"
  | .userClass => "option[77].hex"
  | .hostname => "option[12].text"
  | .mac => "pkt4.mac"
  | .clientId => "option[61].hex"
  | .circuitId => "relay4[1].hex"
  | .remoteId => "relay4[2].hex"

/-- `ACCESSORS`, by what is written. -/
def accessorOf (text : List Char) : Option Accessor :=
  [Accessor.vendorClass, .userClass, .hostname, .mac, .clientId, .circuitId, .remoteId].find?
    fun acc => acc.text.toList = text

/-- The input that an accessor reads, and its name. -/
def Accessor.input (client : Client) : Accessor → String × String
  | .vendorClass => (client.vendorClass, "vendor_class")
  | .userClass => (client.userClass, "user_class")
  | .hostname => (client.hostname, "hostname")
  | .mac => (client.mac, "mac")
  | .clientId => (client.clientId, "client_id")
  | .circuitId => (client.circuitId, "circuit_id")
  | .remoteId => (client.remoteId, "remote_id")

/-- The input that holds the bytes themselves, where there is one. -/
def Accessor.exact (client : Client) : Accessor → Option (String × String)
  | .userClass => some (client.userClassBytes, "user_class_bytes")
  | .circuitId => some (client.circuitIdHex, "circuit_id_hex")
  | _ => none

/-- What an input is written in. -/
inductive InputKind where
  | text
  | mac
  | hex

/-- The kind of an accessor's input. -/
def Accessor.kind : Accessor → InputKind
  | .vendorClass | .userClass | .hostname | .circuitId => .text
  | .mac => .mac
  | .clientId | .remoteId => .hex

/-- `_client_bytes`. -/
def clientBytes (client : Client) (acc : Accessor) : Option Bytes × String :=
  let (raw, field) := acc.input client
  if raw = "" then (none, field)
  else
    let raw := Text.strip raw
    let body := bare raw
    match acc.kind with
    | .text => (some (encode raw), field)
    | .mac => (if body.length = 12 then hexBytes body else none, field)
    | .hex =>
      match hexBytes body with
      | some bytes => (some bytes, field)
      | none => (some (encode raw), field)

/-- `_candidates`: the bytes that an accessor may be reading, and the input that would tell. -/
def candidates (client : Client) (acc : Accessor) : Option (List Bytes) × String :=
  match acc.exact client with
  | some (exact, exactName) =>
    let exact := bare exact
    if exact ≠ "" then ((hexBytes exact).map fun bytes => [bytes], exactName)
    else
      let (raw, field) := acc.input client
      let text := Text.strip raw
      if text = "" then (none, field)
      else
        let plain := encode text
        if acc = .userClass ∧ plain.length ≤ 255 then
          (some [plain, UInt8.ofNat plain.length :: plain], exactName)
        else (some [plain], field)
  | none =>
    let (val, name) := clientBytes client acc
    (val.map fun bytes => [bytes], name)

/-- The bytes that the client sends, where what is known of it says so. -/
def Client.sends (client : Client) (acc : Accessor) : Option Bytes :=
  match (candidates client acc).1 with
  | some [bytes] => some bytes
  | _ => none

/-! ## Classes -/

/-- The classes so far, each matched, not matched, or undecided. -/
abbrev Members : Type := Map String (Option Bool)

/-- `members.get(name)`: a class that is not there is undecided. -/
def Members.state (members : Members) (name : String) : Option Bool := (members.get name).join

end JenKea.Explain
