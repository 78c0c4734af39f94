import JenKea.Lib.Hex
import JenKea.Lib.Map
import JenKea.Lib.Text
import Mathlib.Data.List.Sort

/-!
# The exchanges that a log shows of a client

`transactions` and `latest_transaction` of `services/kea_log_inputs.py`: a scan of the lines that takes the headers of one
client, each with its transaction id, and with a packet dump the rows after it, up to the next header.

A line is what the patterns of the module find in it: the time that `_when` reads from it is in microseconds.
-/

namespace JenKea.KeaLog.Inputs

/-- A line that `_HEADER_RE` matches. -/
structure Header where
  ts : String
  /-- `_when(ts)` -/
  time : Option ℤ
  id : String
  /-- what `_CLASSES_RE` finds -/
  listed : Option String
  /-- what `assigned on (\w+) message` finds -/
  message : String
  deriving DecidableEq

/-- A line that `_OPTION_RE` matches. -/
structure OptionRow where
  /-- it is indented by four at least -/
  nested : Bool
  code : ℕ
  /-- what `"(.*)" \(string\)` finds in its value -/
  quoted : Option String
  /-- `re.findall(r"[0-9a-fA-F]{2}", value)` -/
  octets : List String
  /-- the bytes in hexadecimal that its value starts with -/
  lead : List UInt8
  deriving DecidableEq

/-- A line of the log. -/
structure Line where
  header : Option Header
  /-- `_LABEL_RE`: the hardware address and the client id -/
  label : Option (String × String)
  /-- `_TID_RE` -/
  tid : Option String
  /-- `_OPTION_RE` -/
  row : Option OptionRow
  deriving DecidableEq

/-- `[body[i : i + 2] for i in range(0, len(body), 2)]`, of a body of even length. -/
def pairs : List Char → List String
  | a :: b :: cs => String.ofList [a, b] :: pairs cs
  | _ => []

/-- `_norm_mac`. -/
def normMac (mac : String) : String :=
  let body := mac.toLower.toList.filter fun c => c ∈ "0123456789abcdef".toList
  if body.length = 12 then String.intercalate ":" (pairs body) else ""

/-- `_hex_text`. -/
def hexText (value : String) : String :=
  let body := value.toList.filter fun c => c ≠ ':' ∧ ¬ Text.isSpace c
  if body ≠ [] ∧ body.all Text.isHexDigit ∧ body.length % 2 = 0 then (String.ofList body).toLower else ""

/-- `raw.hex()`. -/
def hexOf (raw : List UInt8) : String := String.join (raw.map Text.hexByte)

/-- `_printable`. -/
def printable (raw : List UInt8) : String :=
  if raw ≠ [] ∧ raw.all fun b => 32 ≤ b ∧ b < 127 then String.ofList (raw.map fun b => Char.ofNat b.toNat)
  else hexOf raw

/-- `_user_class_text`. -/
def userClassText (raw : List UInt8) : String :=
  match raw with
  | n :: rest =>
    if n.toNat = rest.length ∧ rest.all fun b => 32 ≤ b ∧ b < 127 then
      String.ofList (rest.map fun b => Char.ofNat b.toNat)
    else printable raw
  | [] => ""

/-- A packet dump. -/
structure Query where
  ts : String
  hostname : String
  vendorClass : String
  clientId : String
  userClass : String
  userClassBytes : String
  circuitId : String
  circuitIdHex : String
  remoteId : String
  deriving DecidableEq

/-- One row of a dump, and whether the relay agent's option is open after it. -/
def readRow (s : Query × Bool) (row : OptionRow) : Query × Bool :=
  let (out, inRelay) := s
  if !row.nested then
    (match row.code, row.quoted with
      | 12, some text => { out with hostname := text }
      | 60, some text => { out with vendorClass := text }
      | 61, _ => { out with clientId := (String.intercalate ":" row.octets).toLower }
      | 77, _ => { out with userClass := userClassText row.lead, userClassBytes := hexOf row.lead }
      | _, _ => out, row.code = 82)
  else if inRelay then
    (match row.code with
      | 1 => { out with circuitId := printable row.lead, circuitIdHex := hexOf row.lead }
      | 2 => { out with remoteId := hexOf row.lead }
      | _ => out, true)
  else s

/-- `_read_dump`. -/
def readDump (ts : String) (block : List Line) : Query :=
  ((block.filterMap Line.row).foldl readRow (⟨ts, "", "", "", "", "", "", "", ""⟩, false)).1

/-- A list of classes that Kea assigned. -/
structure ClassList where
  classes : List String
  ts : String
  id : String
  message : String
  deriving DecidableEq

/-- `CLASS_LIST_IDS`. -/
def CLASS_LIST_IDS : List String := ["DHCP4_CLASSES_ASSIGNED", "DHCP4_CLASSES_ASSIGNED_AFTER_SUBNET_SELECTION"]

/-- The header of a packet dump. -/
def queryData : String := "DHCP4_QUERY_DATA"

/-- `TRANSACTION_GAP_S`, in microseconds. -/
def TRANSACTION_GAP : ℤ := 60000000

/-- A header of the client, and the rows of its dump. -/
structure Evidence where
  header : Header
  cid : String
  tid : String
  dump : Option (List Line)
  deriving DecidableEq

namespace Evidence

/-- The client id that it names. -/
def clientId (e : Evidence) : Option (String × String) :=
  let cid := hexText e.cid
  if cid = "" then none else some (String.intercalate ":" (pairs cid.toList), e.header.ts)

/-- The classes that it lists. -/
def classes (e : Evidence) : Option ClassList :=
  if e.header.id ∈ CLASS_LIST_IDS then
    e.header.listed.map fun listed =>
      { classes := (((listed.toList.splitOn ',').map fun c => Text.strip (String.ofList c)).filter fun c => c ≠ "")
        ts := e.header.ts
        id := e.header.id
        message := e.header.message }
  else none

/-- The packet that it dumps. -/
def query (e : Evidence) : Option Query := e.dump.map (readDump e.header.ts)

end Evidence

/-- An exchange while the scan goes on: `tx`. -/
structure Tx where
  tid : String
  first : String
  last : String
  cid : Option (String × String)
  classes : Option ClassList
  query : Option Query
  lastTime : Option ℤ
  order : ℕ
  deriving DecidableEq

/-- An exchange. -/
structure Exchange where
  tid : String
  first : String
  last : String
  cid : Option (String × String)
  classes : Option ClassList
  query : Option Query
  complete : Bool
  deriving DecidableEq

/-- What is kept of an exchange. -/
def Tx.exchange (tx : Tx) : Exchange where
  tid := tx.tid
  first := tx.first
  last := tx.last
  cid := tx.cid
  classes := tx.classes
  query := tx.query
  complete := tx.classes.isSome || tx.query.isSome

/-- What the scan keeps. -/
structure Walk where
  openByTid : Map String Tx
  done : List Tx
  order : ℕ

/-- Before the first line. -/
def Walk.start : Walk := ⟨.empty, [], 0⟩

/-- The later time is more than the gap after the earlier one. -/
def apart (earlier later : Option ℤ) : Bool :=
  earlier.any fun t => later.any fun t' => TRANSACTION_GAP < t' - t

/-- A new exchange. -/
def Tx.new (e : Evidence) : Tx := ⟨e.tid, e.header.ts, e.header.ts, none, none, none, e.header.time, 0⟩

/-- Another header of an exchange. -/
def Tx.touch (tx : Tx) (e : Evidence) (order : ℕ) : Tx :=
  { tx with
    last := e.header.ts
    lastTime := e.header.time
    order := order
    cid := e.clientId.or tx.cid
    classes := e.classes.or tx.classes
    query := e.query.or tx.query }

/-- One header of the client. -/
def Walk.add (w : Walk) (e : Evidence) : Walk :=
  let order := w.order + 1
  match w.openByTid.get e.tid with
  | some tx =>
    if apart tx.lastTime e.header.time then
      { openByTid := (w.openByTid.erase e.tid).put e.tid ((Tx.new e).touch e order)
        done := w.done ++ [tx]
        order := order }
    else { w with openByTid := w.openByTid.put e.tid (tx.touch e order), order := order }
  | none => { w with openByTid := w.openByTid.put e.tid ((Tx.new e).touch e order), order := order }

/-- A header of the client, without the rows after it. -/
def ownOf (needle : String) (l : Line) : Option Evidence := do
  let header ← l.header
  let label ← l.label
  let tid ← l.tid
  if normMac label.1 = needle then some ⟨header, label.2, tid, none⟩ else none

/-- A line that is no header. -/
def isRow (l : Line) : Bool := l.header.isNone

/-- The loop over the lines. -/
def scan (needle : String) (w : Walk) : List Line → Walk
  | [] => w
  | l :: ls =>
    match ownOf needle l with
    | none => scan needle w ls
    | some e =>
      if e.header.id = queryData then
        scan needle (w.add { e with dump := some (ls.takeWhile isRow) }) (ls.dropWhile isRow)
      else scan needle (w.add e) ls
termination_by ls => ls.length
decreasing_by
  all_goals
    have := (List.dropWhile_sublist (l := ls) isRow).length_le
    simp only [List.length_cons]
    omega

/-- `transactions`. -/
def transactions (lines : List Line) (mac : String) : List Exchange :=
  let needle := normMac mac
  if needle = "" then []
  else
    let w := scan needle .start lines
    ((w.done ++ w.openByTid.entries.map Prod.snd).insertionSort fun a b => a.order ≤ b.order).map Tx.exchange

/-- `latest_transaction`. -/
def latestTransaction (lines : List Line) (mac : String) : Option Exchange :=
  let seen := transactions lines mac
  let complete := seen.filter Exchange.complete
  (if complete = [] then seen else complete).getLast?

end JenKea.KeaLog.Inputs
