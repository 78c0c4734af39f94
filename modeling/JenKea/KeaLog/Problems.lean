import JenKea.Lib.Map
import Mathlib.Data.Int.Notation
import Mathlib.Data.List.Infix
import Mathlib.Data.List.Sort

/-!
# The problems that Kea's log names a client for

`problem_events` of `services/kea_log_trace.py`: a walk over the lines in their order, which keeps who was last given an
address, which subnet Kea selected for a transaction, and the event of each NAK by its client and transaction id, so
that the line that says why and the `DHCPNAK` that is sent are one event.

A line is what the patterns of the module find in it. `_summarize` is one of them.
-/

namespace JenKea.KeaLog

/-- A line that `_LINE_RE` matches, its time in microseconds. -/
structure Line where
  /-- `_parse_ts(m.group("ts"))` -/
  ts : Option ℤ
  level : String
  id : String
  rest : String
  /-- `norm_mac` of what `_LABEL_MAC_RE` finds -/
  mac : Option String
  /-- `_TID_RE` -/
  tid : Option String
  /-- `_REQ_IP_RE` -/
  requested : Option String
  /-- `_ADDR_RE` -/
  address : Option String
  /-- `_LEASE_RE` -/
  lease : Option String
  /-- `_SUBNET_ID_RE` -/
  subnet : Option ℕ
  /-- `_IP_RE.findall` -/
  ips : List String
  /-- `_summarize(msg_id, rest)[0]` -/
  summary : String
  deriving DecidableEq

/-- `LOG_PROBLEM_KINDS`. -/
inductive Kind
  | nak
  | decline
  | drop
  | subnetSelectionFailed
  | ddnsFailed
  deriving DecidableEq

/-- `_PROBLEM_KIND_OF_ID`. -/
def problemKindOfId : Map String Kind := .ofList
  [("DHCP4_PACKET_NAK_0001", .nak), ("DHCP4_PACKET_NAK_0002", .nak), ("DHCP4_PACKET_NAK_0003", .nak),
    ("DHCP4_PACKET_NAK_0004", .nak), ("DHCP4_DECLINE_LEASE", .decline), ("DHCP4_DECLINE_LEASE_MISMATCH", .decline),
    ("DHCP4_DECLINE_LEASE_NOT_FOUND", .decline), ("DHCP4_PACKET_DROP_0007", .drop), ("DHCP4_PACKET_DROP_0008", .drop),
    ("DHCP4_SUBNET_SELECTION_FAILED", .subnetSelectionFailed), ("DHCP4_DDNS_REQUEST_SEND_FAILED", .ddnsFailed)]

/-- The id of the line that says that a packet was sent. -/
def packetSend : String := "DHCP4_PACKET_SEND"

/-- The line of a `DHCPNAK` that is sent. -/
def Line.sendsNak (l : Line) : Bool := l.id = packetSend ∧ "DHCPNAK".toList <:+: l.rest.toList

/-- The kind of problem that a line tells, if it tells one. -/
def Line.kind (l : Line) : Option Kind :=
  if l.sendsNak then some .nak
  else if "DHCP4_PACKET_DROP".toList <+: l.id.toList ∧ problemKindOfId.get l.id = none then some .drop
  else problemKindOfId.get l.id

/-- `_client_ip`. -/
def Line.clientIp (l : Line) : String :=
  if l.id = packetSend then "" else ((l.requested.or l.address).or l.lease).getD ""

/-- An event of `problem_events`. -/
structure Event where
  ts : ℤ
  level : String
  id : String
  kind : Kind
  mac : String
  ip : String
  detail : String
  tid : String
  subnetId : Option ℕ
  deriving DecidableEq

/-- A client and one of its transaction ids. -/
abbrev Key := String × String

/-- The key of an event. -/
def Event.key (e : Event) : Key := (e.mac, e.tid)

/-- What the walk keeps. The event of a NAK is kept by its place among the events. -/
structure Walk where
  ipToMac : Map String String
  ipTidToMac : Map (String × String) String
  subnetOfTx : Map Key (ℤ × ℕ)
  events : List Event
  naks : Map Key ℕ

namespace Walk

/-- Before the first line. -/
def start : Walk := ⟨.empty, .empty, .empty, [], .empty⟩

/-- Who was given an address. -/
def recordLease (s : Walk) (l : Line) : Walk :=
  if l.id = "DHCP4_LEASE_OFFER" ∨ l.id = "DHCP4_LEASE_ALLOC" ∨ l.id = "DHCP4_LEASE_REUSE" then
    match l.mac, l.lease with
    | some owner, some ip =>
      { s with
        ipToMac := s.ipToMac.put ip owner
        ipTidToMac := (l.tid.map fun tid => s.ipTidToMac.put (ip, tid) owner).getD s.ipTidToMac }
    | _, _ => s
  else s

/-- Which subnet Kea selected. -/
def recordSubnet (s : Walk) (l : Line) : Walk :=
  if l.id = "DHCP4_SUBNET_SELECTED" then
    match l.mac, l.tid, l.subnet, l.ts with
    | some mac, some tid, some subnet, some ts => { s with subnetOfTx := s.subnetOfTx.put (mac, tid) (ts, subnet) }
    | _, _, _, _ => s
  else s

/-- The client and the address of a failed DNS update: of those that the line mentions and that were given to a client,
the first one that was in the same transaction. -/
def ddnsClient (s : Walk) (l : Line) : String × String :=
  let named := l.ips.filter fun a => (s.ipToMac.get a).isSome
  let within := fun a => l.tid.all fun tid => (s.ipTidToMac.get (a, tid)).isSome
  let ip := (named.filter within ++ named.filter fun a => !within a).head?.getD ""
  let owner := (l.tid.bind fun tid => s.ipTidToMac.get (ip, tid)).getD ""
  (if owner ≠ "" then owner else if ip ≠ "" then (s.ipToMac.get ip).getD "" else "", ip)

/-- The subnet that Kea selected in the transaction, in the minute before. -/
def selectedSubnet (s : Walk) (mac : String) (tid : Option String) (ts : ℤ) : Option ℕ :=
  (tid.bind fun tid => s.subnetOfTx.get (mac, tid)).bind fun selected =>
    if 0 ≤ ts - selected.1 ∧ ts - selected.1 ≤ 60000000 then some selected.2 else none

/-- The event of a line, if it is one. -/
def eventOf (s : Walk) (l : Line) : Option Event :=
  match l.kind, l.ts with
  | some kind, some ts =>
    let client := if kind = .ddnsFailed then s.ddnsClient l else (l.mac.getD "", l.clientIp)
    if client.1 = "" then none
    else
      let detail := if l.id = packetSend then "Kea sent a DHCPNAK" else l.summary
      some
        { ts
          level := l.level
          id := l.id
          kind
          mac := client.1
          ip := client.2
          detail := String.ofList (detail.toList.take 200)
          tid := l.tid.getD ""
          subnetId := s.selectedSubnet client.1 l.tid ts }
  | _, _ => none

end Walk

/-- The event of a NAK, after another line of it. -/
def Event.merge (seen event : Event) : Event :=
  { seen with
    ip := if event.ip ≠ "" ∧ seen.ip = "" then event.ip else seen.ip
    subnetId := seen.subnetId.or event.subnetId
    detail := if event.id ≠ packetSend then event.detail else seen.detail }

namespace Walk

/-- An event is added, or another line of a NAK is merged into its event. -/
def add (s : Walk) (e : Event) : Walk :=
  if e.kind = .nak ∧ e.tid ≠ "" then
    match s.naks.get e.key with
    | some i => { s with events := s.events.modify i fun seen => seen.merge e }
    | none => { s with events := s.events ++ [e], naks := s.naks.put e.key s.events.length }
  else { s with events := s.events ++ [e] }

/-- One line. -/
def step (s : Walk) (l : Line) : Walk :=
  let s := (s.recordLease l).recordSubnet l
  match s.eventOf l with
  | some e => s.add e
  | none => s

end Walk

/-- `problem_events`. -/
def problemEvents (lines : List Line) : List Event :=
  (lines.foldl Walk.step .start).events.insertionSort fun a b => a.ts ≤ b.ts

end JenKea.KeaLog
