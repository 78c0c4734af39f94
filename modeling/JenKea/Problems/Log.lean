import JenKea.Lib.Map
import Mathlib.Data.List.Induction
import Mathlib.Data.List.Sort

/-!
# The problems in a log

`problem_events` of `services/kea_log_trace.py`: one walk over the lines of a tail, in order, which remembers
who was last given each address and which subnet was selected for a transaction. A line is taken as what the
regular expressions find in it. A NAK's own line and the line that says it was sent name one transaction, and
are one event.
-/

namespace JenKea.Problems

/-- Moments and spans are in microseconds. -/
abbrev second : ℤ := 1000000
abbrev minute : ℤ := 60 * second
abbrev hour : ℤ := 60 * minute

/-- The kinds of problem that the log names a client for. -/
inductive Kind where
  | nak
  | decline
  | drop
  | subnetSelectionFailed
  | ddnsFailed
  deriving DecidableEq

/-- A line of the log. -/
structure Line where
  /-- `_parse_ts`. -/
  ts : Option ℤ
  id : String
  /-- The hardware address of the label, normalized. -/
  label : Option String := none
  tid : Option String := none
  /-- The address that is requested, declined or allocated. -/
  address : String := ""
  /-- The address of a lease. -/
  lease : Option String := none
  subnetId : Option ℕ := none
  /-- Every address in the line. -/
  ips : List String := []
  /-- Whether `DHCPNAK` stands in the line. -/
  hasNak : Bool := false
  summary : String := ""
  deriving DecidableEq

/-- `_PROBLEM_KIND_OF_ID`. -/
def problemKindOfId (id : String) : Option Kind :=
  if id ∈ ["DHCP4_PACKET_NAK_0001", "DHCP4_PACKET_NAK_0002", "DHCP4_PACKET_NAK_0003", "DHCP4_PACKET_NAK_0004"] then
    some .nak
  else if id ∈ ["DHCP4_DECLINE_LEASE", "DHCP4_DECLINE_LEASE_MISMATCH", "DHCP4_DECLINE_LEASE_NOT_FOUND"] then
    some .decline
  else if id ∈ ["DHCP4_PACKET_DROP_0007", "DHCP4_PACKET_DROP_0008"] then some .drop
  else if id = "DHCP4_SUBNET_SELECTION_FAILED" then some .subnetSelectionFailed
  else if id = "DHCP4_DDNS_REQUEST_SEND_FAILED" then some .ddnsFailed
  else none

/-- The kind of problem that a line tells of, if it does. -/
def kindOf (l : Line) : Option Kind :=
  if l.id = "DHCP4_PACKET_SEND" ∧ l.hasNak then some .nak
  else
    match problemKindOfId l.id with
    | some kind => some kind
    | none => if "DHCP4_PACKET_DROP".toList <+: l.id.toList then some .drop else none

/-- What an event says of its line. -/
def detailOf (l : Line) : String :=
  String.ofList ((if l.id = "DHCP4_PACKET_SEND" then "Kea sent a DHCPNAK" else l.summary).toList.take 200)

/-- `_client_ip`. -/
def clientIp (l : Line) : String := if l.id = "DHCP4_PACKET_SEND" then "" else l.address

/-- A problem that the log shows. The last field is the place in the log of the line it was first seen in,
which nothing reads. -/
structure Event where
  ts : ℤ
  id : String
  kind : Kind
  mac : String
  ip : String
  detail : String
  tid : String
  subnetId : Option ℕ
  line : ℕ
  deriving DecidableEq

/-- What a walk over the lines remembers. The events that are NAKs with a transaction are also what the walk
finds the other line of a NAK by. -/
structure Walk where
  ipToMac : Map String String := .empty
  ipTidToMac : Map (String × String) String := .empty
  subnetOfTx : Map (String × String) (ℤ × ℕ) := .empty
  events : List Event := []

namespace Walk

variable (w : Walk)

/-- Who was given an address. -/
def noteLease (l : Line) : Walk :=
  if l.id ∈ ["DHCP4_LEASE_OFFER", "DHCP4_LEASE_ALLOC", "DHCP4_LEASE_REUSE"] then
    match l.label, l.lease with
    | some owner, some ip =>
      { w with
        ipToMac := w.ipToMac.put ip owner
        ipTidToMac := match l.tid with
          | some tid => w.ipTidToMac.put (ip, tid) owner
          | none => w.ipTidToMac }
    | _, _ => w
  else w

/-- Which subnet was selected for a transaction. -/
def noteSubnet (l : Line) : Walk :=
  if l.id = "DHCP4_SUBNET_SELECTED" then
    match l.label, l.tid, l.subnetId, l.ts with
    | some mac, some tid, some subnet, some ts => { w with subnetOfTx := w.subnetOfTx.put (mac, tid) (ts, subnet) }
    | _, _, _, _ => w
  else w

/-- The address and the client of a failed DNS update: the nearest allocation before it, of the same
transaction where the line names one. -/
def ddnsClient (l : Line) : String × String :=
  let named := l.ips.filter fun a => a ∈ w.ipToMac.keys
  let ordered := match l.tid with
    | some tid => named.filter (fun a => (a, tid) ∈ w.ipTidToMac.keys) ++
        named.filter (fun a => (a, tid) ∉ w.ipTidToMac.keys)
    | none => named
  let ip := ordered.headD ""
  let byTransaction := match l.tid with
    | some tid => (w.ipTidToMac.get (ip, tid)).getD ""
    | none => ""
  (ip, if byTransaction ≠ "" then byTransaction else if ip ≠ "" then (w.ipToMac.get ip).getD "" else "")

/-- The subnet that Kea selected for a transaction, up to a minute before. -/
def selectedSubnet (mac : String) (tid : Option String) (ts : ℤ) : Option ℕ :=
  match tid with
  | none => none
  | some tid =>
    match w.subnetOfTx.get (mac, tid) with
    | some (moment, subnet) => if 0 ≤ ts - moment ∧ ts - moment ≤ minute then some subnet else none
    | none => none

/-- The event of a line, if it tells of a problem of a client. -/
def eventOf (n : ℕ) (l : Line) : Option Event :=
  match kindOf l, l.ts with
  | some kind, some ts =>
    let (ip, mac) := if kind = .ddnsFailed then w.ddnsClient l else (clientIp l, l.label.getD "")
    if mac = "" then none
    else some {
      ts := ts
      id := l.id
      kind := kind
      mac := mac
      ip := ip
      detail := detailOf l
      tid := l.tid.getD ""
      subnetId := w.selectedSubnet mac l.tid ts
      line := n }
  | _, _ => none

/-- Two lines of one NAK. -/
def SameNak (e seen : Event) : Prop := seen.kind = .nak ∧ seen.mac = e.mac ∧ seen.tid = e.tid

instance (e seen : Event) : Decidable (SameNak e seen) := inferInstanceAs (Decidable (_ ∧ _ ∧ _))

/-- What the other line of a NAK adds to it. -/
def merge (e seen : Event) : Event :=
  { seen with
    ip := if e.ip ≠ "" ∧ seen.ip = "" then e.ip else seen.ip
    subnetId := if e.subnetId ≠ none ∧ seen.subnetId = none then e.subnetId else seen.subnetId
    detail := if e.id ≠ "DHCP4_PACKET_SEND" then e.detail else seen.detail }

/-- An event is added, or it is the other line of a NAK. -/
def add (e : Event) : Walk :=
  if e.kind = .nak ∧ e.tid ≠ "" ∧ ∃ seen ∈ w.events, SameNak e seen then
    { w with events := w.events.map fun seen => if SameNak e seen then merge e seen else seen }
  else { w with events := w.events ++ [e] }

/-- One line of the walk. -/
def step (x : ℕ × Line) : Walk :=
  let w := (w.noteLease x.2).noteSubnet x.2
  match w.eventOf x.1 x.2 with
  | none => w
  | some e => w.add e

end Walk

/-- `problem_events`, over the lines of a tail with their places in the log. -/
def problemEvents (lines : List (ℕ × Line)) : List Event :=
  (lines.foldl Walk.step {}).events.insertionSort fun e e' => e.ts ≤ e'.ts

/-- `newest_ts`. -/
def newestTs (lines : List (ℕ × Line)) : Option ℤ := (lines.filterMap fun x => x.2.ts).max?

/-! ## Where the events come from -/

/-- The problem that an event tells of: a NAK is its transaction, another event its line. -/
inductive Problem where
  | nak (mac tid : String)
  | line (n : ℕ)
  deriving DecidableEq

def Event.problem (e : Event) : Problem := if e.kind = .nak ∧ e.tid ≠ "" then .nak e.mac e.tid else .line e.line

/-- The line tells of a NAK of this client in this transaction. -/
def NakLine (mac tid : String) (l : Line) : Prop :=
  kindOf l = some .nak ∧ l.ts ≠ none ∧ l.label = some mac ∧ mac ≠ "" ∧ l.tid = some tid ∧ tid ≠ ""

instance (mac tid : String) (l : Line) : Decidable (NakLine mac tid l) :=
  inferInstanceAs (Decidable (_ ∧ _ ∧ _ ∧ _ ∧ _ ∧ _))

theorem kind_of_eventOf {w : Walk} {n : ℕ} {l : Line} {e : Event} (h : w.eventOf n l = some e) :
    kindOf l = some e.kind ∧ l.ts = some e.ts ∧ e.line = n ∧ e.tid = l.tid.getD "" ∧
      (e.kind = .nak → l.label.getD "" = e.mac ∧ e.mac ≠ "") := by
  unfold Walk.eventOf at h
  split at h
  · next kind ts hkind hts =>
    dsimp only at h
    by_cases hddns : kind = .ddnsFailed
    · rw [if_pos hddns] at h
      split_ifs at h
      obtain rfl := Option.some.inj h
      exact ⟨hkind, hts, rfl, rfl, fun hnak => absurd (hddns.symm.trans hnak) (by decide)⟩
    · rw [if_neg hddns] at h
      split_ifs at h with hmac
      obtain rfl := Option.some.inj h
      exact ⟨hkind, hts, rfl, rfl, fun _ => ⟨rfl, hmac⟩⟩
  · exact absurd h nofun

/-- A NAK with a transaction tells of its line. -/
theorem nakLine_of_eventOf {w : Walk} {n : ℕ} {l : Line} {e : Event} (h : w.eventOf n l = some e)
    (hkind : e.kind = .nak) (htid : e.tid ≠ "") : NakLine e.mac e.tid l := by
  obtain ⟨hkindOf, hts, -, hline, hmac⟩ := kind_of_eventOf h
  obtain ⟨hlabel, hne⟩ := hmac hkind
  rw [hkind] at hkindOf
  have hsome : l.label = some e.mac := by
    cases hl : l.label with
    | none =>
      rw [hl, Option.getD_none] at hlabel
      exact absurd hlabel.symm hne
    | some mac =>
      rw [hl, Option.getD_some] at hlabel
      rw [hlabel]
  have htidSome : l.tid = some e.tid := by
    cases ht : l.tid with
    | none =>
      rw [ht, Option.getD_none] at hline
      exact absurd hline htid
    | some tid =>
      rw [ht, Option.getD_some] at hline
      rw [hline]
  have htimed : l.ts ≠ none := by
    rw [hts]
    exact Option.some_ne_none _
  exact ⟨hkindOf, htimed, hsome, hne, htidSome, htid⟩

/-- A line of a NAK makes an event. -/
theorem eventOf_of_nakLine {w : Walk} {n : ℕ} {l : Line} {mac tid : String} (h : NakLine mac tid l) :
    ∃ e, w.eventOf n l = some e ∧ e.kind = .nak ∧ e.mac = mac ∧ e.tid = tid := by
  obtain ⟨hkind, htimed, hlabel, hmac, htid, -⟩ := h
  obtain ⟨ts, hts⟩ := Option.ne_none_iff_exists'.mp htimed
  unfold Walk.eventOf
  have hnot : Kind.nak ≠ .ddnsFailed := by decide
  rw [hkind, hts]
  dsimp only
  rw [if_neg hnot, hlabel, htid, Option.getD_some, if_neg hmac]
  exact ⟨_, rfl, rfl, rfl, rfl⟩

/-- An event has the time of the line it was first seen in, and no earlier line of the tail is of its NAK. -/
structure Placed (lines : List (ℕ × Line)) (e : Event) : Prop where
  line : ∃ l, (e.line, l) ∈ lines ∧ l.ts = some e.ts
  nak : e.kind = .nak → e.tid ≠ "" → ∃ l before after, lines = before ++ (e.line, l) :: after ∧
    NakLine e.mac e.tid l ∧ ∀ x ∈ before, ¬ NakLine e.mac e.tid x.2

/-- What the walk has seen: its events are placed, and every NAK is among them. -/
structure Walked (lines : List (ℕ × Line)) (events : List Event) : Prop where
  placed : ∀ e ∈ events, Placed lines e
  seen : ∀ x ∈ lines, ∀ mac tid, NakLine mac tid x.2 →
    ∃ e ∈ events, e.kind = .nak ∧ e.mac = mac ∧ e.tid = tid

variable {lines : List (ℕ × Line)} {events : List Event} {x : ℕ × Line} {e : Event}

theorem Placed.snoc (h : Placed lines e) (x : ℕ × Line) : Placed (lines ++ [x]) e := by
  obtain ⟨l, hmem, hts⟩ := h.line
  refine ⟨⟨l, List.mem_append_left _ hmem, hts⟩, fun hkind htid => ?_⟩
  obtain ⟨l', before, after, hsplit, hnak, hbefore⟩ := h.nak hkind htid
  refine ⟨l', before, after ++ [x], ?_, hnak, hbefore⟩
  rw [hsplit, List.append_assoc, List.cons_append]

/-- What the other line adds to a NAK moves it nowhere. -/
theorem Placed.merge {seen : Event} (h : Placed lines seen) (e : Event) : Placed lines (Walk.merge e seen) :=
  ⟨h.line, h.nak⟩

theorem events_noteLease (w : Walk) (l : Line) : (w.noteLease l).events = w.events := by
  unfold Walk.noteLease
  split_ifs
  · split <;> rfl
  · rfl

theorem events_noteSubnet (w : Walk) (l : Line) : (w.noteSubnet l).events = w.events := by
  unfold Walk.noteSubnet
  split_ifs
  · split <;> rfl
  · rfl

/-- One line of the walk keeps its events placed, and adds what is new. -/
theorem Walked.step {w : Walk} (h : Walked lines w.events) (x : ℕ × Line) :
    Walked (lines ++ [x]) (w.step x).events := by
  have hsnoc : ∀ e ∈ w.events, Placed (lines ++ [x]) e := fun e he => (h.placed e he).snoc x
  unfold Walk.step
  dsimp only
  generalize hw : (w.noteLease x.2).noteSubnet x.2 = w'
  have hevents : w'.events = w.events := by rw [← hw, events_noteSubnet, events_noteLease]
  cases he : w'.eventOf x.1 x.2 with
  | none =>
    dsimp only
    rw [hevents]
    refine ⟨hsnoc, fun y hy mac tid hnak => ?_⟩
    rcases List.mem_append.mp hy with hy | hy
    · exact h.seen y hy mac tid hnak
    · rw [List.mem_singleton.mp hy] at hnak
      obtain ⟨e, hsome, -⟩ := @eventOf_of_nakLine w' x.1 x.2 mac tid hnak
      exact absurd (he.symm.trans hsome) nofun
  | some e =>
    dsimp only
    obtain ⟨-, hts, hline, -, -⟩ := kind_of_eventOf he
    have hfound : ∀ mac tid, NakLine mac tid x.2 → e.kind = .nak ∧ e.mac = mac ∧ e.tid = tid := by
      intro mac tid hnak
      obtain ⟨e', hsome, hfields⟩ := @eventOf_of_nakLine w' x.1 x.2 mac tid hnak
      obtain rfl := Option.some.inj (he.symm.trans hsome)
      exact hfields
    unfold Walk.add
    rw [hevents]
    split_ifs with hother
    · -- The other line of a NAK.
      obtain ⟨-, -, seen, hseen, hsame⟩ := hother
      have hkeys : ∀ f ∈ w.events, ∃ g ∈ w.events.map fun seen =>
          if Walk.SameNak e seen then Walk.merge e seen else seen,
          g.kind = f.kind ∧ g.mac = f.mac ∧ g.tid = f.tid := by
        intro f hf
        refine ⟨_, List.mem_map.mpr ⟨f, hf, rfl⟩, ?_⟩
        split_ifs <;> exact ⟨rfl, rfl, rfl⟩
      refine ⟨fun f hf => ?_, fun y hy mac tid hnak => ?_⟩
      · obtain ⟨g, hg, rfl⟩ := List.mem_map.mp hf
        split_ifs
        · exact (hsnoc g hg).merge e
        · exact hsnoc g hg
      · have hold : ∃ f ∈ w.events, f.kind = .nak ∧ f.mac = mac ∧ f.tid = tid := by
          rcases List.mem_append.mp hy with hy | hy
          · exact h.seen y hy mac tid hnak
          · rw [List.mem_singleton.mp hy] at hnak
            obtain ⟨-, rfl, rfl⟩ := hfound mac tid hnak
            exact ⟨seen, hseen, hsame⟩
        obtain ⟨f, hf, hkind, hmac, htid⟩ := hold
        obtain ⟨g, hg, hgkind, hgmac, hgtid⟩ := hkeys f hf
        exact ⟨g, hg, hgkind.trans hkind, hgmac.trans hmac, hgtid.trans htid⟩
    · -- A problem that is new to the walk.
      refine ⟨fun f hf => ?_, fun y hy mac tid hnak => ?_⟩
      · rcases List.mem_append.mp hf with hf | hf
        · exact hsnoc f hf
        · rw [List.mem_singleton.mp hf]
          have hx : (e.line, x.2) = x := by rw [hline]
          refine ⟨⟨x.2, ?_, hts⟩, fun hkind htid => ?_⟩
          · rw [hx]
            exact List.mem_append_right _ (List.mem_singleton.mpr rfl)
          · refine ⟨x.2, lines, [], by rw [hx], nakLine_of_eventOf he hkind htid, fun y hy hnak => ?_⟩
            exact hother ⟨hkind, htid, h.seen y hy _ _ hnak⟩
      · rcases List.mem_append.mp hy with hy | hy
        · obtain ⟨f, hf, hfields⟩ := h.seen y hy mac tid hnak
          exact ⟨f, List.mem_append_left _ hf, hfields⟩
        · rw [List.mem_singleton.mp hy] at hnak
          exact ⟨e, List.mem_append_right _ (List.mem_singleton.mpr rfl), hfound mac tid hnak⟩

/-- The events of a tail are placed in it. -/
theorem placed_of_mem (h : e ∈ problemEvents lines) : Placed lines e := by
  have hwalk : Walked lines (lines.foldl Walk.step {}).events := by
    clear h
    induction lines using List.reverseRec with
    | nil => exact ⟨nofun, nofun⟩
    | append_singleton lines x ih =>
      rw [List.foldl_append]
      exact ih.step x
  exact hwalk.placed e ((List.perm_insertionSort _ _).mem_iff.mp h)

end JenKea.Problems
