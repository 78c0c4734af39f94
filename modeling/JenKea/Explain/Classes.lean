import JenKea.Edit.Attachment
import JenKea.Explain.Expression
import JenKea.Explain.Reservations
import JenKea.Lib.Except
import Mathlib.Data.List.Dedup

/-!
# The classes of a client

The loop over the client classes in `explain` of `jen/services/dhcp_explain.py`. A class sees the verdicts of
the classes before it, an input that nobody supplied leaves a comparison open, and a verdict that was reached
without an input stands whatever that input turns out to be.
-/

namespace JenKea.Explain

open Json Import Edit

/-! ## The loop -/

/-- What Kea itself logged of the client's classes. -/
structure Assigned where
  classes : List String
  /-- When it logged them. -/
  time : String := ""
  beforeConfigChange : Bool := false

/-- What the loop is given besides the classes and the client. -/
structure Context where
  /-- `additional_lists`. -/
  additional : List String
  /-- The classes of the matched reservation, where one matched. -/
  reserved : Option (List Json)
  assigned : Option Assigned

/-- `kea_said`. -/
def Context.keaSaid (ctx : Context) : List String := ctx.assigned.elim [] Assigned.classes

/-- ` at` and the time of Kea's own list, where it is known. -/
def Context.atTime (ctx : Context) : String :=
  ctx.assigned.elim "" fun a => if a.time = "" then "" else " at " ++ a.time

/-- `kea_old`. -/
def Context.old (ctx : Context) : String :=
  if ctx.assigned.any Assigned.beforeConfigChange then " (observed before the config changed)" else ""

/-- `members` before the first class. -/
def Context.members (ctx : Context) : Members :=
  .ofList [("ALL", some true), ("KNOWN", some ctx.reserved.isSome), ("UNKNOWN", some ctx.reserved.isNone)]

/-- A row of the explanation. -/
structure ClassRow where
  name : String
  expression : Json
  evaluable : Bool := true
  matched : Option Bool := none
  reason : String := ""
  onlyAdditional : Bool
  builtin : Bool
  missing : List String := []
  disagrees : Bool := false
  fromKea : Bool := false
  deriving DecidableEq

/-- What ends the explanation: a value of a kind that the code does not expect, or a literal with half a
byte, which `except ExprError` lets through. -/
inductive Raised where
  | shape
  | value
  deriving DecidableEq

/-- `INPUT_LABELS`. -/
def inputLabel : String → String
  | "vendor_class" => "vendor class (option 60)"
  | "user_class" => "user class (option 77)"
  | "user_class_bytes" => "user class as sent (option 77 bytes, hex)"
  | "hostname" => "hostname (option 12)"
  | "mac" => "MAC address"
  | "client_id" => "client id (option 61)"
  | "circuit_id" => "relay circuit id"
  | "circuit_id_hex" => "relay circuit id (bytes, hex)"
  | "remote_id" => "relay remote id"
  | m => m

/-- The reason of a class that was evaluated. -/
def evaluatedReason (missing : List String) : Option Bool → String
  | none =>
    if missing = [] then "undecided — depends on a class Jen can't evaluate"
    else "undecided — supply " ++ ", ".intercalate (missing.map inputLabel)
  | some true => "expression matched"
  | some false => "expression did not match"

/-- A class with a test, parsed and evaluated. -/
def testRow (client : Client) (members : Members) (test : Json) (row : ClassRow) :
    Except Raised ClassRow :=
  match test with
  | .str text =>
    match parseExpression text with
    | .ok node =>
      let missing := (missing client node).dedup.insertionSort (· ≤ ·)
      let matched := evaluate client members node
      .ok { row with matched, missing, reason := evaluatedReason missing matched }
    | .error (.expr e) =>
      .ok { row with
        evaluable := false, reason := "not evaluable by Jen (" ++ e ++ "); shown verbatim" }
    | .error .value => .error .value
  | _ => .error .shape

/-- What Jen itself makes of a class. -/
def jenRow (ctx : Context) (client : Client) (members : Members) (test : Json) (row : ClassRow) :
    Except Raised ClassRow :=
  if row.onlyAdditional = true ∧ row.name ∉ ctx.additional then
    .ok { row with
      matched := some false,
      reason := "only-in-additional-list, and nothing in this subnet/pool/shared network lists it — Kea " ++
        "never evaluates it here" }
  else if test.falsy then
    .ok (if (ctx.reserved.getD []).any fun x => x.pyEq (.str row.name) then
        { row with matched := some true, reason := "assigned by the matched reservation's client-classes" }
      else
        { row with reason := "no test expression (assigned by a reservation's client-classes, a hook, or never)" })
  else testRow client members test row

/-- `decided_by_jen`. -/
def decidedByJen (test : Json) (row : ClassRow) : Option Bool :=
  if row.evaluable && !test.falsy && !row.onlyAdditional then row.matched else none

/-- What Kea logged, put over what Jen worked out. -/
def keaRow (ctx : Context) (test : Json) (row : ClassRow) : ClassRow :=
  let decided := decidedByJen test row
  let said := decide (row.name ∈ ctx.keaSaid)
  let row := { row with
    disagrees := !ctx.keaSaid.isEmpty && decided.isSome && decided != some said }
  if said && row.matched != some true then
    { row with
      matched := some true, fromKea := true,
      reason := "assigned by Kea" ++ ctx.atTime ++ ctx.old ++ " (its own log)" }
  else if !said && !ctx.keaSaid.isEmpty && decided == some true then
    { row with reason := row.reason ++ " (Jen's reading - Kea did not list it)" }
  else row

/-- The row of a class. -/
def classRow (ctx : Context) (client : Client) (members : Members) (name : String) (c : Fields) :
    Except Raised ClassRow :=
  let test := valueOf "test" c
  let row : ClassRow :=
    { name, expression := if test.falsy then .str "" else test,
      onlyAdditional := !(valueOf newOnly c).falsy || !(valueOf oldOnly c).falsy,
      builtin := isBuiltin name }
  (jenRow ctx client members test row).map (keaRow ctx test)

/-- The loop, from the classes evaluated so far. -/
def classRows (ctx : Context) (client : Client) : Members → List Json → Except Raised (List ClassRow)
  | _, [] => .ok []
  | members, .obj c :: classes =>
    if (valueOf "name" c).falsy then classRows ctx client members classes
    else
      match valueOf "name" c with
      | .str name => do
        let row ← classRow ctx client members name c
        let rows ← classRows ctx client (members.put name row.matched) classes
        return row :: rows
      | _ => .error .shape
  | members, _ :: classes => classRows ctx client members classes

/-- A value that a set cannot hold. -/
def isUnhashable : Json → Bool
  | .arr _ | .obj _ => true
  | _ => false

/-- What the classes are evaluated under in a subnet and a shared network: `additional_lists` and the
reservation. -/
def context (subnet : SubnetEntry) (sn : Option Fields) (res : Option Reservation)
    (assigned : Option Assigned) : Except Raised Context :=
  let reserved := res.map Reservation.classes
  if (reserved.getD []).any isUnhashable then .error .shape
  else .ok
    { additional := additionalClasses subnet.fields ++ sn.elim [] additionalClasses ++
        subnet.pools.flatMap additionalClasses ++ strings (reserved.getD []),
      reserved, assigned }

/-- The rows of the classes, in the order of the configuration. -/
def explainClasses (subnet : SubnetEntry) (sn : Option Fields) (res : Option Reservation)
    (assigned : Option Assigned) (classes : List Json) (client : Client) :
    Except Raised (List ClassRow) := do
  let ctx ← context subnet sn res assigned
  classRows ctx client ctx.members classes

/-! ## More inputs -/

/-- An input stays what it was, or was not supplied. -/
def Kept (old new : String) : Prop := old = "" ∨ new = old

/-- The bytes that a text may stand for in a packet: a user class is sent bare, or after its length. -/
def readings (acc : Accessor) (text : String) : List Bytes :=
  let plain := encode text
  if acc = .userClass ∧ plain.length ≤ 255 then [plain, UInt8.ofNat plain.length :: plain] else [plain]

/-- An identifier that is known as a text, as its bytes, or as both. Bytes that were known stay; where only
the text was known it stays, and bytes that come with it are some that the text may stand for. -/
def Sent (acc : Accessor) (text exact text' exact' : String) : Prop :=
  (bare exact ≠ "" → exact' = exact) ∧
    (bare exact = "" → Text.strip text ≠ "" → text' = text ∧
      (bare exact' ≠ "" → ∃ bytes ∈ readings acc (Text.strip text), hexBytes (bare exact') = some bytes))

/-- Further inputs were supplied, consistent with the known ones. -/
structure Client.Extends (client client' : Client) : Prop where
  mac : Kept client.mac client'.mac
  clientId : Kept client.clientId client'.clientId
  vendorClass : Kept client.vendorClass client'.vendorClass
  hostname : Kept client.hostname client'.hostname
  remoteId : Kept client.remoteId client'.remoteId
  userClass : Sent .userClass client.userClass client.userClassBytes client'.userClass client'.userClassBytes
  circuitId : Sent .circuitId client.circuitId client.circuitIdHex client'.circuitId client'.circuitIdHex

/-! ## One comparison -/

section Comparison

variable {client client' : Client}

theorem readings_ne_nil {acc : Accessor} {text : String} : readings acc text ≠ [] := by
  unfold readings
  dsimp only
  split_ifs <;> exact List.cons_ne_nil _ _

/-- The candidates of an input without bytes of its own. -/
theorem candidates_of_kept (client client' : Client) {acc : Accessor} {options : List Bytes} (hexact : acc.exact client = none)
    (hexact' : acc.exact client' = none) (hname : (acc.input client').2 = (acc.input client).2)
    (hkept : Kept (acc.input client).1 (acc.input client').1)
    (h : (candidates client acc).1 = some options) : (candidates client' acc).1 = some options := by
  rcases hkept with hempty | hsame
  · -- an input that was not supplied gives no candidate
    have hnone : (candidates client acc).1 = none := by
      simp only [candidates, hexact, clientBytes, hempty, if_true, Option.map_none]
    rw [hnone] at h
    cases h
  · have hinput : acc.input client' = acc.input client := Prod.ext hsame hname
    have hbytes : clientBytes client' acc = clientBytes client acc := by
      unfold clientBytes
      rw [hinput]
    have hcandidates : candidates client' acc = candidates client acc := by
      simp only [candidates, hexact, hexact', hbytes]
    rw [hcandidates, h]

/-- The candidates of an identifier that has bytes of its own: the bytes, and else the readings. -/
theorem candidates_fst_of_exact {acc : Accessor} {exact : String × String}
    (hexact : acc.exact client = some exact) :
    (candidates client acc).1 =
      if bare exact.1 ≠ "" then (hexBytes (bare exact.1)).map fun bytes => [bytes]
      else if Text.strip (acc.input client).1 = "" then none
      else some (readings acc (Text.strip (acc.input client).1)) := by
  simp only [candidates, hexact, readings]
  split_ifs <;> rfl

/-- Where the readings of an identifier were known, those known later are some of them. -/
theorem candidates_of_sent {acc : Accessor} {exact exact' : String × String} {options : List Bytes}
    (hexact : acc.exact client = some exact) (hexact' : acc.exact client' = some exact')
    (hsent : Sent acc (acc.input client).1 exact.1 (acc.input client').1 exact'.1)
    (h : (candidates client acc).1 = some options) :
    ∃ options', (candidates client' acc).1 = some options' ∧ options' ≠ [] ∧ options' ⊆ options := by
  rw [candidates_fst_of_exact hexact] at h
  rw [candidates_fst_of_exact hexact']
  obtain ⟨hbytes, htext⟩ := hsent
  by_cases hbare : bare exact.1 = ""
  · rw [if_neg (not_not_intro hbare)] at h
    split_ifs at h with hblank
    obtain rfl := Option.some.inj h
    obtain ⟨hsame, hreads⟩ := htext hbare hblank
    by_cases hbare' : bare exact'.1 = ""
    · rw [if_neg (not_not_intro hbare'), hsame, if_neg hblank]
      exact ⟨_, rfl, readings_ne_nil, List.Subset.refl _⟩
    · -- the bytes came: they are one of the readings
      obtain ⟨bytes, hmem, hhex⟩ := hreads hbare'
      rw [if_pos hbare', hhex]
      exact ⟨[bytes], rfl, List.cons_ne_nil _ _, List.cons_subset.mpr ⟨hmem, List.nil_subset _⟩⟩
  · rw [if_pos hbare] at h
    obtain ⟨bytes, hhex, rfl⟩ := Option.map_eq_some_iff.mp h
    rw [hbytes hbare, if_pos hbare, hhex]
    exact ⟨[bytes], rfl, List.cons_ne_nil _ _, List.Subset.refl _⟩

theorem candidates_extends (h : client.Extends client') {acc : Accessor} {options : List Bytes}
    (hoptions : (candidates client acc).1 = some options) :
    ∃ options', (candidates client' acc).1 = some options' ∧ (options ≠ [] → options' ≠ []) ∧
      options' ⊆ options := by
  have hsame : (candidates client' acc).1 = some options →
      ∃ options', (candidates client' acc).1 = some options' ∧ (options ≠ [] → options' ≠ []) ∧
        options' ⊆ options :=
    fun h => ⟨options, h, id, List.Subset.refl _⟩
  have hexact : ∀ c : Client, Accessor.userClass.exact c = some (c.userClassBytes, "user_class_bytes") :=
    fun _ => rfl
  have hexact' : ∀ c : Client, Accessor.circuitId.exact c = some (c.circuitIdHex, "circuit_id_hex") :=
    fun _ => rfl
  cases acc with
  | vendorClass => exact hsame (candidates_of_kept client client' rfl rfl rfl h.vendorClass hoptions)
  | hostname => exact hsame (candidates_of_kept client client' rfl rfl rfl h.hostname hoptions)
  | mac => exact hsame (candidates_of_kept client client' rfl rfl rfl h.mac hoptions)
  | clientId => exact hsame (candidates_of_kept client client' rfl rfl rfl h.clientId hoptions)
  | remoteId => exact hsame (candidates_of_kept client client' rfl rfl rfl h.remoteId hoptions)
  | userClass =>
    obtain ⟨options', h', hne, hsub⟩ :=
      candidates_of_sent (hexact client) (hexact client') h.userClass hoptions
    exact ⟨options', h', fun _ => hne, hsub⟩
  | circuitId =>
    obtain ⟨options', h', hne, hsub⟩ :=
      candidates_of_sent (hexact' client) (hexact' client') h.circuitId hoptions
    exact ⟨options', h', fun _ => hne, hsub⟩

/-- A list reduces to one value just where it is not empty and holds no other. -/
theorem dedup_eq_singleton {xs : List Bool} {v : Bool} : xs.dedup = [v] ↔ xs ≠ [] ∧ ∀ x ∈ xs, x = v := by
  constructor
  · intro h
    have hall : ∀ x ∈ xs, x = v := by
      intro x hx
      have hx' := List.mem_dedup.mpr hx
      rw [h] at hx'
      exact List.mem_singleton.mp hx'
    refine ⟨?_, hall⟩
    rintro rfl
    rw [List.dedup_nil] at h
    cases h
  · rintro ⟨hne, hall⟩
    have hall' : ∀ x ∈ xs.dedup, x = v := fun x hx => hall x (List.mem_dedup.mp hx)
    have hreplicate := List.eq_replicate_of_mem hall'
    have hle : xs.dedup.length ≤ 1 := by
      have hnodup := List.nodup_dedup xs
      rw [hreplicate] at hnodup
      exact List.nodup_replicate.mp hnodup
    have hpos : 0 < xs.dedup.length :=
      List.length_pos_iff.mpr fun h => hne (List.dedup_eq_nil xs |>.mp h)
    have hone : xs.dedup.length = 1 := by omega
    rw [hreplicate, hone]
    rfl

theorem compare_eq_some {left : Operand} {literal : Bytes} {v : Bool} :
    (compare client left literal).1 = some v ↔
      ∃ options, (candidates client left.accessor).1 = some options ∧ options ≠ [] ∧
        ∀ bytes ∈ options, decide (left.slice bytes = literal) = v := by
  unfold compare
  cases hcandidates : candidates client left.accessor with
  | mk found field =>
    cases found with
    | none => simp
    | some options =>
      dsimp only
      constructor
      · intro h
        split at h
        · next verdict heq =>
          obtain rfl := Option.some.inj h
          obtain ⟨hne, hall⟩ := dedup_eq_singleton.mp heq
          exact ⟨options, rfl, fun h => hne (h ▸ rfl), fun bytes hbytes => hall _ (List.mem_map_of_mem hbytes)⟩
        · cases h
      · rintro ⟨options', heq, hne, hall⟩
        obtain rfl := Option.some.inj heq
        have hdedup := dedup_eq_singleton.mpr
          ⟨fun h => hne (List.map_eq_nil_iff.mp h), fun x hx => by
            obtain ⟨bytes, hbytes, rfl⟩ := List.mem_map.mp hx
            exact hall bytes hbytes⟩
        rw [hdedup]

theorem below_compare (h : client.Extends client') (left : Operand) (literal : Bytes) :
    Kleene.Below (compare client left literal).1 (compare client' left literal).1 := by
  intro v hv
  obtain ⟨options, hoptions, hne, hall⟩ := compare_eq_some.mp hv
  obtain ⟨options', hoptions', hne', hsub⟩ := candidates_extends h hoptions
  exact compare_eq_some.mpr ⟨options', hoptions', hne' hne, fun bytes hbytes => hall bytes (hsub hbytes)⟩

end Comparison

/-! ## One class, and the loop -/

section Loop

variable {client client' : Client} {members members' : Members}

/-- The later classes decide what the earlier ones did. -/
def MembersBelow (members members' : Members) : Prop :=
  ∀ name, Kleene.Below (members.state name) (members'.state name)

theorem MembersBelow.put (h : MembersBelow members members') (name : String) {a b : Option Bool}
    (hab : Kleene.Below a b) : MembersBelow (members.put name a) (members'.put name b) := by
  intro name'
  unfold Members.state
  rw [Map.get_put, Map.get_put]
  split_ifs with heq
  · exact hab
  · exact h name'

theorem below_evaluate (h : client.Extends client') (hmembers : MembersBelow members members')
    (node : Node) : Kleene.Below (evaluate client members node) (evaluate client' members' node) := by
  induction node with
  | and left right ihl ihr => exact ihl.and ihr
  | or left right ihl ihr => exact ihl.or ihr
  | not node ih => exact ih.not
  | member name => exact hmembers name
  | eq left literal => exact below_compare h left literal

/-- A row and the row of a client of whom more is known: the same class, and a verdict that stands. -/
structure Stands (row row' : ClassRow) : Prop where
  name : row'.name = row.name
  onlyAdditional : row'.onlyAdditional = row.onlyAdditional
  evaluable : row'.evaluable = row.evaluable
  matched : Kleene.Below row.matched row'.matched

theorem Stands.refl (row : ClassRow) : Stands row row := ⟨rfl, rfl, rfl, Kleene.Below.refl _⟩

/-- A verdict that stood before Kea's own list was put over it stands after. -/
theorem Stands.keaRow {row row' : ClassRow} (h : Stands row row') (ctx : Context) (test : Json) :
    Stands (keaRow ctx test row) (keaRow ctx test row') := by
  have hmatched : ∀ r : ClassRow, (Explain.keaRow ctx test r).matched =
      if r.name ∈ ctx.keaSaid then some true else r.matched := by
    intro r
    unfold Explain.keaRow
    dsimp only
    by_cases hsaid : r.name ∈ ctx.keaSaid
    · by_cases htrue : r.matched = some true
      · simp [hsaid, htrue]
      · simp [hsaid, htrue]
    · simp only [hsaid, decide_false, Bool.false_and, Bool.false_eq_true, if_false]
      split_ifs <;> rfl
  have hrest : ∀ r : ClassRow, (Explain.keaRow ctx test r).name = r.name ∧
      (Explain.keaRow ctx test r).onlyAdditional = r.onlyAdditional ∧
      (Explain.keaRow ctx test r).evaluable = r.evaluable := by
    intro r
    unfold Explain.keaRow
    dsimp only
    split_ifs <;> exact ⟨rfl, rfl, rfl⟩
  obtain ⟨hname, honly, hevaluable⟩ := hrest row
  obtain ⟨hname', honly', hevaluable'⟩ := hrest row'
  refine ⟨by rw [hname, hname', h.name], by rw [honly, honly', h.onlyAdditional],
    by rw [hevaluable, hevaluable', h.evaluable], ?_⟩
  rw [hmatched, hmatched, h.name]
  split_ifs
  · exact Kleene.Below.refl _
  · exact h.matched

theorem stands_testRow (h : client.Extends client') (hmembers : MembersBelow members members')
    {test : Json} {row row₁ : ClassRow} (hrow : testRow client members test row = .ok row₁) :
    ∃ row₂, testRow client' members' test row = .ok row₂ ∧ Stands row₁ row₂ := by
  unfold testRow at hrow ⊢
  split at hrow
  · next text =>
    dsimp only
    split at hrow
    · next node hparse =>
      obtain rfl := Except.ok.inj hrow
      exact ⟨_, rfl, rfl, rfl, rfl, below_evaluate h hmembers node⟩
    · next e hparse =>
      obtain rfl := Except.ok.inj hrow
      exact ⟨_, rfl, Stands.refl _⟩
    · cases hrow
  · cases hrow

/-- Only a class that is evaluated looks at the client. -/
theorem stands_jenRow (h : client.Extends client') (hmembers : MembersBelow members members')
    {ctx : Context} {test : Json} {row row₁ : ClassRow} (hrow : jenRow ctx client members test row = .ok row₁) :
    ∃ row₂, jenRow ctx client' members' test row = .ok row₂ ∧ Stands row₁ row₂ := by
  unfold jenRow at hrow ⊢
  by_cases hlisted : row.onlyAdditional = true ∧ row.name ∉ ctx.additional
  · rw [if_pos hlisted] at hrow ⊢
    exact ⟨row₁, hrow, Stands.refl _⟩
  · rw [if_neg hlisted] at hrow ⊢
    by_cases htest : test.falsy = true
    · rw [if_pos htest] at hrow ⊢
      exact ⟨row₁, hrow, Stands.refl _⟩
    · rw [if_neg htest] at hrow ⊢
      exact stands_testRow h hmembers hrow

theorem stands_classRow (h : client.Extends client') (hmembers : MembersBelow members members')
    {ctx : Context} {name : String} {c : Fields} {row : ClassRow}
    (hrow : classRow ctx client members name c = .ok row) :
    ∃ row', classRow ctx client' members' name c = .ok row' ∧ Stands row row' := by
  obtain ⟨row₁, hjen, rfl⟩ := Except.map_eq_ok.mp hrow
  obtain ⟨row₂, hjen', hstands⟩ := stands_jenRow h hmembers hjen
  exact ⟨_, Except.map_eq_ok.mpr ⟨row₂, hjen', rfl⟩, hstands.keaRow ctx _⟩

/-- What the loop reaches from the verdicts so far, it reaches from verdicts that decide more. -/
theorem stands_classRows (h : client.Extends client') {ctx : Context} {classes : List Json}
    {rows : List ClassRow} (hmembers : MembersBelow members members')
    (hrows : classRows ctx client members classes = .ok rows) :
    ∃ rows', classRows ctx client' members' classes = .ok rows' ∧ List.Forall₂ Stands rows rows' := by
  induction classes generalizing members members' rows with
  | nil =>
    obtain rfl := Except.ok.inj hrows
    exact ⟨[], rfl, .nil⟩
  | cons c classes ih =>
    cases c with
    | obj c =>
      unfold classRows at hrows ⊢
      split_ifs at hrows ⊢ with hnameless
      · exact ih hmembers hrows
      · cases hname : valueOf "name" c with
        | str name =>
          rw [hname] at hrows
          obtain ⟨row, hrow, hrows⟩ := Except.bind_eq_ok.mp hrows
          obtain ⟨rest, hrest, hrows⟩ := Except.bind_eq_ok.mp hrows
          obtain rfl := Except.ok.inj hrows
          obtain ⟨row', hrow', hstands⟩ := stands_classRow h hmembers hrow
          obtain ⟨rest', hrest', hall⟩ := ih (hmembers.put name hstands.matched) hrest
          have hrows' : (do
              let row ← classRow ctx client' members' name c
              let rows ← classRows ctx client' (members'.put name row.matched) classes
              return row :: rows) = .ok (row' :: rest') :=
            Except.bind_eq_ok.mpr ⟨row', hrow', Except.bind_eq_ok.mpr ⟨rest', hrest', rfl⟩⟩
          exact ⟨row' :: rest', hrows', .cons hstands hall⟩
        | _ =>
          rw [hname] at hrows
          cases hrows
    | _ => exact ih hmembers hrows

end Loop

/-- A verdict that is decided stays as it is when further inputs are supplied: for the same classes,
reservation and list of Kea's own, every class keeps its verdict. -/
theorem decided_explainClasses (subnet : SubnetEntry) (sn : Option Fields) (res : Option Reservation)
    (assigned : Option Assigned) (classes : List Json) {client client' : Client}
    (h : client.Extends client') {rows : List ClassRow}
    (hrows : explainClasses subnet sn res assigned classes client = .ok rows) :
    ∃ rows', explainClasses subnet sn res assigned classes client' = .ok rows' ∧
      List.Forall₂ (fun row row' => row'.name = row.name ∧
        ∀ v, row.matched = some v → row'.matched = some v) rows rows' := by
  unfold explainClasses at hrows ⊢
  obtain ⟨ctx, hctx, hrows⟩ := Except.bind_eq_ok.mp hrows
  obtain ⟨rows', hrows', hall⟩ := stands_classRows h (fun _ => Kleene.Below.refl _) hrows
  refine ⟨rows', ?_, hall.imp fun _ _ hstands => ⟨hstands.name, hstands.matched⟩⟩
  rw [hctx]
  exact hrows'

/-! ### A user class that was typed, and then seen -/

/-- Two classes: one of those that a text decides whichever way it was sent, and one that sees the first. -/
def guestClasses : List Json :=
  [.obj [("name", .str "guests"), ("test", .str "not option[77].hex == 'staff'")],
    .obj [("name", .str "lab"), ("test", .str "member('guests') and option[60].hex == 'lab'")]]

/-- A user class of which only the text is known. -/
def guest : Client := { userClass := "guest" }

/-- The same client: the user class was sent after its length, and the vendor class is known too. -/
def labGuest : Client := { userClass := "guest", userClassBytes := "05:67:75:65:73:74", vendorClass := "lab" }

theorem extends_guest : guest.Extends labGuest where
  mac := Or.inl rfl
  clientId := Or.inl rfl
  vendorClass := Or.inl rfl
  hostname := Or.inl rfl
  remoteId := Or.inl rfl
  userClass := ⟨fun h => absurd (by decide) h, fun _ _ => ⟨rfl, fun _ =>
    ⟨[5, 103, 117, 101, 115, 116], by decide, by decide⟩⟩⟩
  circuitId := ⟨fun h => absurd (by decide) h, fun _ h => absurd (by decide) h⟩

theorem decided_guest : ∃ rows rows',
    explainClasses officeSubnet.1.1 none none none guestClasses guest = .ok rows ∧
    explainClasses officeSubnet.1.1 none none none guestClasses labGuest = .ok rows' ∧
      List.Forall₂ (fun row row' => row'.name = row.name ∧
        ∀ v, row.matched = some v → row'.matched = some v) rows rows' := by
  have hrows : explainClasses officeSubnet.1.1 none none none guestClasses guest = .ok
      [{ name := "guests", expression := .str "not option[77].hex == 'staff'", matched := some true,
         reason := "expression matched", onlyAdditional := false, builtin := false },
       { name := "lab", expression := .str "member('guests') and option[60].hex == 'lab'",
         reason := "undecided — supply vendor class (option 60)", onlyAdditional := false,
         builtin := false, missing := ["vendor_class"] }] := by
    decide +kernel
  obtain ⟨rows', hrows', hall⟩ := decided_explainClasses officeSubnet.1.1 none none none guestClasses extends_guest hrows
  exact ⟨_, rows', hrows, hrows', hall⟩

end JenKea.Explain
