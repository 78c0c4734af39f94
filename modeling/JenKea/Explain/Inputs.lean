import JenKea.Explain.Classes
import JenKea.Lib.Items
import Mathlib.Logic.Function.Basic

/-!
# The inputs of an explanation

`build` of `jen/services/explain_inputs.py`: the inputs of a client, from the lease, from Kea's log and from what a
person typed, the later ones over the earlier. An input of two spellings, a text and its bytes, is typed in one of
them; the other one stays as the evidence has it, and the evaluator looks at the bytes first.
-/

namespace JenKea.Explain

/-! ## Fields -/

/-- `FIELDS`. -/
inductive InputField where
  | mac
  | clientId
  | vendorClass
  | userClass
  | userClassBytes
  | hostname
  | circuitId
  | circuitIdHex
  | remoteId
  | giaddr
  deriving DecidableEq

/-- `SOURCE_LABELS`. -/
inductive InputSource where
  | mac
  | lease
  | leaseRelay
  | logClasses
  | logLabel
  | logPacket
  | typed
  deriving DecidableEq

/-- The fields that can be typed. -/
def typeable : List InputField :=
  [.clientId, .vendorClass, .userClass, .userClassBytes, .hostname, .circuitId, .circuitIdHex, .remoteId, .giaddr]

/-- The fields that a packet dump may have. -/
def dumped : List InputField :=
  [.hostname, .vendorClass, .clientId, .userClass, .userClassBytes, .circuitId, .circuitIdHex, .remoteId]

/-! ## Evidence -/

/-- The current lease, with what `relay_info_from_user_context` reads of its user context. -/
structure LeaseInput where
  clientId : String := ""
  hostname : String := ""
  circuitId : String := ""
  circuitIdHex : String := ""
  remoteId : String := ""

/-- What the log said: a value for each field, and when. -/
structure Query where
  value : InputField → String
  time : String := ""

/-- The lease and the log. -/
structure Evidence where
  classes : Option Assigned := none
  lease : Option LeaseInput := none
  /-- The client id of the log lines, and when. -/
  cid : Option (String × String) := none
  query : Option Query := none

/-! ## Building -/

/-- The inputs, where each is from, and when it was logged. -/
structure Built where
  client : InputField → String
  source : InputField → Option InputSource
  time : InputField → String

/-- Characters two by two, with colons between the pairs. -/
def colonPairs : List Char → List Char
  | a :: b :: c :: cs => a :: b :: ':' :: colonPairs (c :: cs)
  | cs => cs

/-- `_colon_hex`. -/
def colonHex (value : String) : String :=
  let body := (value.toList.filter Text.isHexDigit).map Char.toLower
  if body.length % 2 = 0 then String.ofList (colonPairs body) else ""

/-- `put`: a value that is not blank. -/
def Built.put (b : Built) (field : InputField) (value : String) (source : InputSource) (time : String) : Built :=
  let value := Text.strip value
  if value = "" then b
  else
    { client := Function.update b.client field value, source := Function.update b.source field (some source),
      time := Function.update b.time field (if time = "" then "" else "at " ++ time) }

/-- `vendor_class_from`. -/
def vendorClassFrom (classes : List String) : String :=
  ((classes.filterMap fun name => Explain.afterPrefix "VENDOR_CLASS_".toList name.toList).find? fun rest => rest ≠ []).elim ""
    String.ofList

/-- The inputs before any evidence. -/
def initial (mac : String) : Built where
  client field := if field = .mac then mac.toLower else ""
  source field := if field = .mac then some .mac else none
  time _ := ""

/-- What the classes of the log say. -/
def putClasses (classes : Option Assigned) (b : Built) : Built :=
  match classes with
  | none => b
  | some a =>
    let stale := if a.beforeConfigChange then " (observed before the config changed)" else ""
    b.put .vendorClass (vendorClassFrom a.classes) .logClasses (a.time ++ stale)

/-- What the lease says. -/
def putLease (lease : Option LeaseInput) (b : Built) : Built :=
  match lease with
  | none => b
  | some l =>
    ((((b.put .clientId (colonHex l.clientId) .lease "").put .hostname l.hostname .lease "").put .circuitId l.circuitId
      .leaseRelay "").put .circuitIdHex l.circuitIdHex .leaseRelay "").put .remoteId l.remoteId .leaseRelay ""

/-- What the client id of the log lines says. -/
def putCid (cid : Option (String × String)) (b : Built) : Built :=
  match cid with
  | none => b
  | some (value, time) => b.put .clientId value .logLabel time

/-- What the packet dump says. -/
def putQuery (query : Option Query) (b : Built) : Built :=
  match query with
  | none => b
  | some q => dumped.foldl (fun b field => b.put field (q.value field) .logPacket q.time) b

/-- What is written for a typed value. -/
def typedValue (typed : InputField → String) (field : InputField) : String :=
  let value := Text.strip (typed field)
  if field = .userClassBytes ∨ field = .circuitIdHex then Text.orElse (colonHex value) value else value

/-- The inputs before anything typed. -/
def inferred (mac : String) (evidence : Evidence) (auto : Bool) : Built :=
  if auto then
    putQuery evidence.query (putCid evidence.cid (putLease evidence.lease (putClasses evidence.classes (initial mac))))
  else initial mac

/-- `build`. -/
def build (mac : String) (typed : InputField → String) (evidence : Evidence) (auto : Bool) : Built :=
  typeable.foldl (fun b field => b.put field (typedValue typed field) .typed "") (inferred mac evidence auto)

/-- The client that is evaluated. -/
def Built.toClient (b : Built) : Client :=
  { mac := b.client .mac, clientId := b.client .clientId, vendorClass := b.client .vendorClass,
    userClass := b.client .userClass, hostname := b.client .hostname, circuitId := b.client .circuitId,
    remoteId := b.client .remoteId, userClassBytes := b.client .userClassBytes, circuitIdHex := b.client .circuitIdHex }

/-! ## What was typed -/

/-- The field of an accessor. -/
def Accessor.field : Accessor → InputField
  | .vendorClass => .vendorClass
  | .userClass => .userClass
  | .hostname => .hostname
  | .mac => .mac
  | .clientId => .clientId
  | .circuitId => .circuitId
  | .remoteId => .remoteId

/-- The field that holds the bytes of an accessor, where there is one. -/
def Accessor.bytesField : Accessor → Option InputField
  | .userClass => some .userClassBytes
  | .circuitId => some .circuitIdHex
  | _ => none

/-- The fields of an accessor. -/
def Accessor.fields (acc : Accessor) : List InputField := acc.field :: acc.bytesField.toList

/-- The accessors of a test. -/
def Node.accessors : Node → List Accessor
  | .and left right | .or left right => left.accessors ++ right.accessors
  | .not node => node.accessors
  | .member _ => []
  | .eq left _ => [left.accessor]

/-- The value of a field is no blank. -/
def isTyped (typed : InputField → String) (field : InputField) : Prop :=
  field ≠ .mac ∧ Text.strip (typed field) ≠ ""

/-- The client that is built. -/
def builtClient (mac : String) (typed : InputField → String) (evidence : Evidence) (auto : Bool) : Client :=
  (build mac typed evidence auto).toClient

/-- A test has the value that the typed inputs give it: where two pieces of evidence leave every input of the test
as it is, typed inputs apart, it has the same value with both. -/
def TypedWins (typed : InputField → String) : Prop :=
  ∀ (mac : String) (evidence evidence' : Evidence) (auto auto' : Bool) (node : Node) (members : Members),
    (∀ acc ∈ node.accessors, (∃ field ∈ acc.fields, isTyped typed field) ∨
      ∀ field ∈ acc.fields, (build mac typed evidence auto).client field = (build mac typed evidence' auto').client field) →
    evaluate (builtClient mac typed evidence auto) members node =
      evaluate (builtClient mac typed evidence' auto') members node

/-- An input of two spellings that is typed at all has its bytes typed, and these are read, or the text is typed
too. -/
def BytesTyped (typed : InputField → String) : Prop :=
  ∀ (acc : Accessor) (bytesField : InputField), acc.bytesField = some bytesField →
    isTyped typed acc.field ∨ isTyped typed bytesField →
      bare (typedValue typed bytesField) ≠ "" ∨ isTyped typed bytesField ∧ isTyped typed acc.field

section Built

variable {b : Built} {field : InputField} {fields : List InputField} {value time : String} {source : InputSource}

theorem client_put (other : InputField) :
    (b.put field value source time).client other =
      if other = field ∧ Text.strip value ≠ "" then Text.strip value else b.client other := by
  have hput : (b.put field value source time).client =
      if Text.strip value = "" then b.client else Function.update b.client field (Text.strip value) :=
    apply_ite Built.client _ _ _
  rw [hput]
  by_cases hblank : Text.strip value = ""
  · rw [if_pos hblank, if_neg fun h => h.2 hblank]
  · rw [if_neg hblank]
    by_cases hother : other = field
    · rw [if_pos ⟨hother, hblank⟩, hother, Function.update_self]
    · rw [if_neg fun h => hother h.1, Function.update_of_ne hother]

/-- Values for some fields: a field has its value where that is not blank. -/
theorem client_foldl_put {values : InputField → String} (hfields : fields.Nodup) (other : InputField) :
    (fields.foldl (fun b field => b.put field (values field) source time) b).client other =
      if other ∈ fields ∧ Text.strip (values other) ≠ "" then Text.strip (values other) else b.client other := by
  induction fields generalizing b with
  | nil => simp
  | cons f fields ih =>
    obtain ⟨hf, hfields⟩ := List.nodup_cons.mp hfields
    rw [List.foldl_cons, ih hfields, client_put]
    by_cases hother : other = f
    · subst hother
      simp [hf]
    · simp [hother]

end Built

section Typed

variable {typed : InputField → String} {field : InputField}

theorem isSpace_of_mem_colonPairs {cs : List Char} (h : ∀ c ∈ cs, Text.isSpace c = false) :
    ∀ c ∈ colonPairs cs, Text.isSpace c = false := by
  induction cs using colonPairs.induct with
  | case1 a b c cs ih =>
    rw [colonPairs]
    simp only [List.forall_mem_cons] at h ⊢
    exact ⟨h.1, h.2.1, by decide, ih (List.forall_mem_cons.mpr h.2.2)⟩
  | case2 cs hshort =>
    rw [colonPairs]
    · exact h
    · exact hshort

theorem isSpace_of_mem_colonHex {value : String} : ∀ c ∈ (colonHex value).toList, Text.isSpace c = false := by
  have hbody : ∀ c ∈ (value.toList.filter Text.isHexDigit).map Char.toLower, Text.isSpace c = false := by
    intro c hc
    obtain ⟨d, hd, rfl⟩ := List.mem_map.mp hc
    have hall : ("0123456789abcdefABCDEF".toList.all fun c => !Text.isSpace c.toLower) = true := by decide
    have hlower := List.all_eq_true.mp hall d (Text.isHexDigit_mem (List.mem_filter.mp hd).2)
    rwa [Bool.not_eq_true'] at hlower
  unfold colonHex
  dsimp only
  split_ifs with heven
  · rw [String.toList_ofList]
    exact isSpace_of_mem_colonPairs hbody
  · exact fun c hc => absurd hc List.not_mem_nil

/-- A typed value has no blanks around it, and is written just where it is no blank. -/
theorem strip_typedValue : Text.strip (typedValue typed field) = typedValue typed field := by
  unfold typedValue Text.orElse
  dsimp only
  split_ifs with hbytes hempty
  · exact Text.strip_strip _
  · exact Text.strip_of_all isSpace_of_mem_colonHex
  · exact Text.strip_strip _

theorem typedValue_ne_empty : typedValue typed field ≠ "" ↔ Text.strip (typed field) ≠ "" := by
  unfold typedValue Text.orElse
  dsimp only
  split_ifs with hbytes hempty
  · rfl
  · refine iff_of_true hempty fun hblank => hempty ?_
    rw [hblank]
    rfl
  · rfl

/-- A field that was typed has what was typed, and any other what was inferred. -/
theorem client_build (mac : String) (evidence : Evidence) (auto : Bool) :
    (build mac typed evidence auto).client field =
      if field ≠ .mac ∧ Text.strip (typed field) ≠ "" then typedValue typed field
      else (inferred mac evidence auto).client field := by
  have hnodup : typeable.Nodup := by decide
  have hmem : field ∈ typeable ↔ field ≠ .mac := by cases field <;> decide
  unfold build
  rw [client_foldl_put hnodup, strip_typedValue]
  simp only [hmem, typedValue_ne_empty, ne_eq]

theorem client_build_of_typed (mac : String) (evidence : Evidence) (auto : Bool) (h : isTyped typed field) :
    (build mac typed evidence auto).client field = typedValue typed field := by
  rw [client_build]
  exact if_pos h

end Typed

section Tests

variable {c c' : Client} {acc : Accessor} {b b' : Built}

theorem input_toClient : acc.input b.toClient = (b.client acc.field, (acc.input b.toClient).2) := by
  cases acc <;> rfl

theorem candidates_congr (hinput : acc.input c = acc.input c') (hexact : acc.exact c = acc.exact c') :
    candidates c acc = candidates c' acc := by
  unfold candidates clientBytes
  rw [hinput, hexact]

/-- What an accessor may be reading depends on its fields. -/
theorem candidates_toClient (h : ∀ field ∈ acc.fields, b.client field = b'.client field) :
    candidates b.toClient acc = candidates b'.toClient acc := by
  refine candidates_congr ?_ ?_
  · have hfield := h acc.field List.mem_cons_self
    cases acc <;> exact congrArg (·, _) hfield
  · cases acc with
    | userClass => exact congrArg (fun v => some (v, _)) (h .userClassBytes (by decide))
    | circuitId => exact congrArg (fun v => some (v, _)) (h .circuitIdHex (by decide))
    | vendorClass | hostname | mac | clientId | remoteId => rfl

/-- A test has the value that its accessors give it. -/
theorem evaluate_congr {members : Members} {node : Node}
    (h : ∀ acc ∈ node.accessors, (candidates c acc).1 = (candidates c' acc).1) :
    evaluate c members node = evaluate c' members node := by
  induction node with
  | and left right ihl ihr =>
    rw [Node.accessors, List.forall_mem_append] at h
    rw [evaluate, evaluate, ihl h.1, ihr h.2]
  | or left right ihl ihr =>
    rw [Node.accessors, List.forall_mem_append] at h
    rw [evaluate, evaluate, ihl h.1, ihr h.2]
  | not node ih =>
    rw [evaluate, evaluate, ih h]
  | member name => rfl
  | eq left literal =>
    have hcandidates := h left.accessor (List.mem_singleton_self _)
    have hvalue : ∀ v, (compare c left literal).1 = some v ↔ (compare c' left literal).1 = some v := fun v => by
      rw [compare_eq_some, compare_eq_some, hcandidates]
    exact Option.ext hvalue

theorem exact_toClient {bytesField : InputField} (hbytes : acc.bytesField = some bytesField) :
    ∃ name, ∀ b : Built, acc.exact b.toClient = some (b.client bytesField, name) := by
  cases acc with
  | userClass =>
    obtain rfl := Option.some.inj hbytes
    exact ⟨"user_class_bytes", fun _ => rfl⟩
  | circuitId =>
    obtain rfl := Option.some.inj hbytes
    exact ⟨"circuit_id_hex", fun _ => rfl⟩
  | vendorClass | hostname | mac | clientId | remoteId => cases hbytes

/-- What an accessor with bytes of its own may be reading: these, and else its text. -/
theorem candidates_fst_toClient {bytesField : InputField} (hbytes : acc.bytesField = some bytesField) (b : Built) :
    (candidates b.toClient acc).1 =
      if bare (b.client bytesField) ≠ "" then (hexBytes (bare (b.client bytesField))).map fun bytes => [bytes]
      else if Text.strip (b.client acc.field) = "" then none
      else some (readings acc (Text.strip (b.client acc.field))) := by
  obtain ⟨name, hexact⟩ := exact_toClient hbytes
  rw [candidates_fst_of_exact (hexact b), input_toClient]

end Tests

/-! ## Evidence that counts -/

/-- A packet dump with one field. -/
def dump (field : InputField) (value : String) : Evidence :=
  { query := some { value := fun other => if other = field then value else "" } }

section Dumps

variable {typed : InputField → String} {acc : Accessor} {field bytesField : InputField} {value : String}

theorem client_inferred_dump (mac : String) (hfield : field ∈ dumped) (hvalue : Text.strip value ≠ "") :
    (inferred mac (dump field value) true).client field = Text.strip value := by
  have hnodup : dumped.Nodup := by decide
  have hinferred : inferred mac (dump field value) true =
      dumped.foldl (fun b other => b.put other (if other = field then value else "") .logPacket "") (initial mac) := rfl
  rw [hinferred, client_foldl_put hnodup, if_pos]
  · rw [if_pos rfl]
  · rw [if_pos rfl]
    exact ⟨hfield, hvalue⟩

/-- What was not typed has what the dump says. -/
theorem client_dump (mac : String) (htyped : ¬ isTyped typed field) (hfield : field ∈ dumped)
    (hvalue : Text.strip value ≠ "") : (build mac typed (dump field value) true).client field = Text.strip value := by
  rw [client_build]
  exact (if_neg htyped).trans (client_inferred_dump mac hfield hvalue)

/-- Where the text alone is typed, the bytes of the log are read. -/
theorem evaluate_dump_bytes (hbytes : acc.bytesField = some bytesField) (htyped : ¬ isTyped typed bytesField)
    (hstrip : Text.strip value = value) (hbare : bare value = value) {byte : UInt8} (hread : hexBytes value = some [byte])
    (literal : UInt8) :
    evaluate (builtClient "" typed (dump bytesField value) true) .empty (.eq (.acc acc) [literal]) =
      some (decide (byte = literal)) := by
  have hne : value ≠ "" := by
    rintro rfl
    cases hread
  have hdumped : bytesField ∈ dumped := by cases acc <;> cases hbytes <;> decide
  have hclient : (build "" typed (dump bytesField value) true).client bytesField = value := by
    rw [client_dump "" htyped hdumped (by rwa [hstrip]), hstrip]
  have hcandidates : (candidates (build "" typed (dump bytesField value) true).toClient acc).1 = some [[byte]] := by
    rw [candidates_fst_toClient hbytes, hclient, hbare, if_pos hne, hread]
    rfl
  refine compare_eq_some.mpr ⟨[[byte]], hcandidates, List.cons_ne_nil _ _, ?_⟩
  rw [List.forall_mem_singleton]
  show decide ([byte] = [literal]) = _
  simp

/-- Where the bytes are typed and are none, the text of the log is read. -/
theorem evaluate_dump_text (hbytes : acc.bytesField = some bytesField) (hblank : bare (typedValue typed bytesField) = "")
    (htypedBytes : isTyped typed bytesField) (htyped : ¬ isTyped typed acc.field) (hstrip : Text.strip value = value)
    (hne : value ≠ "") {v : Bool} {literal : Bytes} :
    evaluate (builtClient "" typed (dump acc.field value) true) .empty (.eq (.acc acc) literal) = some v ↔
      ∀ bytes ∈ readings acc value, decide (bytes = literal) = v := by
  have hdumped : acc.field ∈ dumped := by cases acc <;> cases hbytes <;> decide
  have hclient : (build "" typed (dump acc.field value) true).client acc.field = value := by
    rw [client_dump "" htyped hdumped (by rwa [hstrip]), hstrip]
  have hcandidates : (candidates (build "" typed (dump acc.field value) true).toClient acc).1 =
      some (readings acc value) := by
    rw [candidates_fst_toClient hbytes, client_build_of_typed "" _ true htypedBytes, hblank, hclient, hstrip,
      if_neg fun h => h rfl, if_neg hne]
  refine compare_eq_some.trans ⟨?_, fun h => ⟨_, hcandidates, readings_ne_nil, h⟩⟩
  rintro ⟨options, hoptions, -, hall⟩
  obtain rfl := Option.some.inj (hcandidates.symm.trans hoptions)
  exact hall

end Dumps

section Typed

variable {typed : InputField → String} {acc : Accessor}

/-- Where the bytes are typed with an input, evidence does not count for it. -/
theorem candidates_of_typed (h : BytesTyped typed) (htyped : ∃ field ∈ acc.fields, isTyped typed field) (mac : String)
    (evidence evidence' : Evidence) (auto auto' : Bool) :
    (candidates (builtClient mac typed evidence auto) acc).1 = (candidates (builtClient mac typed evidence' auto') acc).1 := by
  unfold builtClient
  have hclient : ∀ field, isTyped typed field →
      (build mac typed evidence auto).client field = (build mac typed evidence' auto').client field := by
    intro field hfield
    rw [client_build_of_typed mac _ _ hfield, client_build_of_typed mac _ _ hfield]
  obtain ⟨field, hfield, htyped⟩ := htyped
  cases hbytes : acc.bytesField with
  | none =>
    -- an input of one spelling
    refine congrArg Prod.fst (candidates_toClient fun other hother => hclient other ?_)
    unfold Accessor.fields at hfield hother
    rw [hbytes] at hfield hother
    rwa [List.mem_singleton.mp hother, ← List.mem_singleton.mp hfield]
  | some bytesField =>
    have hone : isTyped typed acc.field ∨ isTyped typed bytesField := by
      unfold Accessor.fields at hfield
      rw [hbytes] at hfield
      rcases List.mem_cons.mp hfield with rfl | hfield
      · exact .inl htyped
      · exact .inr (List.mem_singleton.mp hfield ▸ htyped)
    rcases h acc bytesField hbytes hone with hread | ⟨htypedBytes, htext⟩
    · have htypedBytes : isTyped typed bytesField := by
        refine ⟨by cases acc <;> cases hbytes <;> decide, fun hblank => hread ?_⟩
        have hempty : typedValue typed bytesField = "" := by
          by_contra hne
          exact typedValue_ne_empty.mp hne hblank
        rw [hempty]
        decide
      rw [candidates_fst_toClient hbytes, candidates_fst_toClient hbytes, client_build_of_typed mac _ _ htypedBytes,
        client_build_of_typed mac _ _ htypedBytes, if_pos hread, if_pos hread]
    · refine congrArg Prod.fst (candidates_toClient fun other hother => hclient other ?_)
      unfold Accessor.fields at hother
      rw [hbytes] at hother
      rcases List.mem_cons.mp hother with rfl | hother
      · exact htext
      · rwa [List.mem_singleton.mp hother]

/-- Where the bytes are not typed with an input, some test of it depends on the evidence. -/
theorem exists_evidence {bytesField : InputField} (hbytes : acc.bytesField = some bytesField)
    (hblank : bare (typedValue typed bytesField) = "") (hone : ¬ (isTyped typed bytesField ∧ isTyped typed acc.field)) :
    ∃ evidence evidence' literal, evaluate (builtClient "" typed evidence true) .empty (.eq (.acc acc) literal) ≠
      evaluate (builtClient "" typed evidence' true) .empty (.eq (.acc acc) literal) := by
  by_cases htypedBytes : isTyped typed bytesField
  · have htext : ¬ isTyped typed acc.field := fun htext => hone ⟨htypedBytes, htext⟩
    refine ⟨dump acc.field "a", dump acc.field "b", encode "b", fun hsame => ?_⟩
    have ha : evaluate (builtClient "" typed (dump acc.field "a") true) .empty (.eq (.acc acc) (encode "b")) =
        some false :=
      (evaluate_dump_text hbytes hblank htypedBytes htext (by decide) (by decide)).mpr
        (by cases acc <;> decide)
    have hb := (evaluate_dump_text hbytes hblank htypedBytes htext (by decide) (by decide)).mp (hsame.symm.trans ha)
    revert hb
    cases acc <;> decide
  · refine ⟨dump bytesField "00", dump bytesField "01", [0], fun hsame => ?_⟩
    have hread : hexBytes "00" = some [0] ∧ hexBytes "01" = some [1] := by decide
    rw [evaluate_dump_bytes hbytes htypedBytes (by decide) (by decide) hread.1,
      evaluate_dump_bytes hbytes htypedBytes (by decide) (by decide) hread.2] at hsame
    revert hsame
    decide

end Typed

/-- What was typed wins just where an input of two spellings is typed in its bytes. -/
theorem typedWins_iff (typed : InputField → String) : TypedWins typed ↔ BytesTyped typed := by
  constructor
  · intro h acc bytesField hbytes htyped
    by_contra hnot
    obtain ⟨hblank, hone⟩ := not_or.mp hnot
    obtain ⟨evidence, evidence', literal, hne⟩ := exists_evidence hbytes (not_not.mp hblank) hone
    refine hne (h "" evidence evidence' true true _ .empty fun acc' hacc' => .inl ?_)
    obtain rfl : acc' = acc := List.mem_singleton.mp hacc'
    rcases htyped with htext | htext
    · exact ⟨acc'.field, List.mem_cons_self, htext⟩
    · exact ⟨bytesField, List.mem_cons_of_mem _ (by rw [hbytes]; exact List.mem_singleton_self _), htext⟩
  · intro h mac evidence evidence' auto auto' node members hinputs
    refine evaluate_congr fun acc hacc => ?_
    rcases hinputs acc hacc with htyped | hagree
    · exact candidates_of_typed h htyped mac evidence evidence' auto auto'
    · exact congrArg Prod.fst (candidates_toClient hagree)

/-- A person types the user class, and nothing else. -/
def guestTyped : InputField → String := fun field => if field = .userClass then "guest" else ""

/-- The log has the user class of an earlier packet, which is what is compared. -/
theorem guest_overridden : ¬ ∀ typed : InputField → String, TypedWins typed := by
  intro h
  have hsame := h guestTyped "" (dump .userClassBytes "03:6c:61:62") {} true true
    (.eq (.substr .userClass 1 3) (encode "lab")) .empty
    fun acc hacc => .inl ⟨.userClass, by rw [List.mem_singleton.mp hacc]; decide, by unfold isTyped; decide⟩
  have hlog : evaluate (builtClient "" guestTyped (dump .userClassBytes "03:6c:61:62") true) .empty
      (.eq (.substr .userClass 1 3) (encode "lab")) = some true := by decide
  have hnone : evaluate (builtClient "" guestTyped {} true) .empty (.eq (.substr .userClass 1 3) (encode "lab")) =
      some false := by decide
  rw [hlog, hnone] at hsame
  cases hsame

end JenKea.Explain
