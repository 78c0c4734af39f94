import JenKea.Explain.Built

/-!
# The builder and the evaluator

What the rules of a class say of a client, read from the rule rows alone, against what the evaluator makes
of the expression that the builder writes for them. The two agree on every client that supplies the inputs,
unless the answer hangs on a prefix that is no ASCII.
-/

namespace JenKea.Explain

open Import
open Text (isHexDigit hexValue fromHex isHexDigit_mem hexValue_toLower fromHex_toLower exists_fromHex fromHex_hex)

/-! ## What rules say -/

/-- The field of the packet that a rule row is about. -/
def fieldAccessor (field : String) : Option Accessor :=
  [("vendor_class", Accessor.vendorClass), ("user_class", .userClass), ("user_class_lp", .userClass),
    ("hostname", .hostname), ("mac", .mac), ("mac_oui", .mac), ("client_id", .clientId),
    ("circuit_id", .circuitId), ("remote_id", .remoteId)].lookup field

/-- What a rule row's field is compared as. -/
def kindOf (rule : Rule) : Option Kind := (fields.lookup rule.field).map Field.kind

/-- The bytes of the field are the value, or start with it. -/
def kindHolds (kind : Kind) (op value : String) (v : Bytes) : Bool :=
  let text := encode (Text.strip value)
  match kind with
  | .string => if op = "starts_with" then text.isPrefixOf v else v = text
  | .userClassLp =>
    if op = "starts_with" then text.isPrefixOf (v.drop 1) else v = UInt8.ofNat text.length :: text
  | .mac | .hex => hexBytes (bare value) = some v
  | .oui => (hexBytes (bare value)).any fun bytes => bytes.isPrefixOf v
  | .member => false

/-- A rule row, of a client. -/
def holds (client : Client) (members : Members) (rule : Rule) : Bool :=
  match kindOf rule with
  | some .member => members.state (Text.strip rule.value) = some true
  | some kind => ((fieldAccessor rule.field).bind client.sends).any (kindHolds kind rule.op rule.value)
  | none => false

/-- The client supplies what a rule row asks for: the bytes of its field, or whether it is in the class. -/
def Supplied (client : Client) (members : Members) (rule : Rule) : Prop :=
  if kindOf rule = some .member then (members.state (Text.strip rule.value)).isSome = true
  else ((fieldAccessor rule.field).bind client.sends).isSome = true

/-- The rules together. -/
def meaning (rules : List Rule) (combinator : Combinator) (negate : Bool) (client : Client)
    (members : Members) : Bool :=
  let body := match combinator with
    | .all => rules.all (holds client members)
    | .any => rules.any (holds client members)
  if negate then !body else body

/-- The row asks for a prefix that has more bytes than characters. -/
def cut (rule : Rule) : Bool :=
  kindOf rule = some .string ∧ rule.op = "starts_with" ∧
    (Text.strip rule.value).length < (encode (Text.strip rule.value)).length

/-- The answer hangs on a prefix that is cut: where all rules are asked for, all hold and one is cut; where
one is, some hold and each of these is cut. -/
def HangsOnCut (rules : List Rule) (combinator : Combinator) (client : Client) (members : Members) :
    Prop :=
  match combinator with
  | .all => (∀ r ∈ rules, holds client members r = true) ∧ ∃ r ∈ rules, cut r = true
  | .any => (∃ r ∈ rules, holds client members r = true) ∧
      ∀ r ∈ rules, holds client members r = true → cut r = true

/-! ## Bytes and digits -/

/-- The bytes that a byte array lists. -/
theorem byteArray_toList (bytes : ByteArray) : bytes.toList = bytes.data.toList := by
  have hloop : ∀ (i : ℕ) (r : List UInt8),
      ByteArray.toList.loop bytes i r = r.reverse ++ bytes.data.toList.drop i := by
    intro i r
    fun_induction ByteArray.toList.loop bytes i r with
    | case1 i r hlt ih =>
      have hlt' : i < bytes.data.toList.length := hlt
      rw [ih, List.reverse_cons, List.drop_eq_getElem_cons hlt']
      have hget : bytes.get! i = bytes.data.toList[i] := by
        simp [ByteArray.get!, hlt]
      rw [hget, List.append_assoc]
      rfl
    | case2 i r hge =>
      have hge' : bytes.data.toList.length ≤ i := Nat.le_of_not_lt hge
      rw [List.drop_eq_nil_of_le hge', List.append_nil]
  exact hloop 0 []

theorem toUTF8_toList (text : String) : text.toUTF8.toList = encode text := by
  rw [byteArray_toList, String.toUTF8_eq_toByteArray, ← String.utf8Encode_toList, List.utf8Encode,
    List.toList_data_toByteArray]
  rfl

/-- A text has no fewer bytes than characters. -/
theorem length_le_encode (text : String) : text.length ≤ (encode text).length := by
  have hchars : ∀ cs : List Char, cs.length ≤ (cs.flatMap String.utf8EncodeChar).length := by
    intro cs
    induction cs with
    | nil => exact Nat.le_refl _
    | cons c cs ih =>
      have hpos := List.length_pos_iff.mpr (String.utf8EncodeChar_ne_nil (c := c))
      rw [List.flatMap_cons, List.length_append, List.length_cons]
      omega
  rw [← String.length_toList]
  exact hchars text.toList

/-! ## One rule row -/

section Rules

variable {client : Client} {members : Members} {rule : Rule} {clause : String}

/-- A comparison of a field whose bytes are known. -/
theorem evaluate_eq {o : Operand} {literal v : Bytes} (h : client.sends o.accessor = some v) :
    evaluate client members (.eq o literal) = some (decide (o.slice v = literal)) := by
  unfold Client.sends at h
  unfold evaluate compare
  split at h
  · next bytes hcandidates =>
    obtain rfl := Option.some.inj h
    cases hc : candidates client o.accessor with
    | mk options field =>
      rw [hc] at hcandidates
      dsimp only at hcandidates
      rw [hcandidates]
      rfl
  · cases h

/-- An entry of the fields names its accessor: of an OUI, the first three bytes of the MAC address. -/
theorem kea_of_lookup {field : String} {entry : Field} (h : fields.lookup field = some entry)
    (hkind : entry.kind ≠ .member) : ∃ acc, fieldAccessor field = some acc ∧
      entry.kea = (if entry.kind = .oui then Operand.substr acc 0 3 else .acc acc).written := by
  have hmem : (field, entry) ∈ fields := by
    obtain ⟨l₁, l₂, hsplit, -⟩ := List.lookup_eq_some_iff.mp h
    rw [hsplit]
    exact List.mem_append_right _ List.mem_cons_self
  have hall : ∀ x ∈ fields, x.2.kind ≠ .member → ∃ acc, fieldAccessor x.1 = some acc ∧
      x.2.kea = (if x.2.kind = .oui then Operand.substr acc 0 3 else .acc acc).written := by
    simp only [fields, List.forall_mem_cons]
    refine ⟨fun _ => ⟨_, rfl, by decide⟩, fun _ => ⟨_, rfl, by decide⟩, fun _ => ⟨_, rfl, by decide⟩,
      fun _ => ⟨_, rfl, by decide⟩, fun _ => ⟨_, rfl, by decide⟩, fun _ => ⟨_, rfl, by decide⟩,
      fun _ => ⟨_, rfl, by decide⟩, fun _ => ⟨_, rfl, by decide⟩, fun _ => ⟨_, rfl, by decide⟩,
      fun hmember => absurd rfl hmember, nofun⟩
  exact hall (field, entry) hmem hkind

theorem of_stringify {value label text : String} (h : stringify value label = .ok text) :
    text = Text.strip value ∧ Text.singleQuote ∉ text.toList := by
  unfold stringify at h
  dsimp only at h
  split_ifs at h with hempty hquote
  obtain rfl := Except.ok.inj h
  exact ⟨rfl, by simpa using hquote⟩

theorem of_hexify {value label text : String} {exactBytes : Option ℕ}
    (h : hexify value label exactBytes = .ok text) : ∃ bytes, text = "0x" ++ (bare value).toLower ∧
      (∀ c ∈ (bare value).toLower.toList, isHexDigit c = true) ∧ (bare value).toLower.toList ≠ [] ∧
      fromHex (bare value).toLower.toList = some bytes ∧ hexBytes (bare value) = some bytes ∧
      ∀ n, exactBytes = some n → bytes.length = n := by
  unfold hexify at h
  dsimp only at h
  change (if bare value = "" ∨ ¬ ((bare value).toList.all isHexDigit = true) ∨
    (bare value).length % 2 = 1 then _ else _) = _ at h
  have hlower : (bare value).toLower.toList = (bare value).toList.map Char.toLower := String.toList_map
  by_cases hbad : bare value = "" ∨ ¬ ((bare value).toList.all isHexDigit = true) ∨
      (bare value).length % 2 = 1
  · rw [if_pos hbad] at h
    cases h
  · rw [if_neg hbad] at h
    push Not at hbad
    obtain ⟨hne, hall, hodd⟩ := hbad
    have hdigits : ∀ c ∈ (bare value).toList, isHexDigit c = true := List.all_eq_true.mp hall
    have heven : (bare value).toList.length % 2 = 0 := by
      rw [String.length_toList]
      omega
    obtain ⟨bytes, hbytes, hlength⟩ := exists_fromHex hdigits heven
    have hne' : (bare value).toList ≠ [] := by
      rwa [Ne, String.toList_eq_nil_iff]
    have htext : text = "0x" ++ (bare value).toLower ∧ ∀ n, exactBytes = some n → bytes.length = n := by
      cases exactBytes with
      | none => exact ⟨(Except.ok.inj h).symm, nofun⟩
      | some n =>
        dsimp only at h
        split_ifs at h with hexact
        refine ⟨(Except.ok.inj h).symm, fun m hm => ?_⟩
        obtain rfl := Option.some.inj hm
        have hchars : (bare value).length = 2 * bytes.length := by
          rw [← String.length_toList]
          exact hlength
        have hexact' : (bare value).length = n * 2 := not_not.mp hexact
        omega
    refine ⟨bytes, htext.1, fun c hc => ?_, ?_, ?_, ?_, htext.2⟩
    · rw [hlower] at hc
      obtain ⟨d, hd, rfl⟩ := List.mem_map.mp hc
      exact (hexValue_toLower (hdigits d hd)).1
    · rw [hlower]
      simpa using hne'
    · rw [hlower, fromHex_toLower hdigits, hbytes]
    · rw [hexBytes, if_neg hne, hbytes]

/-- A comparison is what its rule row says, when it compares the bytes as the row says. -/
theorem evaluate_field {kind : Kind} {acc : Accessor} {o : Operand} {literal : Bytes}
    (hkind : kindOf rule = some kind) (hmember : kind ≠ .member)
    (hacc : fieldAccessor rule.field = some acc) (ho : o.accessor = acc)
    (hslice : ∀ v, decide (o.slice v = literal) =
      (kindHolds kind rule.op rule.value v && !cut rule))
    (hsupplied : Supplied client members rule) :
    evaluate client members (.eq o literal) = some (holds client members rule && !cut rule) := by
  have hnotMember : kindOf rule ≠ some .member := by
    rw [hkind]
    exact fun heq => hmember (Option.some.inj heq)
  rw [Supplied, if_neg hnotMember, hacc, Option.bind_some] at hsupplied
  obtain ⟨v, hv⟩ := Option.isSome_iff_exists.mp hsupplied
  have hholds : holds client members rule = kindHolds kind rule.op rule.value v := by
    rw [holds, hkind, hacc, Option.bind_some, hv]
    cases kind with
    | member => exact absurd rfl hmember
    | _ => rfl
  rw [evaluate_eq (ho ▸ hv), hslice v, hholds]

/-- A prefix, by its bytes. -/
theorem isPrefixOf_iff_take {bytes v : Bytes} :
    bytes.isPrefixOf v = decide (v.take bytes.length = bytes) := by
  rw [Bool.eq_iff_iff, decide_eq_true_eq, List.isPrefixOf_iff_prefix, List.prefix_iff_eq_take, eq_comm]

/-- A comparison with the prefix of a text is cut where the text has more bytes than characters. -/
theorem decide_take_text {text : String} {v : Bytes} :
    decide (v.take text.length = encode text) =
      ((encode text).isPrefixOf v && !decide (text.length < (encode text).length)) := by
  by_cases hcut : text.length < (encode text).length
  · have hne : v.take text.length ≠ encode text := by
      intro heq
      have hlength := congrArg List.length heq
      rw [List.length_take] at hlength
      omega
    rw [decide_eq_false hne, decide_eq_true hcut, Bool.not_true, Bool.and_false]
  · have hlength : text.length = (encode text).length :=
      Nat.le_antisymm (length_le_encode text) (Nat.le_of_not_lt hcut)
    rw [decide_eq_false hcut, Bool.not_false, Bool.and_true, isPrefixOf_iff_take, ← hlength]

/-- Only a prefix of a text is cut. -/
theorem cut_eq {kind : Kind} (hkind : kindOf rule = some kind) :
    cut rule = (decide (kind = .string) && (decide (rule.op = "starts_with") &&
      decide ((Text.strip rule.value).length < (encode (Text.strip rule.value)).length))) := by
  rw [cut, hkind]
  simp

/-- The clause is read back, and evaluated as what its rule row says, unless it is cut. -/
def Understood (rule : Rule) (clause : String) : Prop :=
  ∃ ts node, Reads clause ts node ∧ ∀ client members, Supplied client members rule →
    evaluate client members node = some (holds client members rule && !cut rule)

/-- A comparison with a literal in hexadecimal is understood. -/
theorem understood_hexify {kind : Kind} {o : Operand} {exactBytes : Option ℕ}
    (hkind : kindOf rule = some kind) (hmember : kind ≠ .member) (hstring : kind ≠ .string)
    (hacc : fieldAccessor rule.field = some o.accessor)
    (hslice : ∀ bytes v, hexBytes (bare rule.value) = some bytes →
      (∀ n, exactBytes = some n → bytes.length = n) →
      decide (o.slice v = bytes) = kindHolds kind rule.op rule.value v)
    (h : (do let value ← hexify rule.value rule.field exactBytes
             return o.written ++ " == " ++ value) = Except.ok clause) : Understood rule clause := by
  cases htext : hexify rule.value rule.field exactBytes with
  | error message =>
    rw [htext] at h
    cases h
  | ok text =>
    rw [htext] at h
    obtain rfl := Except.ok.inj h
    obtain ⟨bytes, rfl, hdigits, hne, hbytes, hvalue, hlength⟩ := of_hexify htext
    refine ⟨_, _, reads_hex o hdigits hne hbytes, fun client members hsupplied =>
      evaluate_field hkind hmember hacc rfl (fun v => ?_) hsupplied⟩
    rw [hslice bytes v hvalue hlength, cut_eq hkind, decide_eq_false hstring, Bool.false_and,
      Bool.not_false, Bool.and_true]

/-- A comparison with a text is understood. -/
theorem understood_quoted {kind : Kind} {o : Operand} {text : String}
    (hkind : kindOf rule = some kind) (hmember : kind ≠ .member)
    (hacc : fieldAccessor rule.field = some o.accessor)
    (htext : stringify rule.value rule.field = .ok text)
    (hslice : ∀ v, decide (o.slice v = encode (Text.strip rule.value)) =
      (kindHolds kind rule.op rule.value v && !cut rule)) :
    Understood rule (o.written ++ " == " ++ quoted text) := by
  obtain ⟨rfl, hquote⟩ := of_stringify htext
  exact ⟨_, _, reads_quoted o hquote, fun client members hsupplied =>
    evaluate_field hkind hmember hacc rfl hslice hsupplied⟩

/-- A part of a field, as the builder writes it. -/
theorem written_substr (acc : Accessor) (start length : ℕ) (rest : String) :
    "substring(" ++ acc.text ++ ("," ++ toString start ++ ",") ++ toString length ++ (")" ++ rest) =
      (Operand.substr acc start length).written ++ rest := by
  simp only [Operand.written, String.append_assoc]

theorem understood_string {acc : Accessor} (hkind : kindOf rule = some .string)
    (hacc : fieldAccessor rule.field = some acc)
    (h : (do let value ← stringify rule.value rule.field
             if rule.op = "starts_with" then
               return "substring(" ++ acc.text ++ ",0," ++ toString value.length ++ ") == " ++ quoted value
             else return acc.text ++ " == " ++ quoted value) = Except.ok clause) :
    Understood rule clause := by
  cases htext : stringify rule.value rule.field with
  | error message =>
    rw [htext] at h
    cases h
  | ok text =>
    rw [htext] at h
    obtain ⟨hstrip, -⟩ := of_stringify htext
    change (if rule.op = "starts_with" then _ else _) = _ at h
    have hcut := cut_eq hkind
    split_ifs at h with hop
    · obtain rfl := Except.ok.inj h
      have hclause : "substring(" ++ acc.text ++ ",0," ++ toString text.length ++ ") == " ++
          quoted text = (Operand.substr acc 0 text.length).written ++ " == " ++ quoted text := by
        rw [← written_substr]
        have hstart : ",0," = "," ++ toString 0 ++ "," := by decide
        have hend : ") == " = ")" ++ " == " := by decide
        rw [hstart, hend]
      rw [hclause]
      refine understood_quoted hkind nofun hacc htext fun v => ?_
      have hslice : (Operand.substr acc 0 text.length).slice v =
          v.take (Text.strip rule.value).length := by rw [← hstrip]; rfl
      rw [hslice, decide_take_text, hcut, kindHolds, if_pos hop, decide_eq_true hop,
        decide_eq_true (Eq.refl Kind.string), Bool.true_and, Bool.true_and]
    · obtain rfl := Except.ok.inj h
      refine understood_quoted (o := .acc acc) hkind nofun hacc htext fun v => ?_
      rw [hcut, decide_eq_false hop, kindHolds, if_neg hop, Bool.false_and, Bool.and_false,
        Bool.not_false, Bool.and_true]
      exact decide_eq_decide.mpr Iff.rfl

theorem understood_userClassLp {acc : Accessor} (hkind : kindOf rule = some .userClassLp)
    (hacc : fieldAccessor rule.field = some acc)
    (h : (do let value ← stringify rule.value rule.field
             let raw := value.toUTF8.toList
             if 255 < raw.length then
               .error (rule.field ++ ": a user class is at most 255 bytes")
             else if rule.op = "starts_with" then
               return "substring(" ++ acc.text ++ ",1," ++ toString raw.length ++ ") == " ++ quoted value
             else return acc.text ++ " == 0x" ++ Text.hex (UInt8.ofNat raw.length :: raw)) =
          Except.ok clause) :
    Understood rule clause := by
  cases htext : stringify rule.value rule.field with
  | error message =>
    rw [htext] at h
    cases h
  | ok text =>
    rw [htext] at h
    obtain ⟨hstrip, -⟩ := of_stringify htext
    change (if 255 < text.toUTF8.toList.length then _ else if rule.op = "starts_with" then _ else _) = _
      at h
    rw [toUTF8_toList] at h
    have hnotCut : cut rule = false := by
      rw [cut_eq hkind]
      rfl
    split_ifs at h with hlong hop
    · obtain rfl := Except.ok.inj h
      have hclause : "substring(" ++ acc.text ++ ",1," ++ toString (encode text).length ++ ") == " ++
          quoted text = (Operand.substr acc 1 (encode text).length).written ++ " == " ++ quoted text := by
        rw [← written_substr]
        have hstart : ",1," = "," ++ toString 1 ++ "," := by decide
        have hend : ") == " = ")" ++ " == " := by decide
        rw [hstart, hend]
      rw [hclause]
      refine understood_quoted hkind nofun hacc htext fun v => ?_
      have hslice : (Operand.substr acc 1 (encode text).length).slice v =
          (v.drop 1).take (encode (Text.strip rule.value)).length := by rw [← hstrip]; rfl
      rw [hslice, hnotCut, kindHolds, if_pos hop, isPrefixOf_iff_take]
      simp
    · obtain rfl := Except.ok.inj h
      obtain ⟨hdigits, hbytes⟩ := fromHex_hex (UInt8.ofNat (encode text).length :: encode text)
      have hclause : acc.text ++ " == 0x" ++
          Text.hex (UInt8.ofNat (encode text).length :: encode text) =
            (Operand.acc acc).written ++ " == " ++
              ("0x" ++ Text.hex (UInt8.ofNat (encode text).length :: encode text)) := by
        have hzero : " == 0x" = " == " ++ "0x" := by decide
        rw [hzero, Operand.written]
        simp only [String.append_assoc]
      have hne : (Text.hex (UInt8.ofNat (encode text).length :: encode text)).toList ≠ [] := by
        intro hnil
        rw [hnil] at hbytes
        cases hbytes
      rw [hclause]
      refine ⟨_, _, reads_hex (.acc acc) hdigits hne hbytes, fun client members hsupplied =>
        evaluate_field hkind nofun hacc rfl (fun v => ?_) hsupplied⟩
      rw [hnotCut, kindHolds, if_neg hop, hstrip, Bool.not_false, Bool.and_true]
      exact decide_eq_decide.mpr Iff.rfl

/-- A rule row that the builder accepts is understood. -/
theorem understood_rule (h : ruleExpression rule = .ok clause) : Understood rule clause := by
  unfold ruleExpression at h
  cases hentry : fields.lookup rule.field with
  | none =>
    rw [hentry] at h
    cases h
  | some entry =>
    rw [hentry] at h
    dsimp only at h
    by_cases hop : rule.op ∈ entry.ops
    · rw [if_neg (not_not.mpr hop)] at h
      have hkind : kindOf rule = some entry.kind := by rw [kindOf, hentry]; rfl
      have hkea := kea_of_lookup hentry
      cases hcase : entry.kind with
      | member =>
        rw [hcase] at h hkind
        cases hname : stringify rule.value "member" with
        | error message =>
          rw [hname] at h
          cases h
        | ok name =>
          rw [hname] at h
          obtain rfl := Except.ok.inj h
          obtain ⟨rfl, hquote⟩ := of_stringify hname
          refine ⟨_, _, reads_member hquote, fun client members hsupplied => ?_⟩
          rw [Supplied, if_pos hkind] at hsupplied
          obtain ⟨b, hb⟩ := Option.isSome_iff_exists.mp hsupplied
          rw [evaluate, hb, holds, hkind, cut_eq hkind]
          cases b <;> simp [hb]
      | string =>
        rw [hcase] at h hkind hkea
        obtain ⟨acc, hacc, hkea⟩ := hkea nofun
        rw [hkea] at h
        exact understood_string hkind hacc h
      | userClassLp =>
        rw [hcase] at h hkind hkea
        obtain ⟨acc, hacc, hkea⟩ := hkea nofun
        rw [hkea] at h
        exact understood_userClassLp hkind hacc h
      | mac =>
        rw [hcase] at h hkind hkea
        obtain ⟨acc, hacc, hkea⟩ := hkea nofun
        rw [hkea] at h
        refine understood_hexify (o := .acc acc) hkind nofun nofun hacc (fun bytes v hvalue _ => ?_) h
        rw [kindHolds, hvalue]
        simp [Operand.slice, eq_comm]
      | hex =>
        rw [hcase] at h hkind hkea
        obtain ⟨acc, hacc, hkea⟩ := hkea nofun
        rw [hkea] at h
        refine understood_hexify (o := .acc acc) hkind nofun nofun hacc (fun bytes v hvalue _ => ?_) h
        rw [kindHolds, hvalue]
        simp [Operand.slice, eq_comm]
      | oui =>
        rw [hcase] at h hkind hkea
        obtain ⟨acc, hacc, hkea⟩ := hkea nofun
        rw [hkea] at h
        refine understood_hexify (o := .substr acc 0 3) hkind nofun nofun hacc
          (fun bytes v hvalue hlength => ?_) h
        rw [kindHolds, hvalue, Option.any_some, isPrefixOf_iff_take, hlength 3 rfl]
        rfl
    · rw [if_pos hop] at h
      cases h

/-! ## All rule rows -/

/-- What the evaluator makes of the rules: a row that is cut never holds. -/
def readAs (rules : List Rule) (combinator : Combinator) (negate : Bool) (client : Client)
    (members : Members) : Bool :=
  let body := match combinator with
    | .all => rules.all fun r => holds client members r && !cut r
    | .any => rules.any fun r => holds client members r && !cut r
  if negate then !body else body

/-- The clauses of rule rows. -/
theorem exists_clauses {rules : List Rule} {texts : List String}
    (h : rules.mapM ruleExpression = .ok texts) : ∃ clauses : List Clause,
      clauses.map Prod.fst = texts ∧ clauses.length = rules.length ∧
        (∀ x ∈ clauses, Reads x.1 x.2.1 x.2.2) ∧ ∀ client members, (∀ r ∈ rules, Supplied client members r) →
          clauses.map (fun x => evaluate client members x.2.2) =
            rules.map fun r => some (holds client members r && !cut r) := by
  induction rules generalizing texts with
  | nil =>
    obtain rfl := Except.ok.inj h
    exact ⟨[], rfl, rfl, nofun, fun _ _ _ => rfl⟩
  | cons r rules ih =>
    rw [List.mapM_cons] at h
    cases hclause : ruleExpression r with
    | error message =>
      rw [hclause] at h
      cases h
    | ok clause =>
      cases hrest : rules.mapM ruleExpression with
      | error message =>
        rw [hclause, hrest] at h
        cases h
      | ok rest =>
        rw [hclause, hrest] at h
        obtain rfl := Except.ok.inj h
        obtain ⟨ts, node, hreads, heval⟩ := understood_rule hclause
        obtain ⟨clauses, rfl, hlength, hall, hevals⟩ := ih hrest
        refine ⟨(clause, ts, node) :: clauses, rfl, congrArg (· + 1) hlength, ?_, fun client members hsupplied => ?_⟩
        · rw [List.forall_mem_cons]
          exact ⟨hreads, hall⟩
        · obtain ⟨hr, hrules⟩ := List.forall_mem_cons.mp hsupplied
          rw [List.map_cons, List.map_cons, hevals client members hrules, heval client members hr]

/-- The connective of a combinator, on what is decided. -/
def connective : Combinator → Bool → Bool → Bool
  | .all => Bool.and
  | .any => Bool.or

theorem evaluate_joinNodes {combinator : Combinator} {left : Node} {b : Bool} {clauses : List Clause}
    {bs : List Bool} (hleft : evaluate client members left = some b)
    (h : clauses.map (fun x => evaluate client members x.2.2) = bs.map some) :
    evaluate client members (joinNodes combinator left clauses) =
      some (bs.foldl (connective combinator) b) := by
  induction clauses generalizing left b bs with
  | nil =>
    obtain rfl := List.map_eq_nil_iff.mp h.symm
    exact hleft
  | cons x clauses ih =>
    cases bs with
    | nil => cases h
    | cons b' bs =>
      obtain ⟨hx, hclauses⟩ := List.cons.inj h
      have hx' : evaluate client members x.2.2 = some b' := hx
      refine ih (b := connective combinator b b') ?_ hclauses
      cases combinator with
      | all =>
        rw [nodeOf, evaluate, hleft, hx', Kleene.and_some]
        rfl
      | any =>
        rw [nodeOf, evaluate, hleft, hx', Kleene.or_some]
        rfl

/-- The body of the clauses: the clause alone, or all of them in brackets. -/
def bodyOf (combinator : Combinator) (clauses : List String) : String :=
  match clauses with
  | [clause] => clause
  | _ => (separator combinator).intercalate (clauses.map fun c => "(" ++ c ++ ")")

theorem readsBody_clauses (combinator : Combinator) (x : Clause) (clauses : List Clause)
    (h : ∀ y ∈ x :: clauses, Reads y.1 y.2.1 y.2.2) : ∃ ts,
      ReadsBody (bodyOf combinator ((x :: clauses).map Prod.fst)) ts
        (joinNodes combinator x.2.2 clauses) := by
  cases clauses with
  | nil => exact ⟨x.2.1, readsBody_single (h x List.mem_cons_self)⟩
  | cons y clauses =>
    have hbody : bodyOf combinator ((x :: y :: clauses).map Prod.fst) =
        (separator combinator).intercalate ((x :: y :: clauses).map fun z => "(" ++ z.1 ++ ")") := by
      have htexts : bodyOf combinator ((x :: y :: clauses).map Prod.fst) = (separator combinator).intercalate
          (((x :: y :: clauses).map Prod.fst).map fun c => "(" ++ c ++ ")") := rfl
      rw [htexts, List.map_map]
      rfl
    rw [hbody]
    exact ⟨_, readsBody_join combinator x (y :: clauses) h⟩

theorem buildExpression_eq {rules : List Rule} {combinator : Combinator} {negate : Bool} {text : String}
    (h : buildExpression rules combinator negate = .ok text) : rules ≠ [] ∧ ∃ texts,
      rules.mapM ruleExpression = .ok texts ∧ text = if negate then
        "not (" ++ bodyOf combinator texts ++ ")" else bodyOf combinator texts := by
  unfold buildExpression at h
  by_cases hempty : rules = []
  · rw [if_pos hempty] at h
    cases h
  · rw [if_neg hempty] at h
    refine ⟨hempty, ?_⟩
    cases htexts : rules.mapM ruleExpression with
    | error message =>
      rw [htexts] at h
      cases h
    | ok texts =>
      rw [htexts] at h
      refine ⟨texts, rfl, ?_⟩
      have htext := (Except.ok.inj h).symm
      rw [htext]
      rcases texts with _ | ⟨clause, _ | ⟨clause', texts⟩⟩ <;> cases combinator <;> rfl

/-- What the builder writes is read back, with the rows that are cut taken for rows that do not hold. -/
theorem evaluate_build {rules : List Rule} {combinator : Combinator} {negate : Bool} {text : String}
    (h : buildExpression rules combinator negate = .ok text) : ∃ node,
      parseExpression text = .ok node ∧ ∀ client members, (∀ r ∈ rules, Supplied client members r) →
        evaluate client members node = some (readAs rules combinator negate client members) := by
  obtain ⟨hempty, texts, htexts, rfl⟩ := buildExpression_eq h
  obtain ⟨clauses, rfl, hlength, hall, hevals⟩ := exists_clauses htexts
  obtain ⟨x, clauses, rfl⟩ : ∃ x l, clauses = x :: l :=
    List.exists_cons_of_length_pos (by rw [hlength]; exact List.length_pos_iff.mpr hempty)
  obtain ⟨r, rules, rfl⟩ := List.exists_cons_of_ne_nil hempty
  obtain ⟨ts, hbody⟩ := readsBody_clauses combinator x clauses hall
  -- the rows, evaluated one after the other
  have hvalue : ∀ client members, (∀ r' ∈ r :: rules, Supplied client members r') →
      evaluate client members (joinNodes combinator x.2.2 clauses) =
        some (readAs (r :: rules) combinator false client members) := by
    intro client members hsupplied
    obtain ⟨hx, hclauses⟩ := List.cons.inj (hevals client members hsupplied)
    have hmap : (rules.map fun r => some (holds client members r && !cut r)) =
        (rules.map fun r => holds client members r && !cut r).map some := by rw [List.map_map]; rfl
    rw [evaluate_joinNodes hx (hclauses.trans hmap)]
    unfold readAs
    have hfold : ∀ (b : Bool) (bs : List Bool), bs.foldl (connective .all) b = (b && bs.all id) ∧
        bs.foldl (connective .any) b = (b || bs.any id) := by
      intro b bs
      induction bs generalizing b with
      | nil => simp
      | cons b' bs ih =>
        rw [List.foldl_cons, List.foldl_cons, (ih _).1, (ih _).2]
        simp [connective, Bool.and_assoc, Bool.or_assoc]
    cases combinator with
    | all =>
      rw [(hfold _ _).1]
      simp [List.all_map, Function.comp_def]
    | any =>
      rw [(hfold _ _).2]
      simp [List.any_map, Function.comp_def]
  cases negate with
  | false => exact ⟨_, parseExpression_body hbody, hvalue⟩
  | true =>
    refine ⟨_, parseExpression_not hbody, fun client members hsupplied => ?_⟩
    rw [evaluate, hvalue client members hsupplied, Kleene.not_some]
    rfl

/-- The rows that are cut are missed just where the answer hangs on one. -/
theorem readAs_eq_iff {rules : List Rule} {combinator : Combinator} {negate : Bool} :
    readAs rules combinator negate client members = meaning rules combinator negate client members ↔
      ¬ HangsOnCut rules combinator client members := by
  have hnegate : ∀ a b : Bool, ((if negate then !a else a) = if negate then !b else b) ↔ a = b := by
    cases negate <;> simp
  unfold readAs meaning
  rw [hnegate]
  cases combinator with
  | all =>
    unfold HangsOnCut
    dsimp only
    rw [Bool.eq_iff_iff, List.all_eq_true, List.all_eq_true]
    constructor
    · rintro heq ⟨hall, r, hr, hcut⟩
      have hboth := heq.mpr hall r hr
      rw [hcut, Bool.not_true, Bool.and_false] at hboth
      cases hboth
    · intro hnot
      constructor
      · intro hall r hr
        exact (Bool.and_eq_true_iff.mp (hall r hr)).1
      · intro hall r hr
        rw [hall r hr, Bool.true_and, Bool.not_eq_true']
        by_contra hcut
        exact hnot ⟨hall, r, hr, Bool.not_eq_false _ ▸ hcut⟩
  | any =>
    unfold HangsOnCut
    dsimp only
    rw [Bool.eq_iff_iff, List.any_eq_true, List.any_eq_true]
    constructor
    · rintro heq ⟨hsome, hall⟩
      obtain ⟨r, hr, hboth⟩ := heq.mpr hsome
      obtain ⟨hholds, hcut⟩ := Bool.and_eq_true_iff.mp hboth
      rw [hall r hr hholds] at hcut
      cases hcut
    · intro hnot
      constructor
      · rintro ⟨r, hr, hboth⟩
        exact ⟨r, hr, (Bool.and_eq_true_iff.mp hboth).1⟩
      · intro hsome
        by_contra hnone
        refine hnot ⟨hsome, fun r hr hholds => ?_⟩
        by_contra hcut
        refine hnone ⟨r, hr, ?_⟩
        rw [hholds, Bool.eq_false_iff.mpr hcut]
        rfl

/-- The expression that the builder writes, parsed and evaluated, says of a client that supplies its inputs
what the rules say, just where the answer hangs on no prefix that is cut. -/
theorem agrees_iff (rules : List Rule) (combinator : Combinator) (negate : Bool) (text : String)
    (client : Client) (members : Members) (hbuild : buildExpression rules combinator negate = .ok text)
    (hsupplied : ∀ r ∈ rules, Supplied client members r) :
    (∃ node, parseExpression text = .ok node ∧
        evaluate client members node = some (meaning rules combinator negate client members)) ↔
      ¬ HangsOnCut rules combinator client members := by
  obtain ⟨node, hparse, heval⟩ := evaluate_build hbuild
  rw [← @readAs_eq_iff _ _ _ _ negate]
  constructor
  · rintro ⟨node', hparse', heval'⟩
    obtain rfl := Except.ok.inj (hparse.symm.trans hparse')
    exact Option.some.inj ((heval client members hsupplied).symm.trans heval')
  · intro heq
    exact ⟨node, hparse, by rw [heval client members hsupplied, heq]⟩

/-- A host name in French, by its first letter. -/
def summerRule : Rule := { field := "hostname", op := "starts_with", value := "é" }

/-- The host name starts with the letter, and the evaluator says that it does not. -/
theorem not_agrees_summer : buildExpression [summerRule] .all false =
      .ok "substring(option[12].text,0,1) == 'é'" ∧
    Supplied { hostname := "été" } .empty summerRule ∧
      meaning [summerRule] .all false { hostname := "été" } .empty = true ∧
        ¬ ∃ node, parseExpression "substring(option[12].text,0,1) == 'é'" = .ok node ∧
          evaluate { hostname := "été" } .empty node =
            some (meaning [summerRule] .all false { hostname := "été" } .empty) := by
  have hbuild : buildExpression [summerRule] .all false =
      .ok "substring(option[12].text,0,1) == 'é'" := by decide
  have hsupplied : Supplied { hostname := "été" } .empty summerRule := by
    rw [Supplied, if_neg (by decide)]
    decide
  have hmeaning : meaning [summerRule] .all false { hostname := "été" } .empty = true := by
    decide
  refine ⟨hbuild, hsupplied, hmeaning, ?_⟩
  rintro ⟨node, hparse, heval⟩
  obtain ⟨node', hparse', heval'⟩ := evaluate_build hbuild
  obtain rfl := Except.ok.inj (hparse.symm.trans hparse')
  have hread := heval' { hostname := "été" } .empty fun r hr => by
    rw [List.mem_singleton.mp hr]
    exact hsupplied
  rw [heval, hmeaning] at hread
  exact absurd hread (by decide)

/-- A plain prefix. -/
theorem agrees_printer : ∃ node, parseExpression "substring(option[60].hex,0,4) == 'MSFT'" = .ok node ∧
    evaluate { vendorClass := "MSFT 5.0" } .empty node =
      some (meaning [{ field := "vendor_class", op := "starts_with", value := "MSFT" }] .all false
        { vendorClass := "MSFT 5.0" } .empty) := by
  refine (agrees_iff [{ field := "vendor_class", op := "starts_with", value := "MSFT" }] .all false
    "substring(option[60].hex,0,4) == 'MSFT'" { vendorClass := "MSFT 5.0" } .empty (by decide)
    fun r hr => ?_).mpr ?_
  · rw [List.mem_singleton.mp hr, Supplied, if_neg (by decide)]
    decide
  · rintro ⟨-, r, hr, hcut⟩
    rw [List.mem_singleton.mp hr] at hcut
    exact absurd hcut (by decide)

end Rules

end JenKea.Explain
