import JenKea.Import.Isc
import JenKea.Lib.Delimited
import JenKea.Lib.Hex
import JenKea.Lib.Items
import JenKea.Subnets.OptionValues

/-!
# Classless static routes

The routes of option 121 as RFC 3442 encodes them: the length of a mask, as many octets of the destination as the
mask reaches into, and a router. A Windows export has the bytes in hexadecimal, and `dhcpd.conf` in decimal.
-/

namespace JenKea.Import

open Text

/-! ## Routes and their bytes -/

/-- How many octets of a destination are written. -/
def octets (mask : UInt8) : ℕ := (mask.toNat + 7) / 8

/-- A route: the octets of its destination beyond the mask are zero. -/
structure Route where
  mask : UInt8
  dest : List UInt8
  gateway : List UInt8
  mask_le : mask.toNat ≤ 32
  dest_length : dest.length = 4
  gateway_length : gateway.length = 4
  dest_rest : dest.drop (octets mask) = List.replicate (4 - octets mask) 0

theorem octets_le {mask : UInt8} (h : mask.toNat ≤ 32) : octets mask ≤ 4 := by
  unfold octets
  omega

/-- The bytes of a route. -/
def Route.bytes (r : Route) : List UInt8 := r.mask :: (r.dest.take (octets r.mask) ++ r.gateway)

/-- The first route of some bytes, and what follows it. -/
def readRoute : List UInt8 → Option (Route × List UInt8)
  | [] => none
  | mask :: raw =>
    if h : mask.toNat ≤ 32 ∧ octets mask + 4 ≤ raw.length then
      let needed := octets mask
      have hneeded : needed ≤ 4 := octets_le h.1
      have hlength : (raw.take needed).length = needed := List.length_take_of_le (by omega)
      some ({
        mask := mask
        dest := raw.take needed ++ List.replicate (4 - needed) 0
        gateway := (raw.drop needed).take 4
        mask_le := h.1
        dest_length := by rw [List.length_append, hlength, List.length_replicate]; omega
        gateway_length := by rw [List.length_take, List.length_drop]; omega
        dest_rest := List.drop_left' hlength }, raw.drop (needed + 4))
    else none

theorem readRoute_bytes (r : Route) (rest : List UInt8) : readRoute (r.bytes ++ rest) = some (r, rest) := by
  obtain ⟨mask, dest, gateway, hmask, hdest, hgateway, hrest⟩ := r
  have hneeded := octets_le hmask
  have htake : (dest.take (octets mask)).length = octets mask := List.length_take_of_le (by omega)
  have hlong : octets mask + 4 ≤ (dest.take (octets mask) ++ gateway ++ rest).length := by
    rw [List.length_append, List.length_append, htake, hgateway]
    omega
  have hdestination : dest.take (octets mask) ++ List.replicate (4 - octets mask) 0 = dest := by
    rw [← hrest, List.take_append_drop]
  have hfront : (dest.take (octets mask) ++ gateway ++ rest).take (octets mask) = dest.take (octets mask) := by
    rw [List.append_assoc, List.take_left' htake]
  have hrouter : ((dest.take (octets mask) ++ gateway ++ rest).drop (octets mask)).take 4 = gateway := by
    rw [List.append_assoc, List.drop_left' htake, List.take_left' hgateway]
  have hback : (dest.take (octets mask) ++ gateway ++ rest).drop (octets mask + 4) = rest := by
    rw [List.drop_left']
    rw [List.length_append, htake, hgateway]
  show readRoute (mask :: (dest.take (octets mask) ++ gateway ++ rest)) = _
  rw [readRoute, dif_pos ⟨hmask, hlong⟩]
  simp only [hfront, hrouter, hback, hdestination]

theorem bytes_of_readRoute {raw rest : List UInt8} {r : Route} (h : readRoute raw = some (r, rest)) :
    raw = r.bytes ++ rest := by
  cases raw with
  | nil => cases h
  | cons mask raw =>
    rw [readRoute] at h
    split_ifs at h with hlong
    have hneeded := octets_le hlong.1
    have hlength : (raw.take (octets mask)).length = octets mask := List.length_take_of_le (by omega)
    rw [Option.some.injEq, Prod.mk.injEq] at h
    obtain ⟨rfl, rfl⟩ := h
    show mask :: raw = mask :: ((raw.take (octets mask) ++ _).take (octets mask) ++ _) ++ _
    rw [List.take_left' hlength, List.cons_append, List.append_assoc, ← List.drop_drop,
      List.take_append_drop, List.take_append_drop]

/-- Routes, one after the other. -/
def routeCodec : Delimited Route UInt8 where
  write := Route.bytes
  read := readRoute
  read_write := readRoute_bytes
  write_of_read := bytes_of_readRoute
  write_ne_nil _ := List.cons_ne_nil _ _

/-! ## Decoding -/

/-- Four octets with dots between them. -/
def dotted (quad : List UInt8) : String :=
  String.ofList (['.'].intercalate (quad.map fun octet => Nat.toDigits 10 octet.toNat))

/-- A route as Kea writes it. -/
def Route.text (r : Route) : String :=
  dotted r.dest ++ "/" ++ String.ofList (Nat.toDigits 10 r.mask.toNat) ++ " - " ++ dotted r.gateway

/-- What stops the decoding. -/
def problem (context : String) : List UInt8 → Option String
  | [] => none
  | mask :: _ =>
    if 32 < mask.toNat then
      let length := mask.toNat
      some s!"{context}: classless-static-route mask length {length} is invalid — stopped decoding"
    else some s!"{context}: classless-static-route entry is truncated — stopped decoding"

/-- The hexadecimal digits of a text. -/
def hexDigits (hexText : String) : List Char := hexText.toList.filter isHexDigit

/-- The digits that are decoded: an odd one at the end is dropped. -/
def evenDigits (hexText : String) : List Char :=
  let body := hexDigits hexText
  if body.length % 2 = 1 then body.dropLast else body

/-- `_decode_classless_routes_hex`: the routes, and the warnings. -/
def decodeClasslessRoutesHex (hexText context : String) : String × List String :=
  let warnings := if (hexDigits hexText).length % 2 = 1 then
    [s!"{context}: classless-static-route hex has an odd digit count — last nibble dropped"] else []
  match fromHex (evenDigits hexText) with
  | none => ("", [s!"{context}: classless-static-route hex could not be decoded"])
  | some raw =>
    let (routes, rest) := routeCodec.readAll raw
    (commaJoin (routes.map Route.text), warnings ++ (problem context rest).toList)

/-! ## What is decoded -/

section Decode

variable {hexText context : String}

/-- The bytes of the digits of a text. -/
def bytesOf (hexText : String) : List UInt8 := (fromHex (evenDigits hexText)).getD []

theorem fromHex_evenDigits (hexText : String) : fromHex (evenDigits hexText) = some (bytesOf hexText) := by
  have hdigits : ∀ c ∈ hexDigits hexText, isHexDigit c = true := fun c hc => (List.mem_filter.mp hc).2
  have heven : (∀ c ∈ evenDigits hexText, isHexDigit c = true) ∧ (evenDigits hexText).length % 2 = 0 := by
    unfold evenDigits
    dsimp only
    split_ifs with hodd
    · refine ⟨fun c hc => hdigits c (List.mem_of_mem_dropLast hc), ?_⟩
      rw [List.length_dropLast]
      omega
    · exact ⟨hdigits, by omega⟩
  obtain ⟨bytes, hbytes, -⟩ := exists_fromHex heven.1 heven.2
  rw [bytesOf, hbytes]
  rfl

/-- What is left starts with no route, and gives a warning where there is any. -/
theorem length_problem (context : String) (rest : List UInt8) :
    (problem context rest).toList.length = if rest = [] then 0 else 1 := by
  cases rest with
  | nil => rfl
  | cons mask rest =>
    rw [if_neg (List.cons_ne_nil mask rest), problem]
    split_ifs <;> rfl

theorem decodeClasslessRoutesHex_eq (hexText context : String) :
    decodeClasslessRoutesHex hexText context =
      (commaJoin ((routeCodec.readAll (bytesOf hexText)).1.map Route.text),
        (if (hexDigits hexText).length % 2 = 1 then
          [s!"{context}: classless-static-route hex has an odd digit count — last nibble dropped"] else []) ++
          (problem context (routeCodec.readAll (bytesOf hexText)).2).toList) := by
  unfold decodeClasslessRoutesHex
  rw [fromHex_evenDigits]

/-- The digits that `bytes.hex` writes are the bytes. -/
theorem bytesOf_hex (bytes : List UInt8) :
    bytesOf (hex bytes) = bytes ∧ (hexDigits (hex bytes)).length % 2 = 0 := by
  obtain ⟨hdigits, hbytes⟩ := fromHex_hex bytes
  have hall : hexDigits (hex bytes) = (hex bytes).toList := List.filter_eq_self.mpr hdigits
  have heven : (hex bytes).toList.length % 2 = 0 := by
    have hlength := length_of_fromHex hbytes
    omega
  have hsame : evenDigits (hex bytes) = (hex bytes).toList := by
    unfold evenDigits
    rw [hall]
    exact if_neg (by omega)
  rw [bytesOf, hsame, hbytes, hall]
  exact ⟨rfl, heven⟩

/-- The hexadecimal form of routes is decoded to these, without a warning. -/
theorem decode_hex (routes : List Route) (context : String) :
    decodeClasslessRoutesHex (hex (routeCodec.writeAll routes)) context =
      (commaJoin (routes.map Route.text), []) := by
  obtain ⟨hbytes, heven⟩ := bytesOf_hex (routeCodec.writeAll routes)
  have hread : routeCodec.readAll (routeCodec.writeAll routes) = (routes, []) :=
    Delimited.readAll_writeAll rfl routes
  rw [decodeClasslessRoutesHex_eq, hbytes, hread, if_neg (by omega)]
  rfl

end Decode

/-! ## The option statement -/

/-- `_ISC_ALIASES`. -/
def ISC_ALIASES : List (String × ℕ) :=
  [("bootfile-name", 67), ("rfc3442-classless-static-routes", 121), ("ms-classless-static-routes", 121),
    ("classless-static-routes", 121), ("dhcp-lease-time", 51), ("dhcp-renewal-time", 58),
    ("dhcp-rebinding-time", 59), ("dhcp-client-identifier", 61), ("nis-domain", 40), ("nis-servers", 41),
    ("netbios-name-servers", 44), ("netbios-node-type", 46), ("netbios-scope", 47)]

/-- What `$` of a regular expression lets stand at the end. -/
def withoutNewline (cs : List Char) : List Char := if cs.getLast? = some '\n' then cs.dropLast else cs

/-- One to three decimal digits. -/
def isShortDecimal (cs : List Char) : Bool :=
  1 ≤ cs.length && cs.length ≤ 3 && cs.all fun c => (digitOf c).isSome

/-- `_OPTION_NAME_RE`: the number of `option-N`. -/
def optionNumber (name : String) : Option ℕ :=
  match withoutNewline name.toList with
  | 'o' :: 'p' :: 't' :: 'i' :: 'o' :: 'n' :: '-' :: digits => if isShortDecimal digits then natOf digits else none
  | _ => none

/-- `_DECIMAL_LIST_RE`. -/
def matchesDecimalList (raw : String) : Bool :=
  let cs := withoutNewline raw.toList
  cs.head?.any (fun c => !isSpace c) && cs.getLast?.any (fun c => !isSpace c) &&
    (cs.splitOn ',').all fun piece => isShortDecimal (strip (String.ofList piece)).toList

/-- `_option_value_text`. -/
def optionValueText (toks : List Tok) : String :=
  let values := (toks.splitOnP fun t => t.text == "," && !t.quoted).map fun item =>
    String.ofList ([' '].intercalate (item.map fun t => t.text.toList))
  commaJoin (values.filter fun value => value ≠ "")

/-- The bytes of a list of decimal numbers, of each its last eight bits. -/
def decimalBytes (raw : String) : List UInt8 :=
  (raw.toList.splitOn ',').map fun piece => UInt8.ofNat ((natOf (strip (String.ofList piece)).toList).getD 0)

/-- The code of an option by its name. -/
def optionCode (name : String) : Option ℕ :=
  match optionNumber name with
  | some code => some code
  | none => match (ISC_ALIASES.find? fun entry => entry.1 = name).map Prod.snd with
    | some code => some code
    | none => Subnets.codeOfName name

/-- The words for a truth value. -/
def truthWord (raw : String) : String :=
  match Subnets.lower raw with
  | "on" => "true"
  | "off" => "false"
  | "1" => "true"
  | "0" => "false"
  | _ => raw

/-- `option_statement`: the code and the value, or a warning. -/
def optionStatement (toks : List Tok) (context : String) : Except String (ℕ × String) :=
  match toks with
  | [] => .error s!"{context}: empty option statement — ignored"
  | first :: values =>
    let line := first.line
    let name := Subnets.lower first.text
    let texts := toks.map fun t => Subnets.lower t.text
    if name = "space" then
      .error s!"{context} (line {line}): option space definitions are not supported — skipped"
    else if "code" ∈ texts ∧ "=" ∈ texts then
      .error s!"{context} (line {line}): option definition `{name}` is not supported — its uses are skipped"
    else if '.' ∈ name.toList ∧ ¬ (name.toList.filter (· ≠ '.') ≠ [] ∧
        (name.toList.filter (· ≠ '.')).all fun c => (digitOf c).isSome) then
      let space := String.ofList (name.toList.takeWhile (· ≠ '.'))
      .error s!"{context} (line {line}): option space `{space}` is not supported — skipped"
    else match optionCode name with
    | none => .error s!"{context} (line {line}): option `{name}` is not in Jen's catalog — skipped"
    | some code =>
      if code = 1 then
        .error s!"{context} (line {line}): option subnet-mask not imported — Kea derives it from the prefix"
      else
        let raw := optionValueText values
        if code = 121 ∧ matchesDecimalList raw then
          let hexText := hex (decimalBytes raw)
          let (data, warnings) := decodeClasslessRoutesHex hexText context
          if data = "" then
            .error (warnings.head?.getD s!"{context}: option 121 could not be decoded")
          else .ok (code, hexText)
        else if Subnets.typeFor code = some .boolean then .ok (code, truthWord raw)
        else .ok (code, raw)

/-! ## Routes in decimal -/

section Decimal

/-- A byte in decimal. -/
def decimalText (b : UInt8) : String := String.ofList (Nat.toDigits 10 b.toNat)

/-- The words of bytes in decimal, with commas between them. -/
def decimalWords : List UInt8 → List String
  | [] => []
  | [b] => [decimalText b]
  | b :: b' :: bytes => decimalText b :: "," :: decimalWords (b' :: bytes)

/-- The names of the option of the routes. -/
def routeNames : List String :=
  ["rfc3442-classless-static-routes", "ms-classless-static-routes", "classless-static-routes",
    "classless-static-route", "option-121"]

/-- A byte in decimal has one to three digits, and is read back. -/
theorem decimalText_spec (b : UInt8) :
    isShortDecimal (decimalText b).toList = true ∧ natOf (decimalText b).toList = some b.toNat ∧
      (∀ c ∈ (decimalText b).toList, isSpace c = false ∧ c ≠ ',') := by
  -- the marks as a Boolean check: a decision over all characters would go through every one of them
  have hall : ∀ n : Fin 256, isShortDecimal (Nat.toDigits 10 n.1) = true ∧
      natOf (Nat.toDigits 10 n.1) = some n.1 ∧
      ((Nat.toDigits 10 n.1).all fun c => !isSpace c && c != ',') = true := by decide +kernel
  have hlt : b.toNat < 256 := b.toNat_lt
  obtain ⟨hshort, hread, hmarks⟩ := hall ⟨b.toNat, hlt⟩
  rw [decimalText, String.toList_ofList]
  refine ⟨hshort, hread, fun c hc => ?_⟩
  simpa using List.all_eq_true.mp hmarks c hc

/-- The value of the words of bytes is their list. -/
theorem optionValueText_words {toks : List Tok} (bytes : List UInt8)
    (htexts : toks.map Tok.text = decimalWords bytes) (hquoted : ∀ t ∈ toks, t.quoted = false) :
    optionValueText toks = commaJoin (bytes.map decimalText) := by
  have hword : ∀ b : UInt8, decimalText b ≠ "," ∧ decimalText b ≠ "" := by
    intro b
    obtain ⟨hshort, -, hchars⟩ := decimalText_spec b
    constructor
    · intro heq
      exact (hchars ',' (by rw [heq]; decide)).2 rfl
    · intro heq
      rw [heq] at hshort
      exact absurd hshort (by decide)
  -- each word but a comma is a value of its own
  have hvalues : ∀ (bytes : List UInt8) (toks : List Tok), bytes ≠ [] →
      toks.map Tok.text = decimalWords bytes → (∀ t ∈ toks, t.quoted = false) →
      ((toks.splitOnP fun t => t.text == "," && !t.quoted).map fun item =>
        String.ofList ([' '].intercalate (item.map fun t => t.text.toList))) = bytes.map decimalText := by
    intro bytes
    induction bytes with
    | nil => exact fun _ hne => absurd rfl hne
    | cons b bytes ih =>
      intro toks _ htexts hquoted
      obtain ⟨t, toks, rfl⟩ : ∃ t rest, toks = t :: rest := by
        cases toks with
        | nil => cases bytes <;> cases htexts
        | cons t rest => exact ⟨t, rest, rfl⟩
      have ht : t.text = decimalText b := by cases bytes <;> exact (List.cons.inj htexts).1
      have hno : ¬ (t.text == "," && !t.quoted) = true := by
        rw [ht]
        simp [(hword b).1]
      cases bytes with
      | nil =>
        have hnil : toks = [] := List.map_eq_nil_iff.mp (List.cons.inj htexts).2
        rw [hnil, List.splitOnP_cons, if_neg hno, List.splitOnP_nil]
        simp [ht]
      | cons b' bytes =>
        obtain ⟨comma, toks, rfl⟩ : ∃ t rest, toks = t :: rest := by
          cases toks with
          | nil => cases (List.cons.inj htexts).2
          | cons t rest => exact ⟨t, rest, rfl⟩
        have hrest := (List.cons.inj htexts).2
        have hcomma : (comma.text == "," && !comma.quoted) = true := by
          have hunquoted := hquoted comma (by simp)
          rw [(List.cons.inj hrest).1, hunquoted]
          rfl
        have hmore := ih toks (List.cons_ne_nil b' bytes) (List.cons.inj hrest).2
          fun t' ht' => hquoted t' (by simp [ht'])
        rw [List.splitOnP_cons, if_neg hno, List.splitOnP_cons, if_pos hcomma, List.modifyHead_cons,
          List.map_cons, hmore]
        simp [ht]
  cases bytes with
  | nil =>
    have hnil : toks = [] := List.map_eq_nil_iff.mp htexts
    rw [hnil]
    decide
  | cons b bytes =>
    rw [optionValueText, hvalues _ _ (List.cons_ne_nil b bytes) htexts hquoted]
    refine congrArg commaJoin (List.filter_eq_self.mpr fun value hvalue => ?_)
    obtain ⟨c, -, rfl⟩ := List.mem_map.mp hvalue
    exact decide_eq_true (hword c).2

/-- A byte in decimal is an item of a list. -/
theorem isItem_decimalText (b : UInt8) : IsItem (decimalText b) := by
  obtain ⟨hshort, -, hchars⟩ := decimalText_spec b
  constructor
  · intro heq
    rw [heq] at hshort
    exact absurd hshort (by decide)
  · exact strip_of_all fun c hc => (hchars c hc).1
  · exact fun hc => (hchars ',' hc).2 rfl

/-- The list of bytes in decimal is recognized, and read as the bytes. -/
theorem decimalBytes_join (b : UInt8) (bytes : List UInt8) :
    matchesDecimalList (commaJoin ((b :: bytes).map decimalText)) = true ∧
      decimalBytes (commaJoin ((b :: bytes).map decimalText)) = b :: bytes := by
  set raw := commaJoin ((b :: bytes).map decimalText) with hraw
  have hitems : ∀ next ∈ (b :: bytes).map decimalText, IsItem next := by
    intro next hnext
    obtain ⟨b', -, rfl⟩ := List.mem_map.mp hnext
    exact isItem_decimalText b'
  have hpieces : (raw.toList.splitOn ',').map (fun cs => strip (String.ofList cs)) =
      (b :: bytes).map decimalText := strip_splitOn_commaJoin hitems
  obtain ⟨c, hhead, hc⟩ :=
    exists_head_commaJoin (isItem_decimalText b) (bytes.map decimalText)
  obtain ⟨d, hlast, hd⟩ := exists_last_commaJoin hitems
  have hnewline : withoutNewline raw.toList = raw.toList := by
    have hne : raw.toList.getLast? ≠ some '\n' := by
      intro heq
      have hd' : d = '\n' := Option.some.inj (hlast.symm.trans heq)
      rw [hd'] at hd
      exact absurd hd (by decide)
    exact if_neg hne
  constructor
  · have hshort : ((raw.toList.splitOn ',').all fun piece =>
        isShortDecimal (strip (String.ofList piece)).toList) = true := by
      rw [List.all_eq_true]
      intro piece hpiece
      have hmem : strip (String.ofList piece) ∈ (b :: bytes).map decimalText := by
        rw [← hpieces]
        exact List.mem_map_of_mem hpiece
      obtain ⟨b', -, hb'⟩ := List.mem_map.mp hmem
      rw [← hb']
      exact (decimalText_spec b').1
    have hhead' : raw.toList.head? = some c := hhead
    have hlast' : raw.toList.getLast? = some d := hlast
    unfold matchesDecimalList
    dsimp only
    rw [hnewline, hshort, hlast', hhead', Option.any_some, Option.any_some, hc, hd]
    rfl
  · have hbytes : decimalBytes raw = ((raw.toList.splitOn ',').map fun cs => strip (String.ofList cs)).map
        fun item => UInt8.ofNat ((natOf item.toList).getD 0) := by
      rw [decimalBytes, List.map_map]
      rfl
    rw [hbytes, hpieces, List.map_map]
    calc (b :: bytes).map _ = (b :: bytes).map id := by
          refine List.map_congr_left fun b' _ => ?_
          show UInt8.ofNat ((natOf (decimalText b').toList).getD 0) = b'
          rw [(decimalText_spec b').2.1]
          exact UInt8.ofNat_toNat
      _ = b :: bytes := List.map_id _

/-- No word of bytes in decimal stands for an option's definition. -/
theorem notMem_decimalWords (bytes : List UInt8) : "code" ∉ decimalWords bytes := by
  have hword : ∀ b : UInt8, "code" ≠ decimalText b := by
    intro b heq
    have hshort := (decimalText_spec b).1
    rw [← heq] at hshort
    exact absurd hshort (by decide)
  induction bytes with
  | nil => exact List.not_mem_nil
  | cons b bytes ih =>
    cases bytes with
    | nil => simp [decimalWords, hword b]
    | cons b' bytes =>
      intro hmem
      rcases List.mem_cons.mp hmem with heq | hmem
      · exact hword b heq
      · rcases List.mem_cons.mp hmem with heq | hmem
        · exact absurd heq (by decide)
        · exact ih hmem

/-- A word in lower case stands for an option's definition only where it did before. -/
theorem lower_decimalWords {bytes : List UInt8} {word : String} (h : word ∈ decimalWords bytes) :
    Subnets.lower word = word := by
  have hdigits : ∀ n : Fin 256, (Nat.toDigits 10 n.1).map Char.toLower = Nat.toDigits 10 n.1 := by
    decide +kernel
  have hword : ∀ b : UInt8, Subnets.lower (decimalText b) = decimalText b := by
    intro b
    rw [Subnets.lower, decimalText, String.toList_ofList, hdigits ⟨b.toNat, b.toNat_lt⟩]
  induction bytes with
  | nil => cases h
  | cons b bytes ih =>
    cases bytes with
    | nil =>
      rw [decimalWords, List.mem_singleton] at h
      rw [h, hword b]
    | cons b' bytes =>
      rcases List.mem_cons.mp h with rfl | h
      · exact hword b
      · rcases List.mem_cons.mp h with rfl | h
        · decide
        · exact ih h

/-- A list whose first item is not empty is not empty. -/
theorem commaJoin_ne_empty {item : String} (h : item ≠ "") (rest : List String) :
    commaJoin (item :: rest) ≠ "" := by
  cases rest with
  | nil => exact h
  | cons next rest =>
    intro heq
    have hlist : item.toList ++ (", ".toList ++ (commaJoin (next :: rest)).toList) = [] := by
      rw [← List.append_assoc, ← String.toList_append, ← String.toList_append]
      exact congrArg String.toList heq
    have hnil := (List.append_eq_nil_iff.mp hlist).1
    exact h (String.toList_inj.mp hnil)

/-- A route is written with a slash. -/
theorem text_ne_empty (route : Route) : route.text ≠ "" := by
  intro heq
  have hmem : '/' ∈ route.text.toList := by
    simp [Route.text]
  rw [heq] at hmem
  exact absurd hmem (by decide)

/-- The names of the option of the routes have its code. -/
theorem routeNames_spec : ∀ name ∈ routeNames,
    name ≠ "space" ∧ name ≠ "code" ∧ '.' ∉ name.toList ∧ optionCode name = some 121 := by
  decide

/-- The statement with routes in decimal is the option with these in hexadecimal. -/
theorem optionStatement_routes {first : Tok} {values : List Tok} (context : String) (routes : List Route)
    (hname : Subnets.lower first.text ∈ routeNames)
    (htexts : values.map Tok.text = decimalWords (routeCodec.writeAll routes))
    (hquoted : ∀ t ∈ values, t.quoted = false) :
    optionStatement (first :: values) context = .ok (121, hex (routeCodec.writeAll routes)) := by
  obtain ⟨hspace, hcode, hdot, hfound⟩ := routeNames_spec _ hname
  have hlower : (values.map fun t => Subnets.lower t.text) = values.map Tok.text := by
    refine List.map_congr_left fun t ht => ?_
    have hword : t.text ∈ decimalWords (routeCodec.writeAll routes) := by
      rw [← htexts]
      exact List.mem_map_of_mem ht
    exact lower_decimalWords hword
  have hdefinition : ¬ ("code" ∈ (first :: values).map (fun t => Subnets.lower t.text) ∧
      "=" ∈ (first :: values).map fun t => Subnets.lower t.text) := by
    rintro ⟨hmem, -⟩
    rw [List.map_cons, hlower, htexts] at hmem
    rcases List.mem_cons.mp hmem with heq | hmem
    · exact hcode heq.symm
    · exact notMem_decimalWords _ hmem
  have hraw := optionValueText_words _ htexts hquoted
  rw [optionStatement]
  dsimp only
  rw [if_neg hspace, if_neg hdefinition, if_neg fun h => hdot h.1, hfound]
  dsimp only
  rw [if_neg (by decide), hraw]
  cases hroutes : routes with
  | nil =>
    have hempty : matchesDecimalList (commaJoin (([] : List UInt8).map decimalText)) = false := by decide
    have htype : Subnets.typeFor 121 ≠ some .boolean := by decide
    have hnone : ¬ (121 = 121 ∧ matchesDecimalList
        (commaJoin ((routeCodec.writeAll []).map decimalText)) = true) :=
      fun h => absurd (hempty.symm.trans h.2) (by decide)
    rw [if_neg hnone, if_neg htype]
    rfl
  | cons route rest =>
    obtain ⟨b, bytes, hbytes⟩ : ∃ b bytes, routeCodec.writeAll (route :: rest) = b :: bytes := by
      refine List.exists_cons_of_ne_nil ?_
      rw [Delimited.writeAll, List.flatMap_cons]
      exact List.append_ne_nil_of_left_ne_nil (routeCodec.write_ne_nil route) _
    obtain ⟨hmatches, hdecimal⟩ := decimalBytes_join b bytes
    -- the routes are not empty, so what is decoded is not the empty text
    have hdata : (decodeClasslessRoutesHex (hex (b :: bytes)) context).1 ≠ "" := by
      rw [← hbytes, decode_hex, List.map_cons]
      exact commaJoin_ne_empty (text_ne_empty route) _
    rw [hbytes, hdecimal, if_pos ⟨rfl, hmatches⟩, if_neg hdata]

end Decimal

/-! ## Routes are imported -/

/-- The hexadecimal form of routes is decoded to these without a warning; of any text, the routes that its bytes
start with are decoded, with a warning for an odd digit and one for what is left; and a statement of `dhcpd.conf`
with routes in decimal has the hexadecimal form of these. -/
theorem routes_imported :
    (∀ routes context, decodeClasslessRoutesHex (hex (routeCodec.writeAll routes)) context =
      (commaJoin (routes.map Route.text), [])) ∧
    (∀ hexText context, ∃ routes rest, bytesOf hexText = routeCodec.writeAll routes ++ rest ∧
      (∀ more, routeCodec.writeAll more <+: bytesOf hexText → more <+: routes) ∧
      (decodeClasslessRoutesHex hexText context).1 = commaJoin (routes.map Route.text) ∧
      (decodeClasslessRoutesHex hexText context).2.length =
        (if (hexDigits hexText).length % 2 = 1 then 1 else 0) + if rest = [] then 0 else 1) ∧
    ∀ first values context routes, Subnets.lower first.text ∈ routeNames →
      values.map Tok.text = decimalWords (routeCodec.writeAll routes) →
      (∀ t ∈ values, t.quoted = false) →
      optionStatement (first :: values) context = .ok (121, hex (routeCodec.writeAll routes)) := by
  refine ⟨decode_hex, ?_, ?_⟩
  · intro hexText context
    obtain ⟨hsplit, -⟩ := routeCodec.readAll_spec (bytesOf hexText)
    refine ⟨_, _, hsplit, fun more hmore => Delimited.prefix_readAll hmore, ?_, ?_⟩
    · rw [decodeClasslessRoutesHex_eq]
    · have hodd : ∀ w : String, (if (hexDigits hexText).length % 2 = 1 then [w] else []).length =
          if (hexDigits hexText).length % 2 = 1 then 1 else 0 := by
        intro w
        split_ifs <;> rfl
      rw [decodeClasslessRoutesHex_eq, List.length_append, length_problem, hodd]
  · intro first values context routes hname htexts hquoted
    exact optionStatement_routes context routes hname htexts hquoted

/-- A route to `10.0.1.0/24` by way of `10.0.0.1`. -/
def sampleRoute : Route where
  mask := 24
  dest := [10, 0, 1, 0]
  gateway := [10, 0, 0, 1]
  mask_le := by decide
  dest_length := rfl
  gateway_length := rfl
  dest_rest := rfl

theorem routes_imported_statement :
    optionStatement (word "rfc3442-classless-static-routes" ::
      (decimalWords (routeCodec.writeAll [sampleRoute])).map word) "global" =
        .ok (121, "180a00010a000001") :=
  (routes_imported.2.2 (word "rfc3442-classless-static-routes") _ "global" [sampleRoute]
    (by decide) (by decide) (by decide)).trans (by decide)

/-- The digit that is dropped and the route that is cut have a warning each. -/
theorem two_warnings :
    ¬ ∀ hexText context, (decodeClasslessRoutesHex hexText context).2.length ≤ 1 := by
  intro h
  have htwo : (decodeClasslessRoutesHex "180" "global").2.length = 2 := by
    rw [decodeClasslessRoutesHex_eq, List.length_append, length_problem]
    have hbytes : bytesOf "180" = [24] := by decide
    have hread : routeCodec.readAll [24] = ([], [24]) := Delimited.readAll_of_none rfl
    rw [hbytes, hread]
    decide
  have hone := h "180" "global"
  omega

end JenKea.Import
