import JenKea.Explain.Expression

/-!
# What the rule builder writes

The expression that `build_expression` writes is read back as what its rules say, byte for byte: the
literals, the lengths, and the brackets around the clauses. Only a prefix that is no ASCII is cut, since the
builder counts its characters and Kea the bytes.
-/

namespace JenKea.Explain

open Import
open Text (isHexDigit fromHex)

/-! ## Reading tokens -/

/-- The tokens at the head of a text, and the text after them. -/
def Lexes (cs : List Char) (ts : List Token) (rest : List Char) : Prop :=
  lex cs = (lex rest).map (ts ++ ·)

theorem lex_nil : lex [] = .ok [] := by
  rw [lex, if_pos rfl]

theorem lex_cons {cs rest : List Char} {t : Token}
    (h : scan (cs.dropWhile Text.isSpace) = some (t, rest)) :
    lex cs = (lex rest).map (t :: ·) := by
  have hne : cs ≠ [] := by
    rintro rfl
    cases h
  rw [lex, if_neg hne]
  split
  · next hnone =>
    rw [hnone] at h
    cases h
  · next t' rest' hsome =>
    rw [hsome, Option.some.injEq, Prod.mk.injEq] at h
    obtain ⟨rfl, rfl⟩ := h
    cases lex rest' <;> rfl

section Lexes

variable {a b c cs rest : List Char} {ts us : List Token}

theorem Lexes.trans (h : Lexes a ts b) (h' : Lexes b us c) : Lexes a (ts ++ us) c := by
  unfold Lexes at *
  rw [h, h']
  cases lex c with
  | ok vs => exact congrArg Except.ok (List.append_assoc ts us vs).symm
  | error message => rfl

theorem lexes_refl (cs : List Char) : Lexes cs [] cs := by
  unfold Lexes
  cases lex cs <;> rfl

theorem Lexes.lex_eq (h : Lexes a ts []) : lex a = .ok ts := by
  have hts : lex a = .ok (ts ++ []) := by
    rw [h, lex_nil]
    rfl
  rwa [List.append_nil] at hts

/-- One token. -/
theorem lexes_of_scan {t : Token} (h : scan (cs.dropWhile Text.isSpace) = some (t, rest)) :
    Lexes cs [t] rest := lex_cons h

/-- One token, after a blank. -/
theorem lexes_blank {t : Token} (h : scan (cs.dropWhile Text.isSpace) = some (t, rest)) :
    Lexes (' ' :: cs) [t] rest := by
  refine lexes_of_scan ?_
  have hblank : (' ' :: cs).dropWhile Text.isSpace = cs.dropWhile Text.isSpace := rfl
  rw [hblank]
  exact h

theorem lexes_lpar (cs : List Char) : Lexes ('(' :: cs) [.lpar] cs := lexes_of_scan rfl

theorem lexes_rpar (cs : List Char) : Lexes (')' :: cs) [.rpar] cs := lexes_of_scan rfl

theorem lexes_comma (cs : List Char) : Lexes (',' :: cs) [.comma] cs := lexes_of_scan rfl

/-- The comparison, between blanks. -/
theorem lexes_eq (cs : List Char) : Lexes (" ==".toList ++ cs) [.eq] cs := lexes_blank rfl

theorem lexes_keyword (k : Keyword) (cs : List Char) : Lexes (k.text.toList ++ cs) [.kw k] cs := by
  cases k <;> exact lexes_of_scan rfl

theorem lexes_accessor (acc : Accessor) (cs : List Char) :
    Lexes (acc.text.toList ++ cs) [.acc acc.text.toList] cs := by
  cases acc <;> exact lexes_of_scan rfl

/-- What stands after a token of digits: nothing, a comma, or a bracket. -/
def Closed (rest : List Char) : Prop := ∀ c ∈ rest.head?, c = ',' ∨ c = ')'

theorem scanDigits_append {p : Char → Bool} {digits : List Char} (hne : digits ≠ [])
    (hdigits : ∀ c ∈ digits, p c = true) (hrest : ∀ c ∈ rest.head?, p c = false) :
    scanDigits p (digits ++ rest) = some (digits, rest) := by
  have htake : (digits ++ rest).takeWhile p = digits := by
    rw [List.takeWhile_append_of_pos hdigits]
    cases rest with
    | nil => simp
    | cons c cs => simp [hrest c rfl]
  have hdrop : (digits ++ rest).dropWhile p = rest := by
    rw [List.dropWhile_append_of_pos hdigits]
    cases rest with
    | nil => rfl
    | cons c cs => simp [hrest c rfl]
  rw [scanDigits, htake, hdrop, if_neg hne]

theorem lexes_hex {digits : List Char} (hne : digits ≠ []) (hdigits : ∀ c ∈ digits, isHexDigit c = true)
    (hrest : Closed rest) : Lexes (" 0x".toList ++ digits ++ rest) [.hex digits] rest := by
  have hscan := @scanDigits_append rest _ _ hne hdigits fun c hc => by
    rcases hrest c hc with rfl | rfl <;> decide
  have hhex : scanHex ('0' :: 'x' :: (digits ++ rest)) = some (.hex digits, rest) := by
    have hlead : scanHex ('0' :: 'x' :: (digits ++ rest)) =
        (scanDigits isHexDigit (digits ++ rest)).bind fun x => some (.hex x.1, x.2) := rfl
    rw [hlead, hscan]
    rfl
  refine @lexes_blank ('0' :: 'x' :: (digits ++ rest)) _ _ ?_
  have hscanHex : scan (('0' :: 'x' :: (digits ++ rest)).dropWhile Text.isSpace) =
      (scanHex ('0' :: 'x' :: (digits ++ rest))).orElse fun _ =>
        scanNum ('0' :: 'x' :: (digits ++ rest)) <|> scanOption ('0' :: 'x' :: (digits ++ rest)) <|>
          scanMac ('0' :: 'x' :: (digits ++ rest)) <|> scanRelay ('0' :: 'x' :: (digits ++ rest)) <|>
          scanKeyword ('0' :: 'x' :: (digits ++ rest)) := rfl
  rw [hscanHex, hhex]
  rfl

/-- A digit is no bracket, no comma and no quote. -/
theorem marks_of_isDigit {d : Char} (hd : d.isDigit = true) :
    d ≠ '(' ∧ d ≠ ')' ∧ d ≠ ',' ∧ d ≠ '=' ∧ d ≠ Text.singleQuote := by
  refine ⟨?_, ?_, ?_, ?_, ?_⟩ <;> (rintro rfl; exact absurd hd (by decide))

theorem scanMark_of_ne {d : Char} (h : d ≠ '(' ∧ d ≠ ')' ∧ d ≠ ',' ∧ d ≠ '=') :
    scanMark (d :: cs) = none := by
  obtain ⟨hlpar, hrpar, hcomma, heq⟩ := h
  unfold scanMark
  split
  · next hcs => exact absurd (List.cons.inj hcs).1 hlpar
  · next hcs => exact absurd (List.cons.inj hcs).1 hrpar
  · next hcs => exact absurd (List.cons.inj hcs).1 hcomma
  · next hcs => exact absurd (List.cons.inj hcs).1 heq
  · rfl

/-- A number, with a comma or a bracket after it. -/
theorem lexes_num (n : ℕ) (hrest : Closed rest) :
    Lexes (Nat.toDigits 10 n ++ rest) [.num (Nat.toDigits 10 n)] rest := by
  have hdigits : ∀ c ∈ Nat.toDigits 10 n, c.isDigit = true := fun c hc =>
    Nat.isDigit_of_mem_toDigits (by decide) (by decide) hc
  have hne : Nat.toDigits 10 n ≠ [] := Nat.toDigits_ne_nil
  have hscan := @scanDigits_append rest _ _ hne hdigits fun c hc => by
    rcases hrest c hc with rfl | rfl <;> decide
  have hnum : scanNum (Nat.toDigits 10 n ++ rest) = some (.num (Nat.toDigits 10 n), rest) := by
    rw [scanNum, hscan]
    rfl
  cases hcs : Nat.toDigits 10 n with
  | nil => exact absurd hcs hne
  | cons d ds =>
    rw [hcs] at hnum hdigits
    have hd : d.isDigit = true := hdigits d List.mem_cons_self
    obtain ⟨hlpar, hrpar, hcomma, heq, hquote⟩ := marks_of_isDigit hd
    -- no `x` stands among the digits, nor after them
    have hnotHex : afterPrefix ['0', 'x'] (d :: ds ++ rest) = none := by
      rw [afterPrefix, if_neg]
      intro hlead
      obtain ⟨tail, htail⟩ := List.isPrefixOf_iff_prefix.mp hlead
      obtain ⟨-, hsecond⟩ := List.cons.inj htail
      cases ds with
      | nil =>
        have hx : rest = 'x' :: tail := hsecond.symm
        rcases hrest 'x' (by rw [hx]; rfl) with h | h <;> exact absurd h (by decide)
      | cons d' ds =>
        have hx : 'x' = d' := (List.cons.inj hsecond).1
        have hdigit := hdigits d' (List.mem_cons_of_mem d List.mem_cons_self)
        rw [← hx] at hdigit
        exact absurd hdigit (by decide)
    refine lexes_of_scan ?_
    have hspace : (d :: ds ++ rest).dropWhile Text.isSpace = d :: ds ++ rest :=
      Text.dropWhile_isSpace (Text.isSpace_of_isDigit hd)
    have hmark : scanMark (d :: ds ++ rest) = none := scanMark_of_ne ⟨hlpar, hrpar, hcomma, heq⟩
    have hstr : scanStr (d :: ds ++ rest) = none := if_neg hquote
    have hhex : scanHex (d :: ds ++ rest) = none := by
      rw [scanHex, hnotHex]
      rfl
    rw [hspace, scan, hmark, hstr, hhex, hnum]
    rfl

/-- A text between quotes, without a quote in it. -/
theorem scan_quoted {value : List Char} (hvalue : Text.singleQuote ∉ value) (rest : List Char) :
    scan ((Text.singleQuote :: value ++ Text.singleQuote :: rest).dropWhile Text.isSpace) =
      some (.str value, rest) := by
  have hinside : ∀ c ∈ value, decide (c ≠ Text.singleQuote) = true := fun c hc =>
    decide_eq_true fun heq => hvalue (heq ▸ hc)
  have htake : (value ++ Text.singleQuote :: rest).takeWhile (· ≠ Text.singleQuote) = value := by
    rw [List.takeWhile_append_of_pos hinside, List.takeWhile_cons_of_neg (by simp), List.append_nil]
  have hdrop : (value ++ Text.singleQuote :: rest).dropWhile (· ≠ Text.singleQuote) =
      Text.singleQuote :: rest := by
    rw [List.dropWhile_append_of_pos hinside, List.dropWhile_cons_of_neg (by simp)]
  have hstr : scanStr (Text.singleQuote :: value ++ Text.singleQuote :: rest) =
      some (.str value, rest) := by
    rw [List.cons_append, scanStr, if_pos rfl, hdrop, htake]
  have hspace : (Text.singleQuote :: value ++ Text.singleQuote :: rest).dropWhile Text.isSpace =
      Text.singleQuote :: value ++ Text.singleQuote :: rest := Text.dropWhile_isSpace (by decide)
  have hmark : scanMark (Text.singleQuote :: value ++ Text.singleQuote :: rest) = none :=
    scanMark_of_ne (by decide)
  rw [hspace, scan, hmark, hstr]
  rfl

end Lexes

/-! ## Clauses -/

/-- How an operand is written. -/
def Operand.written : Operand → String
  | .acc field => field.text
  | .substr field start length =>
    "substring(" ++ field.text ++ "," ++ toString start ++ "," ++ toString length ++ ")"

/-- The tokens of an operand. -/
def Operand.tokens : Operand → List Token
  | .acc field => [.acc field.text.toList]
  | .substr field start length =>
    [.kw .substring, .lpar, .acc field.text.toList, .comma, .num (Nat.toDigits 10 start), .comma,
      .num (Nat.toDigits 10 length), .rpar]

section Operands

variable {total : ℕ}

theorem closed_cons {c : Char} {cs : List Char} (h : c = ',' ∨ c = ')') : Closed (c :: cs) := by
  rintro d hd
  rw [List.head?_cons, Option.mem_some_iff] at hd
  exact hd ▸ h

theorem lexes_operand (o : Operand) (rest : List Char) :
    Lexes (o.written.toList ++ rest) o.tokens rest := by
  cases o with
  | acc field => exact lexes_accessor field rest
  | substr field start length =>
    have hwritten : (Operand.substr field start length).written.toList ++ rest =
        Keyword.substring.text.toList ++ '(' :: (field.text.toList ++ ',' :: (Nat.toDigits 10 start ++
          ',' :: (Nat.toDigits 10 length ++ ')' :: rest))) := by
      have hopen : "substring(".toList = Keyword.substring.text.toList ++ ['('] := by decide
      have hcomma : ",".toList = [','] := by decide
      have hclose : ")".toList = [')'] := by decide
      unfold Operand.written
      simp only [String.toList_append, hopen, hcomma, hclose, Nat.toString_eq_repr, Nat.toList_repr,
        List.append_assoc, List.cons_append, List.nil_append]
    rw [hwritten]
    have hstart := lexes_num start (@closed_cons _ (Nat.toDigits 10 length ++ ')' :: rest) (.inl rfl))
    have hlength := lexes_num length (@closed_cons _ rest (.inr rfl))
    exact (lexes_keyword .substring _).trans ((lexes_lpar _).trans ((lexes_accessor field _).trans
      ((lexes_comma _).trans (hstart.trans ((lexes_comma _).trans (hlength.trans (lexes_rpar _)))))))

theorem accessorOf_text (acc : Accessor) : accessorOf acc.text.toList = some acc := by
  cases acc <;> rfl

theorem accessor_text (acc : Accessor) (ts : List Token) :
    accessor total (.acc acc.text.toList :: ts) = .ok (acc, ts) := by
  rw [accessor, accessorOf_text]

theorem operand_substr (field : Accessor) (start length : ℕ) (ts : List Token) :
    operand total ((Operand.substr field start length).tokens ++ ts) =
      (accessor total (.acc field.text.toList :: .comma :: .num (Nat.toDigits 10 start) :: .comma ::
        .num (Nat.toDigits 10 length) :: .rpar :: ts)).bind fun x => do
          let (_, ts) ← take total .comma "comma" x.2
          let (start, ts) ← takeNum total ts
          let (_, ts) ← take total .comma "comma" ts
          let (length, ts) ← takeNum total ts
          let (_, ts) ← take total .rpar "rpar" ts
          return (.substr x.1 start length, ts) :=
  rfl

theorem operand_tokens (o : Operand) (ts : List Token) :
    operand total (o.tokens ++ ts) = .ok (o, ts) := by
  cases o with
  | acc field =>
    have hparse : operand total ((Operand.acc field).tokens ++ ts) =
        (accessor total (.acc field.text.toList :: ts)).bind fun x => .ok (.acc x.1, x.2) := rfl
    rw [hparse, accessor_text]
    rfl
  | substr field start length =>
    rw [operand_substr, accessor_text]
    have hread : (.ok (Operand.substr field (Nat.ofDigitChars 10 (Nat.toDigits 10 start) 0)
        (Nat.ofDigitChars 10 (Nat.toDigits 10 length) 0), ts) : Except ExprError (Operand × List Token)) =
          .ok (.substr field start length, ts) := by
      rw [Nat.ofDigitChars_ten_toDigits, Nat.ofDigitChars_ten_toDigits]
    exact hread

end Operands

/-- A clause is read as its tokens, which are parsed as the node, whatever comes after it. -/
structure Reads (clause : String) (ts : List Token) (node : Node) : Prop where
  lexes : ∀ rest, Closed rest → Lexes (clause.toList ++ rest) ts rest
  parses : ∀ total n rest, factor total (n + 1) (ts ++ rest) = .ok (node, rest)
  ne_nil : ts ≠ []
  first : ∃ c, clause.toList.head? = some c ∧ Text.isSpace c = false
  last : ∃ c, clause.toList.getLast? = some c ∧ Text.isSpace c = false

/-- A comparison is a factor. -/
theorem factor_comparison {total n : ℕ} {o : Operand} {ts : List Token} :
    factor total (n + 1) (o.tokens ++ ts) = comparison total (o.tokens ++ ts) := by
  cases o <;> rfl

theorem first_written (o : Operand) (s : String) :
    ∃ c, (o.written ++ s).toList.head? = some c ∧ Text.isSpace c = false := by
  have hfirst : ∀ acc : Accessor, ∃ c, acc.text.toList.head? = some c ∧ Text.isSpace c = false := by
    intro acc
    cases acc <;> exact ⟨_, rfl, rfl⟩
  rw [String.toList_append, List.head?_append]
  cases o with
  | acc field =>
    obtain ⟨c, hc, hspace⟩ := hfirst field
    refine ⟨c, ?_, hspace⟩
    unfold Operand.written
    rw [hc]
    rfl
  | substr field start length =>
    refine ⟨'s', ?_, by decide⟩
    have hs : "substring(".toList = 's' :: "ubstring(".toList := by decide
    unfold Operand.written
    simp only [String.toList_append, hs, List.cons_append, List.head?_cons, Option.some_or]

theorem toList_quoted (value : String) :
    (quoted value).toList = Text.singleQuote :: value.toList ++ [Text.singleQuote] := by
  rw [quoted, String.toList_append, String.toList_append, String.toList_singleton]
  rfl

theorem last_append {s t : String} {c : Char} (h : t.toList.getLast? = some c) :
    (s ++ t).toList.getLast? = some c := by
  rw [String.toList_append, List.getLast?_append, h]
  rfl

/-- A comparison with a text. -/
theorem reads_quoted (o : Operand) {value : String} (hvalue : Text.singleQuote ∉ value.toList) :
    Reads (o.written ++ " == " ++ quoted value) (o.tokens ++ [.eq, .str value.toList])
      (.eq o (encode value)) := by
  have heq : " == ".toList = " ==".toList ++ [' '] := by decide
  refine ⟨fun rest _ => ?_, fun total n rest => ?_, by simp, ?_, Text.singleQuote, ?_, by decide⟩
  · have hchars : (o.written ++ " == " ++ quoted value).toList ++ rest = o.written.toList ++
        (" ==".toList ++ ' ' :: (Text.singleQuote :: value.toList ++ Text.singleQuote :: rest)) := by
      rw [String.toList_append, String.toList_append, heq, toList_quoted]
      simp only [List.append_assoc, List.cons_append, List.nil_append]
    rw [hchars]
    exact (lexes_operand o _).trans ((lexes_eq _).trans (lexes_blank (scan_quoted hvalue rest)))
  · rw [List.append_assoc, factor_comparison, comparison, operand_tokens]
    have hread : (.ok (Node.eq o (encode (String.ofList value.toList)), rest) :
        Except ExprError (Node × List Token)) = .ok (.eq o (encode value), rest) := by
      rw [String.ofList_toList]
    exact hread
  · rw [String.append_assoc]
    exact first_written o _
  · refine last_append ?_
    rw [toList_quoted, List.getLast?_append]
    rfl

theorem comparison_hex (total : ℕ) (o : Operand) (digits : List Char) (rest : List Token) :
    (do
      let (_, ts) ← take total .eq "eq" (Token.eq :: .hex digits :: rest)
      match ts with
      | .str text :: ts => return (Node.eq o (encode (String.ofList text)), ts)
      | .hex digits :: ts =>
        match fromHex digits with
        | some bytes => return (.eq o bytes, ts)
        | none => .error .value
      | _ => .error (.expr "expected a quoted string or 0x… literal")) =
        (match fromHex digits with
        | some bytes => .ok (.eq o bytes, rest)
        | none => .error .value : Except ExprError (Node × List Token)) :=
  rfl

/-- A comparison with a literal in hexadecimal. -/
theorem reads_hex (o : Operand) {digits : String} {bytes : Bytes}
    (hdigits : ∀ c ∈ digits.toList, isHexDigit c = true) (hne : digits.toList ≠ [])
    (hbytes : fromHex digits.toList = some bytes) :
    Reads (o.written ++ " == " ++ ("0x" ++ digits)) (o.tokens ++ [.eq, .hex digits.toList])
      (.eq o bytes) := by
  have heq : " == ".toList = " ==".toList ++ [' '] := by decide
  have hzero : "0x".toList = ['0', 'x'] := by decide
  have hblank : " 0x".toList = [' ', '0', 'x'] := by decide
  obtain ⟨d, hd⟩ : ∃ d, digits.toList.getLast? = some d :=
    ⟨_, List.getLast?_eq_some_getLast hne⟩
  refine ⟨fun rest hrest => ?_, fun total n rest => ?_, by simp, ?_, d, ?_, ?_⟩
  · have hchars : (o.written ++ " == " ++ ("0x" ++ digits)).toList ++ rest = o.written.toList ++
        (" ==".toList ++ (" 0x".toList ++ digits.toList ++ rest)) := by
      simp only [String.toList_append, heq, hzero, hblank, List.append_assoc, List.cons_append,
        List.nil_append]
    rw [hchars]
    exact (lexes_operand o _).trans ((lexes_eq _).trans (lexes_hex hne hdigits hrest))
  · rw [List.append_assoc, factor_comparison, comparison, operand_tokens]
    refine (comparison_hex total o digits.toList rest).trans ?_
    rw [hbytes]
  · rw [String.append_assoc]
    exact first_written o _
  · exact last_append (last_append hd)
  · have hhex := hdigits d (List.mem_of_getLast? hd)
    have hprintable : 33 ≤ d.toNat ∧ d.toNat < 127 := by
      unfold isHexDigit at hhex
      simp only [Bool.or_eq_true, Bool.and_eq_true, decide_eq_true_eq] at hhex
      rcases hhex with (hhex | hhex) | hhex
      · obtain ⟨hlow, hhigh⟩ := Char.isDigit_iff_toNat.mp hhex
        have hzero : '0'.toNat = 48 := rfl
        have hnine : '9'.toNat = 57 := rfl
        omega
      · omega
      · omega
    exact Text.isSpace_of_printable hprintable.1 hprintable.2

/-- The membership of a class. -/
theorem reads_member {name : String} (hname : Text.singleQuote ∉ name.toList) :
    Reads ("member(" ++ quoted name ++ ")") [.kw .member, .lpar, .str name.toList, .rpar]
      (.member name) := by
  have hopen : "member(".toList = Keyword.member.text.toList ++ ['('] := by decide
  have hclose : ")".toList = [')'] := by decide
  refine ⟨fun rest _ => ?_, fun total n rest => ?_, by simp, ⟨'m', ?_, by decide⟩,
    ⟨')', ?_, by decide⟩⟩
  · have hchars : ("member(" ++ quoted name ++ ")").toList ++ rest = Keyword.member.text.toList ++
        '(' :: (Text.singleQuote :: name.toList ++ Text.singleQuote :: ')' :: rest) := by
      simp only [String.toList_append, hopen, hclose, toList_quoted, List.append_assoc,
        List.cons_append, List.nil_append]
    rw [hchars]
    exact (lexes_keyword .member _).trans ((lexes_lpar _).trans
      ((lexes_of_scan (scan_quoted hname _)).trans (lexes_rpar rest)))
  · have hread : (.ok (Node.member (String.ofList name.toList), rest) :
        Except ExprError (Node × List Token)) = .ok (.member name, rest) := by
      rw [String.ofList_toList]
    exact hread
  · have hm : "member(".toList = 'm' :: "ember(".toList := by decide
    simp only [String.toList_append, hm, List.cons_append, List.head?_cons]
  · refine last_append ?_
    decide

/-! ## Clauses together -/

/-- What stands after an expression: nothing, or a bracket. -/
def Stops (rest : List Token) : Prop := ∀ t ∈ rest.head?, t = .rpar

/-- A body is read as its tokens, which are parsed as the node. -/
structure ReadsBody (body : String) (ts : List Token) (node : Node) : Prop where
  lexes : ∀ rest, Closed rest → Lexes (body.toList ++ rest) ts rest
  parses : ∀ total n rest, Stops rest → ts.length ≤ n →
    expr total (n + 8) (ts ++ rest) = .ok (node, rest)
  first : ∃ c, body.toList.head? = some c ∧ Text.isSpace c = false
  last : ∃ c, body.toList.getLast? = some c ∧ Text.isSpace c = false

section Bodies

variable {total n : ℕ} {node left : Node} {ts rest : List Token}

theorem andLoop_stops (h : rest.head? ≠ some (.kw .and)) :
    andLoop total (n + 1) left rest = .ok (left, rest) := by
  cases rest with
  | nil => rfl
  | cons t ts =>
    rw [andLoop]
    rintro ts' hts
    rw [hts] at h
    exact h rfl

theorem orLoop_stops (h : rest.head? ≠ some (.kw .or)) :
    orLoop total (n + 1) left rest = .ok (left, rest) := by
  cases rest with
  | nil => rfl
  | cons t ts =>
    rw [orLoop]
    rintro ts' hts
    rw [hts] at h
    exact h rfl

theorem Stops.ne (h : Stops rest) (k : Keyword) : rest.head? ≠ some (.kw k) := by
  intro hhead
  have heq := h _ hhead
  cases heq

/-- A factor that no `and` follows is a term. -/
theorem term_of_factor (h : factor total (n + 1) ts = .ok (node, rest))
    (hrest : rest.head? ≠ some (.kw .and)) : term total (n + 2) ts = .ok (node, rest) := by
  rw [term, h]
  exact andLoop_stops hrest

/-- A term that no `or` follows is an expression. -/
theorem expr_of_term (h : term total (n + 1) ts = .ok (node, rest))
    (hrest : rest.head? ≠ some (.kw .or)) : expr total (n + 2) ts = .ok (node, rest) := by
  rw [expr, h]
  exact orLoop_stops hrest

/-- The tokens of a clause in brackets. -/
def paren (ts : List Token) : List Token := .lpar :: (ts ++ [.rpar])

theorem factor_paren {clause : String} (h : Reads clause ts node) :
    factor total (n + 4) (paren ts ++ rest) = .ok (node, rest) := by
  have hstops : Stops (.rpar :: rest) := fun t ht => (Option.some.inj ht).symm
  have hexpr : expr total (n + 3) (ts ++ .rpar :: rest) = .ok (node, .rpar :: rest) :=
    expr_of_term (term_of_factor (h.parses total n _) (hstops.ne .and)) (hstops.ne .or)
  have hparen : paren ts ++ rest = .lpar :: (ts ++ .rpar :: rest) := by
    simp [paren]
  rw [hparen, factor, hexpr]
  rfl

/-- A clause, its tokens, and its node. -/
abbrev Clause : Type := String × List Token × Node

/-- The keyword of a combinator. -/
def keywordOf : Combinator → Keyword
  | .all => .and
  | .any => .or

/-- The text between two clauses. -/
def separator : Combinator → String
  | .all => " and "
  | .any => " or "

/-- The node of two clauses. -/
def nodeOf : Combinator → Node → Node → Node
  | .all => .and
  | .any => .or

/-- The tokens of further clauses. -/
def furtherTokens (combinator : Combinator) (clauses : List Clause) : List Token :=
  clauses.flatMap fun x => .kw (keywordOf combinator) :: paren x.2.1

/-- The node of a clause and further ones. -/
def joinNodes (combinator : Combinator) (left : Node) (clauses : List Clause) : Node :=
  clauses.foldl (fun node x => nodeOf combinator node x.2.2) left

theorem furtherTokens_cons {combinator : Combinator} {x : Clause} {clauses : List Clause} :
    furtherTokens combinator (x :: clauses) ++ rest = .kw (keywordOf combinator) ::
      (paren x.2.1 ++ (furtherTokens combinator clauses ++ rest)) := by
  simp [furtherTokens]

/-- Every further clause has tokens. -/
theorem length_le_furtherTokens {combinator : Combinator} {clauses : List Clause} :
    clauses.length ≤ (furtherTokens combinator clauses).length := by
  induction clauses with
  | nil => exact Nat.le_refl _
  | cons x clauses ih =>
    have hcons := congrArg List.length (@furtherTokens_cons ([]) combinator x clauses)
    rw [List.append_nil, List.append_nil, List.length_cons, List.length_append] at hcons
    rw [List.length_cons]
    omega

/-- What stands after a clause: a further one, or the end. -/
theorem head_further {combinator : Combinator} {clauses : List Clause} {k : Keyword}
    (hk : k ≠ keywordOf combinator) (hrest : Stops rest) :
    (furtherTokens combinator clauses ++ rest).head? ≠ some (.kw k) := by
  cases clauses with
  | nil => exact hrest.ne k
  | cons x clauses =>
    rw [furtherTokens_cons]
    intro hhead
    exact hk (Token.kw.inj (Option.some.inj hhead)).symm

theorem andLoop_further {clauses : List Clause} (h : ∀ x ∈ clauses, Reads x.1 x.2.1 x.2.2)
    (hrest : Stops rest) (hn : clauses.length + 4 ≤ n) :
    andLoop total n left (furtherTokens .all clauses ++ rest) = .ok (joinNodes .all left clauses, rest) := by
  induction clauses generalizing left n with
  | nil =>
    obtain ⟨m, rfl⟩ : ∃ m, n = m + 1 := ⟨n - 1, by simp at hn; omega⟩
    exact andLoop_stops (hrest.ne .and)
  | cons x clauses ih =>
    rw [List.length_cons] at hn
    obtain ⟨m, rfl⟩ : ∃ m, n = m + 4 + 1 := ⟨n - 5, by omega⟩
    have hfactor : factor total (m + 4) (paren x.2.1 ++ (furtherTokens .all clauses ++ rest)) =
        .ok (x.2.2, furtherTokens .all clauses ++ rest) := factor_paren (h x List.mem_cons_self)
    rw [furtherTokens_cons]
    have hloop : andLoop total (m + 4 + 1) left (.kw (keywordOf .all) ::
        (paren x.2.1 ++ (furtherTokens .all clauses ++ rest))) =
          (factor total (m + 4) (paren x.2.1 ++ (furtherTokens .all clauses ++ rest))).bind
            fun r => andLoop total (m + 4) (.and left r.1) r.2 := rfl
    rw [hloop, hfactor]
    exact ih (fun y hy => h y (List.mem_cons_of_mem x hy)) (by omega)

theorem orLoop_further {clauses : List Clause} (h : ∀ x ∈ clauses, Reads x.1 x.2.1 x.2.2)
    (hrest : Stops rest) (hn : clauses.length + 5 ≤ n) :
    orLoop total n left (furtherTokens .any clauses ++ rest) = .ok (joinNodes .any left clauses, rest) := by
  induction clauses generalizing left n with
  | nil =>
    obtain ⟨m, rfl⟩ : ∃ m, n = m + 1 := ⟨n - 1, by simp at hn; omega⟩
    exact orLoop_stops (hrest.ne .or)
  | cons x clauses ih =>
    rw [List.length_cons] at hn
    obtain ⟨m, rfl⟩ : ∃ m, n = m + 5 + 1 := ⟨n - 6, by omega⟩
    have hfactor : factor total (m + 4) (paren x.2.1 ++ (furtherTokens .any clauses ++ rest)) =
        .ok (x.2.2, furtherTokens .any clauses ++ rest) := factor_paren (h x List.mem_cons_self)
    have hterm : term total (m + 5) (paren x.2.1 ++ (furtherTokens .any clauses ++ rest)) =
        .ok (x.2.2, furtherTokens .any clauses ++ rest) :=
      term_of_factor hfactor (head_further (by decide) hrest)
    rw [furtherTokens_cons]
    have hloop : orLoop total (m + 5 + 1) left (.kw (keywordOf .any) ::
        (paren x.2.1 ++ (furtherTokens .any clauses ++ rest))) =
          (term total (m + 5) (paren x.2.1 ++ (furtherTokens .any clauses ++ rest))).bind
            fun r => orLoop total (m + 5) (.or left r.1) r.2 := rfl
    rw [hloop, hterm]
    exact ih (fun y hy => h y (List.mem_cons_of_mem x hy)) (by omega)

/-- Clauses in brackets, joined. -/
theorem expr_further {combinator : Combinator} {x : Clause} {clauses : List Clause}
    (hx : Reads x.1 x.2.1 x.2.2) (h : ∀ y ∈ clauses, Reads y.1 y.2.1 y.2.2) (hrest : Stops rest)
    (hn : clauses.length ≤ n) :
    expr total (n + 8) (paren x.2.1 ++ (furtherTokens combinator clauses ++ rest)) =
      .ok (joinNodes combinator x.2.2 clauses, rest) := by
  have hfactor : factor total (n + 2 + 4) (paren x.2.1 ++ (furtherTokens combinator clauses ++ rest)) =
      .ok (x.2.2, furtherTokens combinator clauses ++ rest) := factor_paren hx
  cases combinator with
  | all =>
    have hterm : term total (n + 7) (paren x.2.1 ++ (furtherTokens .all clauses ++ rest)) =
        .ok (joinNodes .all x.2.2 clauses, rest) := by
      rw [term, hfactor]
      exact andLoop_further h hrest (by omega)
    exact expr_of_term hterm (hrest.ne .or)
  | any =>
    have hterm : term total (n + 7) (paren x.2.1 ++ (furtherTokens .any clauses ++ rest)) =
        .ok (x.2.2, furtherTokens .any clauses ++ rest) :=
      term_of_factor hfactor (head_further (by decide) hrest)
    rw [expr, hterm]
    exact orLoop_further h hrest (by omega)

/-- A clause in brackets, as it is written. -/
theorem lexes_paren {clause : String} {cs : List Char} (h : Reads clause ts node) :
    Lexes (("(" ++ clause ++ ")").toList ++ cs) (paren ts) cs := by
  have hopen : "(".toList = ['('] := by decide
  have hclose : ")".toList = [')'] := by decide
  have hchars : ("(" ++ clause ++ ")").toList ++ cs = '(' :: (clause.toList ++ ')' :: cs) := by
    simp only [String.toList_append, hopen, hclose, List.append_assoc, List.cons_append,
      List.nil_append]
  rw [hchars]
  exact (lexes_lpar _).trans ((h.lexes _ (closed_cons (.inr rfl))).trans (lexes_rpar cs))

/-- A separator, and what is in brackets after it. -/
theorem lexes_separator {combinator : Combinator} {cs tail : List Char} {us : List Token}
    (h : Lexes ('(' :: cs) us tail) :
    Lexes ((separator combinator).toList ++ '(' :: cs) (.kw (keywordOf combinator) :: us) tail := by
  have hblank : lex (' ' :: '(' :: cs) = lex ('(' :: cs) := by
    rw [@lex_cons (' ' :: '(' :: cs) _ _ rfl, @lex_cons ('(' :: cs) _ _ rfl]
  have hkeyword : Lexes ((separator combinator).toList ++ '(' :: cs) [.kw (keywordOf combinator)]
      (' ' :: '(' :: cs) := by
    cases combinator <;> exact lexes_of_scan rfl
  refine hkeyword.trans ?_
  unfold Lexes at *
  rw [hblank, h]

theorem lexes_further {combinator : Combinator} {clauses : List Clause} {cs : List Char}
    (h : ∀ x ∈ clauses, Reads x.1 x.2.1 x.2.2) :
    Lexes ((clauses.flatMap fun x => (separator combinator).toList ++ ("(" ++ x.1 ++ ")").toList) ++ cs)
      (furtherTokens combinator clauses) cs := by
  induction clauses with
  | nil => exact lexes_refl cs
  | cons x clauses ih =>
    have hclause := @lexes_paren _ _ _ ((clauses.flatMap fun x => (separator combinator).toList ++
      ("(" ++ x.1 ++ ")").toList) ++ cs) (h x List.mem_cons_self)
    have hopen : ∀ cs, ("(" ++ x.1 ++ ")").toList ++ cs = '(' :: ((x.1 ++ ")").toList ++ cs) := by
      intro cs
      have hparen : "(".toList = ['('] := by decide
      rw [String.append_assoc, String.toList_append, hparen]
      rfl
    rw [hopen] at hclause
    have hhead := (@lexes_separator combinator _ _ _ hclause).trans
      (ih fun y hy => h y (List.mem_cons_of_mem x hy))
    rw [← hopen] at hhead
    rw [List.flatMap_cons, List.append_assoc, List.append_assoc]
    exact hhead

/-- The clauses in brackets are read as the join of their nodes. -/
theorem readsBody_join (combinator : Combinator) (x : Clause) (clauses : List Clause)
    (h : ∀ y ∈ x :: clauses, Reads y.1 y.2.1 y.2.2) :
    ReadsBody ((separator combinator).intercalate ((x :: clauses).map fun y => "(" ++ y.1 ++ ")"))
      (paren x.2.1 ++ furtherTokens combinator clauses) (joinNodes combinator x.2.2 clauses) := by
  have htext : ∀ (x : Clause) (clauses : List Clause), ((separator combinator).intercalate
      ((x :: clauses).map fun y => "(" ++ y.1 ++ ")")).toList = ("(" ++ x.1 ++ ")").toList ++
        clauses.flatMap fun y => (separator combinator).toList ++ ("(" ++ y.1 ++ ")").toList := by
    intro x clauses
    induction clauses generalizing x with
    | nil => simp
    | cons y clauses ih =>
      rw [List.map_cons, List.map_cons, String.intercalate_cons_cons, String.toList_append,
        String.toList_append]
      have htail := ih y
      rw [List.map_cons] at htail
      rw [htail, List.flatMap_cons]
      simp only [List.append_assoc]
  have hlast : ∀ (x : Clause) (clauses : List Clause), ((separator combinator).intercalate
      ((x :: clauses).map fun y => "(" ++ y.1 ++ ")")).toList.getLast? = some ')' := by
    intro x clauses
    induction clauses generalizing x with
    | nil =>
      rw [List.map_singleton, String.intercalate_singleton]
      exact last_append (by decide)
    | cons y clauses ih =>
      rw [List.map_cons, List.map_cons, String.intercalate_cons_cons]
      exact last_append (ih y)
  have hx := h x List.mem_cons_self
  have hclauses := fun y hy => h y (List.mem_cons_of_mem x hy)
  refine ⟨fun rest _ => ?_, fun total n rest hrest hn => ?_, ⟨'(', ?_, by decide⟩,
    ⟨')', hlast x clauses, by decide⟩⟩
  · rw [htext, List.append_assoc]
    exact (lexes_paren hx).trans (lexes_further hclauses)
  · rw [List.append_assoc]
    refine expr_further hx hclauses hrest (Nat.le_trans ?_ hn)
    have hlength := @length_le_furtherTokens combinator clauses
    rw [List.length_append]
    omega
  · have hopen : "(".toList = ['('] := by decide
    rw [htext, String.append_assoc, String.toList_append, hopen]
    rfl

/-- A clause alone is read as its node. -/
theorem readsBody_single {clause : String} (h : Reads clause ts node) : ReadsBody clause ts node := by
  refine ⟨h.lexes, fun total n rest hrest _ => ?_, h.first, h.last⟩
  exact expr_of_term (term_of_factor (h.parses total (n + 5) rest) (hrest.ne .and)) (hrest.ne .or)

/-- A body is what its text is parsed as. -/
theorem parseExpression_body {body : String} (h : ReadsBody body ts node) :
    parseExpression body = .ok node := by
  obtain ⟨c, hc, hspace⟩ := h.first
  obtain ⟨d, hd, hspace'⟩ := h.last
  have hlex : lex body.toList = .ok ts := by
    have hwhole := h.lexes [] nofun
    rw [List.append_nil] at hwhole
    exact hwhole.lex_eq
  have hexpr := h.parses ts.length (4 * ts.length) [] nofun (by omega)
  rw [List.append_nil] at hexpr
  rw [parseExpression, Text.strip_of_ends hc hd hspace hspace', hlex]
  dsimp only
  have hparse : parse ts = (expr ts.length (4 * ts.length + 8) ts).bind fun r =>
      if r.2 = [] then .ok r.1 else .error (.expr "trailing tokens") := rfl
  rw [hparse, hexpr]
  rfl

/-- A body that is negated. -/
theorem parseExpression_not {body : String} (h : ReadsBody body ts node) :
    parseExpression ("not (" ++ body ++ ")") = .ok (.not node) := by
  have hopen : "not (".toList = ['n', 'o', 't', ' ', '('] := by decide
  have hclose : ")".toList = [')'] := by decide
  have hchars : ("not (" ++ body ++ ")").toList = Keyword.not.text.toList ++
      ' ' :: '(' :: (body.toList ++ ')' :: []) := by
    have hnot : Keyword.not.text.toList = ['n', 'o', 't'] := by decide
    simp only [String.toList_append, hopen, hclose, hnot, List.cons_append, List.nil_append]
  have hlex : lex ("not (" ++ body ++ ")").toList = .ok (.kw .not :: paren ts) := by
    rw [hchars]
    exact ((lexes_keyword .not _).trans ((@lexes_blank ('(' :: (body.toList ++ [')'])) _ _ rfl).trans
      ((h.lexes [')'] (closed_cons (.inr rfl))).trans (lexes_rpar [])))).lex_eq
  have hstrip : Text.strip ("not (" ++ body ++ ")") = "not (" ++ body ++ ")" := by
    refine Text.strip_of_ends (c := 'n') (d := ')') ?_ (last_append (by decide)) (by decide) (by decide)
    rw [hchars]
    rfl
  have hlength : (Token.kw .not :: paren ts).length = ts.length + 3 := by simp [paren]
  have hstops : Stops [.rpar] := fun t ht => (Option.some.inj ht).symm
  have hbody := h.parses (ts.length + 3) (4 * ts.length + 8) [.rpar] hstops (by omega)
  have hfactor : factor (ts.length + 3) (4 * ts.length + 17 + 1) (.kw .not :: paren ts) =
      .ok (.not node, []) := by
    have hparen : factor (ts.length + 3) (4 * ts.length + 17) (paren ts) = .ok (node, []) := by
      have hstep : factor (ts.length + 3) (4 * ts.length + 17) (paren ts) =
          (expr (ts.length + 3) (4 * ts.length + 16) (ts ++ [.rpar])).bind fun r =>
            (take (ts.length + 3) .rpar "rpar" r.2).bind fun s => .ok (r.1, s.2) := rfl
      rw [hstep, hbody]
      rfl
    rw [factor, hparen]
    rfl
  rw [parseExpression, hstrip, hlex]
  have hparse : parse (.kw .not :: paren ts) =
      (expr (Token.kw .not :: paren ts).length (4 * (Token.kw .not :: paren ts).length + 8)
        (.kw .not :: paren ts)).bind fun r =>
          if r.2 = [] then .ok r.1 else .error (.expr "trailing tokens") := rfl
  have hfuel : 4 * (ts.length + 3) + 8 = 4 * ts.length + 17 + 1 + 2 := by omega
  dsimp only
  rw [hparse, hlength, hfuel, expr_of_term (term_of_factor hfactor nofun) nofun]
  rfl

end Bodies

end JenKea.Explain
