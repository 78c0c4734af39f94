import JenKea.Explain.Client
import JenKea.Lib.Kleene

/-!
# Class expressions, read and evaluated

The tokenizer, the parser and the three-valued evaluator of `jen/services/dhcp_explain.py`.
-/

namespace JenKea.Explain

open Import
open Text (isHexDigit fromHex)

/-! ## Tokens -/

/-- A keyword. -/
inductive Keyword where
  | and
  | or
  | not
  | member
  | substring
  deriving DecidableEq, Repr

/-- How a keyword is written. -/
def Keyword.text : Keyword → String
  | .and => "and"
  | .or => "or"
  | .not => "not"
  | .member => "member"
  | .substring => "substring"

/-- A token: a literal without its quotes and without its `0x`. -/
inductive Token where
  | lpar
  | rpar
  | comma
  | eq
  | str (text : List Char)
  | hex (digits : List Char)
  | num (digits : List Char)
  | acc (text : List Char)
  | kw (k : Keyword)
  deriving DecidableEq, Repr

/-- What comes after a prefix. -/
def afterPrefix (p cs : List Char) : Option (List Char) :=
  if p.isPrefixOf cs then some (cs.drop p.length) else none

/-- A bracket, a comma, or `==`. -/
def scanMark : List Char → Option (Token × List Char)
  | '(' :: cs => some (.lpar, cs)
  | ')' :: cs => some (.rpar, cs)
  | ',' :: cs => some (.comma, cs)
  | '=' :: '=' :: cs => some (.eq, cs)
  | _ => none

/-- `'[^']*'`. -/
def scanStr : List Char → Option (Token × List Char)
  | [] => none
  | c :: cs =>
    if c = Text.singleQuote then
      match cs.dropWhile (· ≠ Text.singleQuote) with
      | [] => none
      | _ :: rest => some (.str (cs.takeWhile (· ≠ Text.singleQuote)), rest)
    else none

/-- One digit or more, of those that `p` holds of. -/
def scanDigits (p : Char → Bool) (cs : List Char) : Option (List Char × List Char) :=
  if cs.takeWhile p = [] then none else some (cs.takeWhile p, cs.dropWhile p)

/-- `0x[0-9A-Fa-f]+`. -/
def scanHex (cs : List Char) : Option (Token × List Char) := do
  let cs ← afterPrefix ['0', 'x'] cs
  let (digits, rest) ← scanDigits isHexDigit cs
  return (.hex digits, rest)

/-- `\d+`, of the digits of ASCII. -/
def scanNum (cs : List Char) : Option (Token × List Char) := do
  let (digits, rest) ← scanDigits Char.isDigit cs
  return (.num digits, rest)

/-- `option\[\d+\]\.(?:hex|text)`. -/
def scanOption (cs : List Char) : Option (Token × List Char) := do
  let cs ← afterPrefix "option[".toList cs
  let (digits, cs) ← scanDigits Char.isDigit cs
  let cs ← afterPrefix "].".toList cs
  let accessor := fun suffix : String => Token.acc ("option[".toList ++ digits ++ "].".toList ++ suffix.toList)
  match afterPrefix "hex".toList cs with
  | some rest => some (accessor "hex", rest)
  | none => (afterPrefix "text".toList cs).map fun rest => (accessor "text", rest)

/-- `pkt4\.mac`. -/
def scanMac (cs : List Char) : Option (Token × List Char) :=
  (afterPrefix "pkt4.mac".toList cs).map fun rest => (.acc "pkt4.mac".toList, rest)

/-- `relay4\[\d\]\.hex`. -/
def scanRelay (cs : List Char) : Option (Token × List Char) := do
  match ← afterPrefix "relay4[".toList cs with
  | [] => none
  | d :: cs =>
    if d.isDigit then
      let rest ← afterPrefix "].hex".toList cs
      return (.acc ("relay4[".toList ++ d :: "].hex".toList), rest)
    else none

/-- `and|or|not|member|substring`. -/
def scanKeyword (cs : List Char) : Option (Token × List Char) :=
  [Keyword.and, .or, .not, .member, .substring].findSome? fun k =>
    (afterPrefix k.text.toList cs).map fun rest => (.kw k, rest)

/-- The first alternative of `_TOKEN_RE` that matches. -/
def scan (cs : List Char) : Option (Token × List Char) :=
  scanMark cs <|> scanStr cs <|> scanHex cs <|> scanNum cs <|> scanOption cs <|> scanMac cs <|>
    scanRelay cs <|> scanKeyword cs

/-! ## Scanning goes on -/

theorem length_of_afterPrefix {p cs rest : List Char} (h : afterPrefix p cs = some rest) :
    cs.length = p.length + rest.length := by
  unfold afterPrefix at h
  split_ifs at h with hprefix
  obtain ⟨tail, rfl⟩ := List.isPrefixOf_iff_prefix.mp hprefix
  rw [List.drop_left, Option.some.injEq] at h
  rw [List.length_append, h]

theorem length_of_scanDigits {p : Char → Bool} {cs digits rest : List Char}
    (h : scanDigits p cs = some (digits, rest)) : rest.length < cs.length := by
  unfold scanDigits at h
  split_ifs at h with hempty
  obtain ⟨rfl, rfl⟩ := Prod.mk.inj (Option.some.inj h)
  have hlength := congrArg List.length (List.takeWhile_append_dropWhile (p := p) (l := cs))
  rw [List.length_append] at hlength
  have hpos : 0 < (cs.takeWhile p).length := List.length_pos_iff.mpr hempty
  omega

/-- The scanner takes something. -/
def Takes (f : List Char → Option (Token × List Char)) : Prop :=
  ∀ cs t rest, f cs = some (t, rest) → rest.length < cs.length

theorem Takes.or {f g : List Char → Option (Token × List Char)} (hf : Takes f) (hg : Takes g) :
    Takes fun cs => f cs <|> g cs := by
  intro cs t rest h
  cases hfirst : f cs with
  | none =>
    have h' : (f cs <|> g cs) = some (t, rest) := h
    rw [hfirst] at h'
    exact hg cs t rest h'
  | some x =>
    have h' : (f cs <|> g cs) = some (t, rest) := h
    rw [hfirst] at h'
    exact hf cs t rest (hfirst.trans h')

/-- A prefix, and then what takes nothing back. -/
theorem takes_afterPrefix {p : List Char} {g : List Char → Option (Token × List Char)} (hp : p ≠ [])
    (hg : ∀ cs t rest, g cs = some (t, rest) → rest.length ≤ cs.length) :
    Takes fun cs => (afterPrefix p cs).bind g := by
  intro cs t rest h
  obtain ⟨cs', hcs', h⟩ := Option.bind_eq_some_iff.mp h
  have hlength := length_of_afterPrefix hcs'
  have hle := hg cs' t rest h
  have hpos := List.length_pos_iff.mpr hp
  omega

theorem takes_scanMark : Takes scanMark := by
  intro cs t rest h
  unfold scanMark at h
  split at h
  all_goals cases h
  all_goals simp only [List.length_cons]; omega

theorem takes_scanStr : Takes scanStr := by
  intro cs t rest h
  unfold scanStr at h
  split at h
  · cases h
  · next c cs =>
    split_ifs at h
    split at h
    · cases h
    · next q rest' hdrop =>
      obtain ⟨-, rfl⟩ := Prod.mk.inj (Option.some.inj h)
      have hle := (List.dropWhile_sublist (fun c => decide (c ≠ Text.singleQuote)) (l := cs)).length_le
      rw [hdrop, List.length_cons] at hle
      rw [List.length_cons]
      omega

theorem takes_scanDigits {p : Char → Bool} {token : List Char → Token} :
    Takes fun cs => (scanDigits p cs).bind fun x => some (token x.1, x.2) := by
  intro cs t rest h
  obtain ⟨⟨digits, rest'⟩, hscan, h⟩ := Option.bind_eq_some_iff.mp h
  obtain ⟨-, rfl⟩ := Prod.mk.inj (Option.some.inj h)
  exact length_of_scanDigits hscan

theorem takes_scanOption : Takes scanOption := by
  refine takes_afterPrefix (by decide) fun cs t rest h => ?_
  obtain ⟨⟨digits, cs₁⟩, hdigits, h⟩ := Option.bind_eq_some_iff.mp h
  obtain ⟨cs₂, hbracket, h⟩ := Option.bind_eq_some_iff.mp h
  have hlength := length_of_scanDigits hdigits
  have hlength' := length_of_afterPrefix hbracket
  have hsuffix : rest.length ≤ cs₂.length := by
    split at h
    · next rest' hhex =>
      obtain ⟨-, rfl⟩ := Prod.mk.inj (Option.some.inj h)
      have hlength'' := length_of_afterPrefix hhex
      omega
    · obtain ⟨rest', htext, h⟩ := Option.map_eq_some_iff.mp h
      obtain ⟨-, rfl⟩ := Prod.mk.inj h
      have hlength'' := length_of_afterPrefix htext
      omega
  omega

theorem takes_scanRelay : Takes scanRelay := by
  refine takes_afterPrefix (by decide) fun cs t rest h => ?_
  cases cs with
  | nil => cases h
  | cons d cs =>
    dsimp only at h
    split_ifs at h
    obtain ⟨rest', hsuffix, h⟩ := Option.bind_eq_some_iff.mp h
    obtain ⟨-, rfl⟩ := Prod.mk.inj (Option.some.inj h)
    have hlength := length_of_afterPrefix hsuffix
    rw [List.length_cons]
    omega

theorem takes_scanKeyword : Takes scanKeyword := by
  intro cs t rest h
  obtain ⟨k, -, h⟩ := List.exists_of_findSome?_eq_some h
  obtain ⟨rest', hprefix, h⟩ := Option.map_eq_some_iff.mp h
  obtain ⟨-, rfl⟩ := Prod.mk.inj h
  have hlength := length_of_afterPrefix hprefix
  have hpos : 0 < k.text.toList.length := by cases k <;> decide
  omega

theorem takes_scan : Takes scan := by
  refine takes_scanMark.or (takes_scanStr.or (Takes.or ?_ (takes_scanDigits.or (takes_scanOption.or
    (Takes.or ?_ (takes_scanRelay.or takes_scanKeyword))))))
  · refine takes_afterPrefix (by decide) fun cs t rest h => Nat.le_of_lt (takes_scanDigits cs t rest h)
  · intro cs t rest h
    obtain ⟨rest', hprefix, h⟩ := Option.map_eq_some_iff.mp h
    obtain ⟨-, rfl⟩ := Prod.mk.inj h
    have hlength := length_of_afterPrefix hprefix
    have hpos : 0 < "pkt4.mac".toList.length := by decide
    omega

/-- `tokenize`, of a text that is stripped. -/
def lex (cs : List Char) : Except String (List Token) :=
  if cs = [] then .ok []
  else
    match _h : scan (cs.dropWhile Text.isSpace) with
    | none => .error ("unrecognized syntax at: " ++ Text.repr (String.ofList (cs.take 20)))
    | some (t, rest) => do
      let ts ← lex rest
      return t :: ts
termination_by cs.length
decreasing_by exact Nat.lt_of_lt_of_le (takes_scan _ _ _ _h) (List.dropWhile_sublist _).length_le

/-! ## The grammar -/

/-- An operand: a field, or a part of it. -/
inductive Operand where
  | acc (acc : Accessor)
  | substr (acc : Accessor) (start length : ℕ)
  deriving DecidableEq

/-- An expression, parsed. -/
inductive Node where
  | and (left right : Node)
  | or (left right : Node)
  | not (node : Node)
  | member (name : String)
  | eq (left : Operand) (literal : Bytes)
  deriving DecidableEq

/-- What the parser raises: its own `ExprError`, or the `ValueError` of a literal with half a byte. -/
inductive ExprError where
  | expr (message : String)
  | value
  deriving DecidableEq

/-- A parser: what it reads, and the tokens after it. -/
abbrev Parser (α : Type) : Type := List Token → Except ExprError (α × List Token)

/-- The kind of a token, as the parser names it. -/
def Token.kind : Token → String
  | .lpar => "lpar"
  | .rpar => "rpar"
  | .comma => "comma"
  | .eq => "eq"
  | .str _ => "str"
  | .hex _ => "hex"
  | .num _ => "num"
  | .acc _ => "acc"
  | .kw _ => "kw"

section Parser

-- the number of tokens in all, from which the place of an error is counted
variable (total : ℕ)

/-- An error at the next token. -/
def expected (what : String) (ts : List Token) : ExprError :=
  .expr ("expected " ++ what ++ " at token " ++ toString (total - ts.length))

/-- `take` of one token. -/
def take (t : Token) (what : String) : Parser Unit
  | t' :: ts => if t' = t then .ok ((), ts) else .error (expected total what (t' :: ts))
  | [] => .error (expected total what [])

/-- `take("str")`, without the quotes. -/
def takeStr : Parser (List Char)
  | .str text :: ts => .ok (text, ts)
  | ts => .error (expected total "str" ts)

/-- `int(take("num"))`. -/
def takeNum : Parser ℕ
  | .num digits :: ts => .ok (Nat.ofDigitChars 10 digits 0, ts)
  | ts => .error (expected total "num" ts)

/-- `_accessor`. -/
def accessor : Parser Accessor
  | .acc text :: ts =>
    match accessorOf text with
    | some acc => .ok (acc, ts)
    | none => .error (.expr ("accessor " ++ String.ofList text ++
        " is outside the rule-builder vocabulary"))
  | ts => .error (expected total "acc" ts)

/-- `operand`. -/
def operand : Parser Operand
  | .kw .substring :: ts => do
    let (_, ts) ← take total .lpar "lpar" ts
    let (acc, ts) ← accessor total ts
    let (_, ts) ← take total .comma "comma" ts
    let (start, ts) ← takeNum total ts
    let (_, ts) ← take total .comma "comma" ts
    let (length, ts) ← takeNum total ts
    let (_, ts) ← take total .rpar "rpar" ts
    return (.substr acc start length, ts)
  | ts => do
    let (acc, ts) ← accessor total ts
    return (.acc acc, ts)

/-- `comparison`. -/
def comparison : Parser Node := fun ts => do
  let (left, ts) ← operand total ts
  let (_, ts) ← take total .eq "eq" ts
  match ts with
  | .str text :: ts => return (.eq left (encode (String.ofList text)), ts)
  | .hex digits :: ts =>
    match fromHex digits with
    | some bytes => return (.eq left bytes, ts)
    | none => .error .value
  | _ => .error (.expr "expected a quoted string or 0x… literal")

mutual

/-- `expr`. The first argument bounds the calls. -/
def expr : ℕ → Parser Node
  | 0, _ => .error (.expr "unreachable")
  | n + 1, ts => do
    let (left, ts) ← term n ts
    orLoop n left ts

/-- The loop of `expr`. -/
def orLoop : ℕ → Node → Parser Node
  | 0, _, _ => .error (.expr "unreachable")
  | n + 1, left, .kw .or :: ts => do
    let (right, ts) ← term n ts
    orLoop n (.or left right) ts
  | _ + 1, left, ts => .ok (left, ts)

/-- `term`. -/
def term : ℕ → Parser Node
  | 0, _ => .error (.expr "unreachable")
  | n + 1, ts => do
    let (left, ts) ← factor n ts
    andLoop n left ts

/-- The loop of `term`. -/
def andLoop : ℕ → Node → Parser Node
  | 0, _, _ => .error (.expr "unreachable")
  | n + 1, left, .kw .and :: ts => do
    let (right, ts) ← factor n ts
    andLoop n (.and left right) ts
  | _ + 1, left, ts => .ok (left, ts)

/-- `factor`. -/
def factor : ℕ → Parser Node
  | 0, _ => .error (.expr "unreachable")
  | n + 1, .kw .not :: ts => do
    let (node, ts) ← factor n ts
    return (.not node, ts)
  | n + 1, .lpar :: ts => do
    let (node, ts) ← expr n ts
    let (_, ts) ← take total .rpar "rpar" ts
    return (node, ts)
  | _ + 1, .kw .member :: ts => do
    let (_, ts) ← take total .lpar "lpar" ts
    let (name, ts) ← takeStr total ts
    let (_, ts) ← take total .rpar "rpar" ts
    return (.member (String.ofList name), ts)
  | _ + 1, ts => comparison total ts

end

end Parser

/-- `_Parser(tokens).parse()`. -/
def parse (ts : List Token) : Except ExprError Node := do
  let (node, rest) ← expr ts.length (4 * ts.length + 8) ts
  if rest = [] then return node else .error (.expr "trailing tokens")

/-- `parse_expression`. -/
def parseExpression (text : String) : Except ExprError Node :=
  match lex (Text.strip text).toList with
  | .ok ts => parse ts
  | .error message => .error (.expr message)

/-! ## Evaluation -/

/-- The bytes of an operand, of what its field may be. -/
def Operand.slice : Operand → Bytes → Bytes
  | .acc _, v => v
  | .substr _ start length, v => (v.drop start).take length

/-- The field of an operand. -/
def Operand.accessor : Operand → Accessor
  | .acc field => field
  | .substr field _ _ => field

/-- A comparison: true or false where every reading of the field says so, and else the input that would
settle it. -/
def compare (client : Client) (left : Operand) (literal : Bytes) : Option Bool × Option String :=
  match candidates client left.accessor with
  | (none, field) => (none, some field)
  | (some options, field) =>
    match (options.map fun v => decide (left.slice v = literal)).dedup with
    | [verdict] => (some verdict, none)
    | _ => (none, some field)

/-- `evaluate`. -/
def evaluate (client : Client) (members : Members) : Node → Option Bool
  | .and left right => Kleene.and (evaluate client members left) (evaluate client members right)
  | .or left right => Kleene.or (evaluate client members left) (evaluate client members right)
  | .not node => Kleene.not (evaluate client members node)
  | .member name => members.state name
  | .eq left literal => (compare client left literal).1

/-- What `evaluate` adds to `missing`. -/
def missing (client : Client) : Node → List String
  | .and left right => missing client left ++ missing client right
  | .or left right => missing client left ++ missing client right
  | .not node => missing client node
  | .member _ => []
  | .eq left literal => (compare client left literal).2.toList

end JenKea.Explain
