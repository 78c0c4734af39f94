import JenKea.Explain.Expression
import JenKea.Lib.Digits

/-!
# What a class expression can raise

`tokenize` and `parse_expression` of `jen/services/dhcp_explain.py` once more, over everything that a Python
string may hold and with the calls counted: half of a surrogate pair is a character, every decimal digit of
Unicode is a digit, and a call takes a frame of the interpreter's stack. `ExprError` is what the parser means
to raise. A literal with half a byte, a number with too many digits, a text that has no encoding, and a
nesting that is deeper than the stack raise something else.
-/

namespace JenKea.Explain.Raises

open Import
open Text (isHexDigit fromHex)

/-! ## Texts -/

/-- A character of a Python string: a character, or half of a surrogate pair. -/
inductive Point where
  | char (c : Char)
  | half (n : Fin 2048)
  deriving DecidableEq

/-- A text without surrogates. -/
def points (s : String) : List Point := s.toList.map .char

/-- The character, where it is one. -/
def Point.char? : Point → Option Char
  | .char c => some c
  | .half _ => none

/-- The value of a decimal digit. -/
def Point.digit : Point → Option ℕ
  | .char c => Text.digitOf c
  | .half _ => none

/-- A hexadecimal digit. -/
def Point.hexDigit : Point → Option Char
  | .char c => if isHexDigit c then some c else none
  | .half _ => none

/-- A blank. -/
def Point.isSpace : Point → Bool
  | .char c => Text.isSpace c
  | .half _ => false

/-- `text.strip()`. -/
def strip (text : List Point) : List Point :=
  ((text.dropWhile Point.isSpace).reverse.dropWhile Point.isSpace).reverse

/-- `text.encode()`, which refuses half of a pair. -/
def encodeText (text : List Point) : Option Bytes :=
  (text.mapM Point.char?).map fun cs => encode (String.ofList cs)

/-! ## Tokens -/

/-- A token: a literal without its quotes and without its `0x`, a number by its digits. -/
inductive Token where
  | lpar
  | rpar
  | comma
  | eq
  | str (text : List Point)
  | hex (digits : List Char)
  | num (digits : List ℕ)
  | acc (text : List Char)
  | kw (k : Keyword)
  deriving DecidableEq

/-- What comes after a prefix. -/
def after (p : String) (cs : List Point) : Option (List Point) :=
  if (points p).isPrefixOf cs then some (cs.drop (points p).length) else none

/-- What `f` reads, as far as it reads, and what comes after. -/
def leading {β : Type} (f : Point → Option β) : List Point → List β × List Point
  | [] => ([], [])
  | c :: cs =>
    match f c with
    | some b => (b :: (leading f cs).1, (leading f cs).2)
    | none => ([], c :: cs)

/-- The first of some words that the text starts with. -/
def scanWord (words : List (String × Token)) (cs : List Point) : Option (Token × List Point) :=
  words.findSome? fun w => (after w.1 cs).map fun rest => (w.2, rest)

/-- `'[^']*'`. -/
def scanStr (cs : List Point) : Option (Token × List Point) := do
  let quote := Point.char Text.singleQuote
  let cs ← if cs.head? = some quote then some cs.tail else none
  let (text, rest) := leading (fun c => if c = quote then none else some c) cs
  if rest = [] then none else return (.str text, rest.tail)

/-- `0x[0-9A-Fa-f]+`. -/
def scanHex (cs : List Point) : Option (Token × List Point) := do
  let cs ← after "0x" cs
  let (digits, rest) := leading Point.hexDigit cs
  if digits = [] then none else return (.hex digits, rest)

/-- `\d+`. -/
def scanNum (cs : List Point) : Option (Token × List Point) :=
  let (digits, rest) := leading Point.digit cs
  if digits = [] then none else some (.num digits, rest)

/-- The token of an accessor: what was read before `rest`. -/
def accToken (cs rest : List Point) : Token × List Point :=
  (.acc ((cs.take (cs.length - rest.length)).filterMap Point.char?), rest)

/-- `option\[\d+\]\.(?:hex|text)`. -/
def scanOption (cs : List Point) : Option (Token × List Point) := do
  let inside ← after "option[" cs
  let (digits, rest) := leading Point.digit inside
  let rest ← if digits = [] then none else after "]." rest
  return accToken cs (← after "hex" rest <|> after "text" rest)

/-- `relay4\[\d\]\.hex`. -/
def scanRelay (cs : List Point) : Option (Token × List Point) := do
  let inside ← after "relay4[" cs
  let rest ← if (inside.head?.bind Point.digit).isSome then some inside.tail else none
  return accToken cs (← after "].hex" rest)

/-- The first alternative of `_TOKEN_RE` that matches. -/
def scan (cs : List Point) : Option (Token × List Point) :=
  scanWord [("(", .lpar), (")", .rpar), (",", .comma), ("==", .eq)] cs <|> scanStr cs <|> scanHex cs <|>
    scanNum cs <|> scanOption cs <|> (after "pkt4.mac" cs).map (accToken cs) <|> scanRelay cs <|>
    scanWord ([Keyword.and, .or, .not, .member, .substring].map fun k => (k.text, .kw k)) cs

/-- `tokenize`, of a text that is stripped. An error carries the characters that its message shows. -/
def lex (cs : List Point) : Except (List Point) (List Token) :=
  if cs = [] then .ok []
  else
    match scan (cs.dropWhile Point.isSpace) with
    | none => .error (cs.take 20)
    | some (t, rest) =>
      -- `m.end() == pos`
      if _h : rest.length < cs.length then do
        let ts ← lex rest
        return t :: ts
      else .error (cs.take 20)
termination_by cs.length

/-! ## The grammar -/

/-- An expression, parsed. -/
inductive Ast where
  | and (left right : Ast)
  | or (left right : Ast)
  | not (node : Ast)
  | member (name : List Point)
  | eq (left : Operand) (literal : Bytes)
  deriving DecidableEq

/-- What is raised that is no `ExprError`. -/
inductive Fault where
  /-- `bytes.fromhex` of half a byte. -/
  | value
  /-- `int` of more digits than the interpreter converts. -/
  | long
  /-- `encode` of half a pair. -/
  | encode
  /-- `RecursionError`. -/
  | recursion
  deriving DecidableEq

/-- How a call of the parser ends that returns nothing. -/
inductive ParseError where
  /-- `ExprError` of the tokenizer. -/
  | unrecognized (text : List Point)
  /-- `ExprError` of the parser. -/
  | expr (message : String)
  | raised (fault : Fault)
  /-- The bound on the calls of the model is used up. -/
  | fuel
  deriving DecidableEq

/-- A parser: what it reads, and the tokens after it. -/
abbrev Parser (α : Type) : Type := List Token → Except ParseError (α × List Token)

section Parser

-- the number of tokens in all, from which the place of an error is counted
variable (total : ℕ)

/-- An error at the next token. -/
def expected (what : String) (ts : List Token) : ParseError :=
  .expr ("expected " ++ what ++ " at token " ++ toString (total - ts.length))

/-- A call that takes `n` frames, where `frames` are left. -/
def calls {α : Type} (n frames : ℕ) (x : Except ParseError α) : Except ParseError α :=
  if frames < n then .error (.raised .recursion) else x

/-- `take` of one token. It takes a frame, and `peek` another one. -/
def take (frames : ℕ) (t : Token) (what : String) : Parser Unit
  | t' :: ts => calls 2 frames (if t' = t then .ok ((), ts) else .error (expected total what (t' :: ts)))
  | [] => calls 2 frames (.error (expected total what []))

/-- `take("str")`, without the quotes. -/
def takeStr (frames : ℕ) : Parser (List Point)
  | .str text :: ts => calls 2 frames (.ok (text, ts))
  | ts => calls 2 frames (.error (expected total "str" ts))

/-- `int(take("num"))`. -/
def takeNum (frames : ℕ) : Parser ℕ
  | .num digits :: ts => calls 2 frames
      (if Text.digitLimit < digits.length then .error (.raised .long)
      else .ok (Text.ofDigits digits, ts))
  | ts => calls 2 frames (.error (expected total "num" ts))

/-- `_accessor`. -/
def accessor (frames : ℕ) : Parser Accessor
  | .acc text :: ts => calls 3 frames
      (match accessorOf text with
      | some acc => .ok (acc, ts)
      | none => .error (.expr ("accessor " ++ String.ofList text ++ " is outside the rule-builder vocabulary")))
  | ts => calls 3 frames (.error (expected total "acc" ts))

/-- `operand`, after `substring`. -/
def substringOperand (frames : ℕ) : Parser Operand := fun ts => do
  let (_, ts) ← take total (frames - 1) .lpar "lpar" ts
  let (acc, ts) ← accessor total (frames - 1) ts
  let (_, ts) ← take total (frames - 1) .comma "comma" ts
  let (start, ts) ← takeNum total (frames - 1) ts
  let (_, ts) ← take total (frames - 1) .comma "comma" ts
  let (length, ts) ← takeNum total (frames - 1) ts
  let (_, ts) ← take total (frames - 1) .rpar "rpar" ts
  return (.substr acc start length, ts)

/-- `operand`. -/
def operand (frames : ℕ) : Parser Operand
  | .kw .substring :: ts => calls 3 frames (substringOperand total frames ts)
  | ts => calls 2 frames (do
      let (acc, ts) ← accessor total (frames - 1) ts
      return (.acc acc, ts))

/-- The literal of a comparison. -/
def literal (frames : ℕ) : Parser Bytes
  | .str text :: ts => calls 3 frames
      (match encodeText text with
      | some bytes => .ok (bytes, ts)
      | none => .error (.raised .encode))
  | .hex digits :: ts => calls 3 frames
      (match fromHex digits with
      | some bytes => .ok (bytes, ts)
      | none => .error (.raised .value))
  | _ => calls 2 frames (.error (.expr "expected a quoted string or 0x… literal"))

/-- `comparison`. -/
def comparison (frames : ℕ) : Parser Ast := fun ts => do
  let (left, ts) ← operand total (frames - 1) ts
  let (_, ts) ← take total (frames - 1) .eq "eq" ts
  let (bytes, ts) ← literal frames ts
  return (.eq left bytes, ts)

mutual

/-- `expr`. The first argument bounds the calls of the model, the second one is the frames that are left. -/
def expr : ℕ → ℕ → Parser Ast
  | 0, _, _ => .error .fuel
  | n + 1, frames, ts => calls 1 frames (do
      let (left, ts) ← term n (frames - 1) ts
      orLoop n frames left ts)
termination_by structural n => n

/-- The loop of `expr`. -/
def orLoop : ℕ → ℕ → Ast → Parser Ast
  | 0, _, _, _ => .error .fuel
  | n + 1, frames, left, .kw .or :: ts => calls 3 frames (do
      let (right, ts) ← term n (frames - 1) ts
      orLoop n frames (.or left right) ts)
  | _ + 1, frames, left, ts => calls 2 frames (.ok (left, ts))
termination_by structural n => n

/-- `term`. -/
def term : ℕ → ℕ → Parser Ast
  | 0, _, _ => .error .fuel
  | n + 1, frames, ts => calls 1 frames (do
      let (left, ts) ← factor n (frames - 1) ts
      andLoop n frames left ts)
termination_by structural n => n

/-- The loop of `term`. -/
def andLoop : ℕ → ℕ → Ast → Parser Ast
  | 0, _, _, _ => .error .fuel
  | n + 1, frames, left, .kw .and :: ts => calls 3 frames (do
      let (right, ts) ← factor n (frames - 1) ts
      andLoop n frames (.and left right) ts)
  | _ + 1, frames, left, ts => calls 2 frames (.ok (left, ts))
termination_by structural n => n

/-- `factor`. -/
def factor : ℕ → ℕ → Parser Ast
  | 0, _, _ => .error .fuel
  | n + 1, frames, .kw .not :: ts => calls 3 frames (do
      let (node, ts) ← factor n (frames - 1) ts
      return (.not node, ts))
  | n + 1, frames, .lpar :: ts => calls 3 frames (do
      let (node, ts) ← expr n (frames - 1) ts
      let (_, ts) ← take total (frames - 1) .rpar "rpar" ts
      return (node, ts))
  | _ + 1, frames, .kw .member :: ts => calls 3 frames (do
      let (_, ts) ← take total (frames - 1) .lpar "lpar" ts
      let (name, ts) ← takeStr total (frames - 1) ts
      let (_, ts) ← take total (frames - 1) .rpar "rpar" ts
      return (.member name, ts))
  | _ + 1, frames, ts => calls 2 frames (comparison total (frames - 1) ts)
termination_by structural n => n

end

end Parser

/-- `_Parser(tokens).parse()`. -/
def parse (frames : ℕ) (ts : List Token) : Except ParseError Ast := do
  let (node, rest) ← expr ts.length (4 * ts.length + 4) (frames - 1) ts
  if rest = [] then return node else .error (.expr "trailing tokens")

/-- `parse_expression`, with so many frames left. -/
def parseExpression (frames : ℕ) (text : List Point) : Except ParseError Ast :=
  calls 2 frames
    (match lex (strip text) with
    | .ok ts => parse (frames - 1) ts
    | .error shown => .error (.unrecognized shown))

/-! ## One pass over the tokens -/

/-- A token that the parser waits for. -/
inductive Slot where
  | mark (t : Token)
  | name
  | field
  | number
  | literal

/-- What a token does in its place: it does not fit, or it fits and may raise something. -/
def Slot.reads : Slot → Token → Option (Option Fault)
  | .mark t', t => if t = t' then some none else none
  | .name, .str _ => some none
  | .field, .acc text => if (accessorOf text).isSome then some none else none
  | .number, .num digits => some (if Text.digitLimit < digits.length then some .long else none)
  | .literal, .str text => some (if text.all fun c => c.char?.isSome then none else some .encode)
  | .literal, .hex digits => some (if (fromHex digits).isSome then none else some .value)
  | _, _ => none

/-- Where the pass stands: before a factor, with the frames that are left for it, or behind one, or inside
one, with the tokens that it still waits for. -/
inductive Stage where
  | expect (frames : ℕ)
  | reading (slots : List Slot)

/-- What a member waits for. -/
def memberSlots : List Slot := [.mark .lpar, .name, .mark .rpar]

/-- What a part of a field waits for. -/
def substringSlots : List Slot :=
  [.mark .lpar, .field, .mark .comma, .number, .mark .comma, .number, .mark .rpar, .mark .eq, .literal]

/-- The first thing that is raised and is no `ExprError`, if the tokens come to it before they stop making
sense. The last argument is the frames for a factor, of the innermost open bracket and of those around it:
a bracket costs three frames and `not` one, and a comparison needs six. -/
def walk : List Token → Stage → List ℕ → Option Fault
  | [], .expect g, _ => if g < 6 then some .recursion else none
  | .kw .not :: ts, .expect g, levels =>
    if g < 3 then some .recursion else walk ts (.expect (g - 1)) levels
  | .lpar :: ts, .expect g, levels =>
    if g < 3 then some .recursion else walk ts (.expect (g - 3)) ((g - 3) :: levels)
  | .kw .member :: ts, .expect g, levels =>
    if g < 3 then some .recursion else walk ts (.reading memberSlots) levels
  | .kw .substring :: ts, .expect g, levels =>
    if g < 5 ∨ g < 6 ∧ ts.head? = some .lpar then some .recursion
    else walk ts (.reading substringSlots) levels
  | t :: ts, .expect g, levels =>
    if g < 6 then some .recursion
    else if Slot.field.reads t = none then none
    else walk ts (.reading [.mark .eq, .literal]) levels
  | [], .reading _, _ => none
  | t :: ts, .reading (slot :: slots), levels =>
    match slot.reads t with
    | none => none
    | some (some fault) => some fault
    | some none => walk ts (.reading slots) levels
  | .kw .and :: ts, .reading [], g :: levels => walk ts (.expect g) (g :: levels)
  | .kw .or :: ts, .reading [], g :: levels => walk ts (.expect g) (g :: levels)
  | .rpar :: ts, .reading [], _ :: g :: levels => walk ts (.reading []) (g :: levels)
  | _ :: _, .reading [], _ => none

/-! ## The pass and the parser -/

/-- A parser ends as the pass does: with what the pass finds, or, where it found nothing so far, before the
tokens from which the pass goes on. At most `n` tokens are left, of which the first is none that the parser
would have taken. -/
def Follows {α : Type} (stops : List Token → Prop) (n : ℕ) (next : List Token → Option Fault)
    (found : Option Fault) : Except ParseError (α × List Token) → Prop
  | .ok (_, rest) => found = next rest ∧ rest.length ≤ n ∧ stops rest
  | .error (.raised fault) => found = some fault
  | .error .fuel => False
  | .error _ => found = none

/-- Anything may come next. -/
def anything : List Token → Prop := fun _ => True

section Follows

variable {α β : Type} {stops stops' : List Token → Prop} {n n' : ℕ} {next next' : List Token → Option Fault}
  {found : Option Fault} {x : Except ParseError (α × List Token)}

theorem Follows.bind {f : α × List Token → Except ParseError (β × List Token)}
    (hx : Follows stops n next found x)
    (hf : ∀ a rest, rest.length ≤ n → stops rest → Follows stops' n' next' (next rest) (f (a, rest))) :
    Follows stops' n' next' found (x >>= f) := by
  rcases x with e | ⟨a, rest⟩
  · cases e with
    | fuel => exact hx.elim
    | unrecognized text => exact hx
    | expr message => exact hx
    | raised fault => exact hx
  · obtain ⟨rfl, hlength, hstops⟩ := hx
    exact hf a rest hlength hstops

theorem follows_ok {a : α} {rest : List Token} (hlength : rest.length ≤ n) (hstops : stops rest) :
    Follows stops n next (next rest) (.ok (a, rest)) := ⟨rfl, hlength, hstops⟩

theorem follows_calls {m frames : ℕ} (henough : m ≤ frames) (hx : Follows stops n next found x) :
    Follows stops n next found (calls m frames x) := by
  unfold calls
  rw [if_neg (Nat.not_lt.mpr henough)]
  exact hx

theorem follows_few {m frames : ℕ} (hfew : frames < m) :
    Follows stops n next (some .recursion) (calls m frames x) := by
  unfold calls
  rw [if_pos hfew]
  rfl

theorem Follows.weaken (hx : Follows stops n next found x) (hn : n ≤ n')
    (hstops : ∀ rest, stops rest → stops' rest) : Follows stops' n' next found x := by
  rcases x with e | ⟨a, rest⟩
  · cases e <;> exact hx
  · exact ⟨hx.1, Nat.le_trans hx.2.1 hn, hstops rest hx.2.2⟩

end Follows

section Slots

variable {total frames : ℕ} {ts : List Token} {slots : List Slot} {levels : List ℕ}

theorem walk_slot {t : Token} {slot : Slot} :
    walk (t :: ts) (.reading (slot :: slots)) levels =
      match slot.reads t with
      | none => none
      | some (some fault) => some fault
      | some none => walk ts (.reading slots) levels := by
  cases t with
  | kw k => cases k <;> rfl
  | _ => rfl

/-- A token that does not fit is an `ExprError`. -/
theorem follows_unfit {α : Type} {stops : List Token → Prop} {next : List Token → Option Fault} {t : Token}
    {slot : Slot} {n : ℕ} (message : String) (hslot : slot.reads t = none) :
    Follows stops n next (walk (t :: ts) (.reading (slot :: slots)) levels)
      (.error (.expr message) : Except ParseError (α × List Token)) := by
  rw [walk_slot, hslot]
  rfl

theorem follows_take {t : Token} {what : String} (hframes : 2 ≤ frames) :
    Follows anything (ts.length - 1) (walk · (.reading slots) levels)
      (walk ts (.reading (.mark t :: slots)) levels) (take total frames t what ts) := by
  cases ts with
  | nil => exact follows_calls hframes rfl
  | cons t' ts =>
    refine follows_calls hframes ?_
    rw [walk_slot]
    simp only [Slot.reads]
    split_ifs
    · exact follows_ok (Nat.le_refl _) trivial
    · rfl

theorem follows_takeStr (hframes : 2 ≤ frames) :
    Follows anything (ts.length - 1) (walk · (.reading slots) levels)
      (walk ts (.reading (.name :: slots)) levels) (takeStr total frames ts) := by
  cases ts with
  | nil => exact follows_calls hframes rfl
  | cons t ts =>
    cases t with
    | str text => exact follows_calls hframes (follows_ok (Nat.le_refl _) trivial)
    | _ => exact follows_calls hframes (follows_unfit _ rfl)

theorem follows_takeNum (hframes : 2 ≤ frames) :
    Follows anything (ts.length - 1) (walk · (.reading slots) levels)
      (walk ts (.reading (.number :: slots)) levels) (takeNum total frames ts) := by
  cases ts with
  | nil => exact follows_calls hframes rfl
  | cons t ts =>
    cases t with
    | num digits =>
      refine follows_calls hframes ?_
      simp only [walk, Slot.reads]
      split_ifs
      · rfl
      · exact follows_ok (Nat.le_refl _) trivial
    | _ => exact follows_calls hframes (follows_unfit _ rfl)

theorem follows_accessor (hframes : 3 ≤ frames) :
    Follows anything (ts.length - 1) (walk · (.reading slots) levels)
      (walk ts (.reading (.field :: slots)) levels) (accessor total frames ts) := by
  cases ts with
  | nil => exact follows_calls hframes rfl
  | cons t ts =>
    cases t with
    | acc text =>
      refine follows_calls hframes ?_
      simp only [walk, Slot.reads]
      cases accessorOf text with
      | none => rfl
      | some acc => exact follows_ok (Nat.le_refl _) trivial
    | _ => exact follows_calls hframes (follows_unfit _ rfl)

theorem mapM_char? {text : List Point} :
    (text.mapM Point.char?).isSome = text.all fun c => c.char?.isSome := by
  induction text with
  | nil => rfl
  | cons c cs ih =>
    rw [List.mapM_cons, List.all_cons, ← ih]
    cases c.char? with
    | none => rfl
    | some c =>
      cases cs.mapM Point.char? <;> rfl

theorem follows_literal (hframes : 3 ≤ frames) :
    Follows anything (ts.length - 1) (walk · (.reading slots) levels)
      (walk ts (.reading (.literal :: slots)) levels) (literal frames ts) := by
  have htwo : 2 ≤ frames := by omega
  cases ts with
  | nil => exact follows_calls htwo rfl
  | cons t ts =>
    cases t with
    | str text =>
      refine follows_calls hframes ?_
      simp only [walk, Slot.reads, encodeText, ← mapM_char?]
      cases text.mapM Point.char? with
      | none => rfl
      | some cs => exact follows_ok (Nat.le_refl _) trivial
    | hex digits =>
      refine follows_calls hframes ?_
      simp only [walk, Slot.reads]
      cases fromHex digits with
      | none => rfl
      | some bytes => exact follows_ok (Nat.le_refl _) trivial
    | _ => exact follows_calls htwo (follows_unfit _ rfl)

theorem follows_substringOperand (hframes : 4 ≤ frames) :
    Follows anything (ts.length - 1) (walk · (.reading [.mark .eq, .literal]) levels)
      (walk ts (.reading substringSlots) levels) (substringOperand total frames ts) := by
  have htake : 2 ≤ frames - 1 := by omega
  refine (follows_take htake).bind fun _ ts₁ h₁ _ => ?_
  refine (follows_accessor (by omega)).bind fun acc ts₂ h₂ _ => ?_
  refine (follows_take htake).bind fun _ ts₃ h₃ _ => ?_
  refine (follows_takeNum htake).bind fun start ts₄ h₄ _ => ?_
  refine (follows_take htake).bind fun _ ts₅ h₅ _ => ?_
  refine (follows_takeNum htake).bind fun length ts₆ h₆ _ => ?_
  refine (follows_take htake).bind fun _ ts₇ h₇ _ => ?_
  exact follows_ok (by omega) trivial

/-- The tokens that a factor takes itself. -/
def Token.opensFactor : Token → Bool
  | .lpar | .kw .not | .kw .member => true
  | _ => false

/-- A field of its own. -/
theorem follows_field {t : Token} {g : ℕ} :
    Follows (fun _ => 6 ≤ g) ts.length (walk · (.reading [.mark .eq, .literal]) levels)
      (if g < 6 then some .recursion
        else if Slot.field.reads t = none then none
        else walk ts (.reading [.mark .eq, .literal]) levels)
      (calls 2 (g - 2) (do
        let (acc, ts) ← accessor total (g - 2 - 1) (t :: ts)
        return (Operand.acc acc, ts))) := by
  by_cases hfew : g < 6
  · rw [if_pos hfew]
    by_cases hpeek : g - 2 < 2
    · exact follows_few hpeek
    · refine follows_calls (Nat.not_lt.mp hpeek) ?_
      have hfew' : g - 2 - 1 < 3 := by omega
      have hraised : accessor total (g - 2 - 1) (t :: ts) = .error (.raised .recursion) := by
        cases t <;> exact if_pos hfew'
      rw [hraised]
      rfl
  · rw [if_neg hfew]
    refine follows_calls (by omega) ?_
    have hfound : (if Slot.field.reads t = none then none
        else walk ts (.reading [.mark .eq, .literal]) levels) =
        walk (t :: ts) (.reading [.field, .mark .eq, .literal]) levels := by
      rw [walk_slot]
      cases t with
      | acc text =>
        by_cases hknown : (accessorOf text).isSome = true
        · simp [Slot.reads, hknown]
        · simp [Slot.reads, hknown]
      | _ => rfl
    rw [hfound]
    have hframes : 3 ≤ g - 2 - 1 := by omega
    refine (follows_accessor hframes).bind fun acc rest hrest _ => ?_
    exact follows_ok hrest (Nat.not_lt.mp hfew)

/-- An operand is read where six frames are left for its factor. -/
theorem follows_operand {g : ℕ} (hts : ∀ t ∈ ts.head?, t.opensFactor = false) :
    Follows (fun _ => 6 ≤ g) (ts.length - 1) (walk · (.reading [.mark .eq, .literal]) levels)
      (walk ts (.expect g) levels) (operand total (g - 2) ts) := by
  cases ts with
  | nil =>
    show Follows _ _ _ (if g < 6 then some .recursion else none)
      (calls 2 (g - 2) (accessor total (g - 2 - 1) [] >>= _))
    by_cases hfew : g < 6
    · rw [if_pos hfew]
      by_cases hpeek : g - 2 < 2
      · exact follows_few hpeek
      · refine follows_calls (Nat.not_lt.mp hpeek) ?_
        have hfew' : g - 2 - 1 < 3 := by omega
        have hraised : accessor total (g - 2 - 1) [] = .error (.raised .recursion) := if_pos hfew'
        rw [hraised]
        rfl
    · rw [if_neg hfew]
      refine follows_calls (by omega) ?_
      have henough : ¬ g - 2 - 1 < 3 := by omega
      have hraised : accessor total (g - 2 - 1) [] = .error (expected total "acc" []) := if_neg henough
      rw [hraised]
      rfl
  | cons t ts =>
    cases t with
    | kw k =>
      cases k with
      | substring =>
        show Follows _ _ _ (if g < 5 ∨ g < 6 ∧ ts.head? = some .lpar then some .recursion
            else walk ts (.reading substringSlots) levels)
          (calls 3 (g - 2) (substringOperand total (g - 2) ts))
        by_cases hfew : g < 5
        · rw [if_pos (Or.inl hfew)]
          exact follows_few (by omega)
        refine follows_calls (by omega) ?_
        by_cases hfive : g < 6
        · -- the bracket is taken, and then the accessor runs out of frames
          have hfive : g = 5 := by omega
          subst hfive
          cases ts with
          | nil => exact rfl
          | cons t' ts' =>
            by_cases ht' : t' = .lpar
            · subst ht'
              rw [if_pos (Or.inr ⟨by decide, rfl⟩)]
              cases ts' with
              | nil => exact rfl
              | cons t'' ts'' => cases t'' <;> exact rfl
            · have hhead : ¬ (5 < 5 ∨ 5 < 6 ∧ (t' :: ts').head? = some Token.lpar) := by
                simp [ht']
              have hreads : Slot.reads (.mark .lpar) t' = none := if_neg fun h => ht' h
              have hraised : substringOperand total (5 - 2) (t' :: ts') =
                  .error (expected total "lpar" (t' :: ts')) := by
                have htake : take total (5 - 2 - 1) .lpar "lpar" (t' :: ts') =
                    .error (expected total "lpar" (t' :: ts')) := if_neg ht'
                simp only [substringOperand, htake, bind, Except.bind]
              rw [if_neg hhead, hraised]
              exact follows_unfit _ hreads
        · have hnone : ¬ (g < 5 ∨ g < 6 ∧ ts.head? = some .lpar) := fun h => by omega
          rw [if_neg hnone]
          exact (follows_substringOperand (by omega)).weaken (Nat.sub_le _ _) fun _ _ => Nat.not_lt.mp hfive
      | not => exact absurd (hts _ rfl) (by decide)
      | member => exact absurd (hts _ rfl) (by decide)
      | and => exact follows_field
      | or => exact follows_field
    | lpar => exact absurd (hts _ rfl) (by decide)
    | _ => exact follows_field

theorem follows_comparison {g : ℕ} (hts : ∀ t ∈ ts.head?, t.opensFactor = false) :
    Follows anything (ts.length - 1) (walk · (.reading []) levels) (walk ts (.expect g) levels)
      (comparison total (g - 1) ts) := by
  have hoperand : Follows (fun _ => 6 ≤ g) (ts.length - 1) (walk · (.reading [.mark .eq, .literal]) levels)
      (walk ts (.expect g) levels) (operand total (g - 1 - 1) ts) := follows_operand hts
  refine hoperand.bind fun left rest hrest hframes => ?_
  refine (follows_take (by omega)).bind fun _ rest₁ hrest₁ _ => ?_
  refine (follows_literal (by omega)).bind fun bytes rest₂ hrest₂ _ => ?_
  exact follows_ok (by omega) trivial

end Slots

section Grammar

variable {total : ℕ}

/-- Less than three frames are too few for a factor of any kind. -/
theorem walk_few {g : ℕ} (hfew : g < 3) (ts : List Token) (levels : List ℕ) :
    walk ts (.expect g) levels = some .recursion := by
  have hfive : g < 5 := by omega
  have hsix : g < 6 := by omega
  cases ts with
  | nil => exact if_pos hsix
  | cons t ts =>
    cases t with
    | kw k =>
      cases k with
      | not => exact if_pos hfew
      | member => exact if_pos hfew
      | substring => exact if_pos (Or.inl hfive)
      | and => exact if_pos hsix
      | or => exact if_pos hsix
    | lpar => exact if_pos hfew
    | _ => exact if_pos hsix

/-- No `and` comes next. -/
def NoAnd (rest : List Token) : Prop := rest.head? ≠ some (.kw .and)

/-- Neither `and` nor `or` comes next. -/
def NoJoin (rest : List Token) : Prop := NoAnd rest ∧ rest.head? ≠ some (.kw .or)

/-- What is joined to no more closes a bracket, or the parser stops there. -/
theorem follows_close {frames g g' : ℕ} {levels : List ℕ} {rest : List Token} (hframes : 2 ≤ frames)
    (hrest : NoJoin rest) :
    Follows anything (rest.length - 1) (walk · (.reading []) (g' :: levels))
      (walk rest (.reading []) (g :: g' :: levels)) (take total frames .rpar "rpar" rest) := by
  cases rest with
  | nil => exact follows_calls hframes rfl
  | cons t rest =>
    refine follows_calls hframes ?_
    cases t with
    | rpar => exact follows_ok (Nat.le_refl _) trivial
    | kw k =>
      cases k with
      | and => exact absurd rfl hrest.1
      | or => exact absurd rfl hrest.2
      | _ => exact rfl
    | _ => exact rfl

/-- Where no bracket is open, nothing may come any more. -/
theorem walk_trailing {g : ℕ} {rest : List Token} (hrest : NoJoin rest) :
    walk rest (.reading []) [g] = none := by
  cases rest with
  | nil => rfl
  | cons t rest =>
    cases t with
    | kw k =>
      cases k with
      | and => exact absurd rfl hrest.1
      | or => exact absurd rfl hrest.2
      | _ => rfl
    | _ => rfl

/-- What the five functions of the grammar do, with calls enough for the tokens. -/
structure Spec (total n : ℕ) : Prop where
  factor : ∀ g ts g' levels, 4 * ts.length + 1 ≤ n →
    Follows (fun _ => 2 ≤ g) (ts.length - 1) (walk · (.reading []) (g' :: levels))
      (walk ts (.expect g) (g' :: levels)) (factor total n g ts)
  andLoop : ∀ frames left ts levels, 3 ≤ frames → 4 * ts.length + 1 ≤ n →
    Follows NoAnd ts.length (walk · (.reading []) ((frames - 1) :: levels))
      (walk ts (.reading []) ((frames - 1) :: levels)) (andLoop total n frames left ts)
  term : ∀ frames ts levels, 4 * ts.length + 2 ≤ n →
    Follows (fun rest => 3 ≤ frames ∧ NoAnd rest) (ts.length - 1)
      (walk · (.reading []) ((frames - 1) :: levels))
      (walk ts (.expect (frames - 1)) ((frames - 1) :: levels)) (term total n frames ts)
  orLoop : ∀ frames left ts levels, 4 ≤ frames → NoAnd ts → 4 * ts.length + 1 ≤ n →
    Follows NoJoin ts.length (walk · (.reading []) ((frames - 2) :: levels))
      (walk ts (.reading []) ((frames - 2) :: levels)) (orLoop total n frames left ts)
  expr : ∀ frames ts levels, 4 * ts.length + 3 ≤ n →
    Follows NoJoin (ts.length - 1) (walk · (.reading []) ((frames - 2) :: levels))
      (walk ts (.expect (frames - 2)) ((frames - 2) :: levels)) (expr total n frames ts)

/-- A factor that is neither negated nor in brackets nor a member. -/
theorem factor_comparison {n g : ℕ} {ts : List Token} (hts : ∀ t ∈ ts.head?, t.opensFactor = false) :
    factor total (n + 1) g ts = calls 2 g (comparison total (g - 1) ts) := by
  cases ts with
  | nil => rfl
  | cons t ts =>
    cases t with
    | kw k =>
      cases k with
      | not => exact absurd (hts _ rfl) (by decide)
      | member => exact absurd (hts _ rfl) (by decide)
      | _ => rfl
    | lpar => exact absurd (hts _ rfl) (by decide)
    | _ => rfl

theorem follows_factor_comparison {n g : ℕ} {ts : List Token} {levels : List ℕ}
    (hts : ∀ t ∈ ts.head?, t.opensFactor = false) :
    Follows (fun _ => 2 ≤ g) (ts.length - 1) (walk · (.reading []) levels) (walk ts (.expect g) levels)
      (factor total (n + 1) g ts) := by
  rw [factor_comparison hts]
  by_cases hfew : g < 2
  · rw [walk_few (by omega)]
    exact follows_few hfew
  · have henough : 2 ≤ g := Nat.not_lt.mp hfew
    exact follows_calls henough ((follows_comparison hts).weaken (Nat.le_refl _) fun _ _ => henough)

section Step

variable {n : ℕ}

theorem Spec.factor_succ (ih : Spec total n) (g : ℕ) (ts : List Token) (g' : ℕ) (levels : List ℕ)
    (hn : 4 * ts.length + 1 ≤ n + 1) :
    Follows (fun _ => 2 ≤ g) (ts.length - 1) (walk · (.reading []) (g' :: levels))
      (walk ts (.expect g) (g' :: levels)) (Raises.factor total (n + 1) g ts) := by
  cases ts with
  | nil => exact follows_factor_comparison fun t ht => by cases ht
  | cons t ts =>
    rw [List.length_cons] at hn
    by_cases hopens : t.opensFactor = true
    · by_cases hfew : g < 3
      · -- the token is not even taken
        rw [walk_few hfew]
        have hraised : Raises.factor total (n + 1) g (t :: ts) = .error (.raised .recursion) := by
          cases t with
          | lpar => exact if_pos hfew
          | kw k => cases k <;> first | exact if_pos hfew | cases hopens
          | _ => cases hopens
        rw [hraised]
        rfl
      have henough : 3 ≤ g := Nat.not_lt.mp hfew
      cases t with
      | lpar =>
        have hwalk : walk (.lpar :: ts) (.expect g) (g' :: levels) =
            walk ts (.expect (g - 1 - 2)) ((g - 1 - 2) :: g' :: levels) := if_neg hfew
        rw [hwalk]
        refine follows_calls henough ?_
        have hexpr := ih.expr (g - 1) ts (g' :: levels) (by omega)
        refine hexpr.bind fun node rest hrest hjoin => ?_
        refine (follows_close (by omega) hjoin).bind fun _ rest' hrest' _ => ?_
        exact follows_ok (by simp only [List.length_cons]; omega) (by omega)
      | kw k =>
        cases k with
        | not =>
          have hwalk : walk (.kw .not :: ts) (.expect g) (g' :: levels) =
              walk ts (.expect (g - 1)) (g' :: levels) := if_neg hfew
          rw [hwalk]
          refine follows_calls henough ?_
          refine (ih.factor (g - 1) ts g' levels (by omega)).bind fun node rest hrest _ => ?_
          exact follows_ok (by simp only [List.length_cons]; omega) (by omega)
        | member =>
          have hwalk : walk (.kw .member :: ts) (.expect g) (g' :: levels) =
              walk ts (.reading memberSlots) (g' :: levels) := if_neg hfew
          rw [hwalk]
          refine follows_calls henough ?_
          refine (follows_take (by omega)).bind fun _ ts₁ h₁ _ => ?_
          refine (follows_takeStr (by omega)).bind fun name ts₂ h₂ _ => ?_
          refine (follows_take (by omega)).bind fun _ ts₃ h₃ _ => ?_
          exact follows_ok (by simp only [List.length_cons]; omega) (by omega)
        | _ => cases hopens
      | _ => cases hopens
    · refine follows_factor_comparison fun t' ht' => ?_
      rw [List.head?_cons, Option.mem_some_iff] at ht'
      rw [← ht']
      simpa using hopens

theorem Spec.andLoop_succ (ih : Spec total n) (frames : ℕ) (left : Ast) (ts : List Token) (levels : List ℕ)
    (hframes : 3 ≤ frames) (hn : 4 * ts.length + 1 ≤ n + 1) :
    Follows NoAnd ts.length (walk · (.reading []) ((frames - 1) :: levels))
      (walk ts (.reading []) ((frames - 1) :: levels)) (Raises.andLoop total (n + 1) frames left ts) := by
  by_cases hand : ts.head? = some (.kw .and)
  · obtain ⟨ts, rfl⟩ : ∃ ts', ts = .kw .and :: ts' := by
      cases ts with
      | nil => cases hand
      | cons t ts => exact ⟨ts, by rw [Option.some.inj hand]⟩
    rw [List.length_cons] at hn
    refine follows_calls hframes ?_
    have hfactor := ih.factor (frames - 1) ts (frames - 1) levels (by omega)
    refine hfactor.bind fun right rest hrest _ => ?_
    refine (ih.andLoop frames _ rest levels hframes (by omega)).weaken ?_ fun _ h => h
    simp only [List.length_cons]
    omega
  · have hstop : Raises.andLoop total (n + 1) frames left ts = calls 2 frames (.ok (left, ts)) := by
      cases ts with
      | nil => rfl
      | cons t ts =>
        cases t with
        | kw k => cases k <;> first | rfl | exact absurd rfl hand
        | _ => rfl
    rw [hstop]
    exact follows_calls (by omega) (follows_ok (Nat.le_refl _) hand)

theorem Spec.term_succ (ih : Spec total n) (frames : ℕ) (ts : List Token) (levels : List ℕ)
    (hn : 4 * ts.length + 2 ≤ n + 1) :
    Follows (fun rest => 3 ≤ frames ∧ NoAnd rest) (ts.length - 1)
      (walk · (.reading []) ((frames - 1) :: levels))
      (walk ts (.expect (frames - 1)) ((frames - 1) :: levels)) (Raises.term total (n + 1) frames ts) := by
  by_cases hfew : frames < 1
  · rw [walk_few (by omega)]
    exact follows_few hfew
  · refine follows_calls (by omega) ?_
    have hfactor := ih.factor (frames - 1) ts (frames - 1) levels (by omega)
    refine hfactor.bind fun left rest hrest hframes => ?_
    have hloop := ih.andLoop frames left rest levels (by omega) (by omega)
    exact hloop.weaken hrest fun _ hand => ⟨by omega, hand⟩

theorem Spec.orLoop_succ (ih : Spec total n) (frames : ℕ) (left : Ast) (ts : List Token) (levels : List ℕ)
    (hframes : 4 ≤ frames) (hand : NoAnd ts) (hn : 4 * ts.length + 1 ≤ n + 1) :
    Follows NoJoin ts.length (walk · (.reading []) ((frames - 2) :: levels))
      (walk ts (.reading []) ((frames - 2) :: levels)) (Raises.orLoop total (n + 1) frames left ts) := by
  by_cases hor : ts.head? = some (.kw .or)
  · obtain ⟨ts, rfl⟩ : ∃ ts', ts = .kw .or :: ts' := by
      cases ts with
      | nil => cases hor
      | cons t ts => exact ⟨ts, by rw [Option.some.inj hor]⟩
    rw [List.length_cons] at hn
    refine follows_calls (by omega) ?_
    have hterm := ih.term (frames - 1) ts levels (by omega)
    refine hterm.bind fun right rest hrest hstops => ?_
    refine (ih.orLoop frames _ rest levels hframes hstops.2 (by omega)).weaken ?_ fun _ h => h
    simp only [List.length_cons]
    omega
  · have hstop : Raises.orLoop total (n + 1) frames left ts = calls 2 frames (.ok (left, ts)) := by
      cases ts with
      | nil => rfl
      | cons t ts =>
        cases t with
        | kw k => cases k <;> first | rfl | exact absurd rfl hor
        | _ => rfl
    rw [hstop]
    exact follows_calls (by omega) (follows_ok (Nat.le_refl _) ⟨hand, hor⟩)

theorem Spec.expr_succ (ih : Spec total n) (frames : ℕ) (ts : List Token) (levels : List ℕ)
    (hn : 4 * ts.length + 3 ≤ n + 1) :
    Follows NoJoin (ts.length - 1) (walk · (.reading []) ((frames - 2) :: levels))
      (walk ts (.expect (frames - 2)) ((frames - 2) :: levels)) (Raises.expr total (n + 1) frames ts) := by
  by_cases hfew : frames < 1
  · rw [walk_few (by omega)]
    exact follows_few hfew
  · refine follows_calls (by omega) ?_
    have hterm := ih.term (frames - 1) ts levels (by omega)
    refine hterm.bind fun left rest hrest hstops => ?_
    have hloop := ih.orLoop frames left rest levels (by omega) hstops.2 (by omega)
    exact hloop.weaken hrest fun _ h => h

end Step

theorem spec (total n : ℕ) : Spec total n := by
  induction n with
  | zero => exact ⟨by omega, by omega, by omega, by omega, by omega⟩
  | succ n ih => exact ⟨ih.factor_succ, ih.andLoop_succ, ih.term_succ, ih.orLoop_succ, ih.expr_succ⟩

end Grammar

/-! ## The answer -/

/-- The call returns an expression, or raises `ExprError`. -/
def answers : Except ParseError Ast → Bool
  | .ok _ => true
  | .error (.unrecognized _) | .error (.expr _) => true
  | .error _ => false

/-- The parser answers just where the pass finds nothing. -/
theorem answers_parse (frames : ℕ) (ts : List Token) :
    answers (parse frames ts) = true ↔ walk ts (.expect (frames - 3)) [frames - 3] = none := by
  have hexpr := (spec ts.length (4 * ts.length + 4)).expr (frames - 1) ts [] (by omega)
  have hframes : frames - 1 - 2 = frames - 3 := by omega
  rw [hframes] at hexpr
  unfold parse
  cases hresult : expr ts.length (4 * ts.length + 4) (frames - 1) ts with
  | ok x =>
    obtain ⟨node, rest⟩ := x
    rw [hresult] at hexpr
    have hwalk : walk ts (.expect (frames - 3)) [frames - 3] = none := hexpr.1.trans (walk_trailing hexpr.2.2)
    have hanswers : answers (if rest = [] then .ok node else .error (.expr "trailing tokens")) = true := by
      split_ifs <;> rfl
    exact iff_of_true hanswers hwalk
  | error e =>
    rw [hresult] at hexpr
    cases e with
    | fuel => exact hexpr.elim
    | unrecognized text => exact iff_of_true rfl hexpr
    | expr message => exact iff_of_true rfl hexpr
    | raised fault =>
      have hwalk : walk ts (.expect (frames - 3)) [frames - 3] = some fault := hexpr
      rw [hwalk]
      exact iff_of_false Bool.false_ne_true (Option.some_ne_none fault)

/-- `parse_expression` returns an expression or raises `ExprError` just where two frames are left for it, and
its tokens, if it has any, come to nothing else before they stop making sense. -/
theorem answers_parseExpression (frames : ℕ) (text : List Point) :
    answers (parseExpression frames text) = true ↔
      2 ≤ frames ∧ ∀ ts, lex (strip text) = .ok ts → walk ts (.expect (frames - 4)) [frames - 4] = none := by
  unfold parseExpression calls
  by_cases hfew : frames < 2
  · rw [if_pos hfew]
    exact iff_of_false Bool.false_ne_true fun h => absurd h.1 (by omega)
  · rw [if_neg hfew]
    have hframes : frames - 1 - 3 = frames - 4 := by omega
    cases lex (strip text) with
    | error shown => exact iff_of_true rfl ⟨by omega, fun ts h => by cases h⟩
    | ok ts =>
      have hparse := answers_parse (frames - 1) ts
      rw [hframes] at hparse
      rw [hparse]
      constructor
      · intro h
        refine ⟨by omega, fun ts' hts' => ?_⟩
        rw [← Except.ok.inj hts']
        exact h
      · intro h
        exact h.2 ts rfl

/-- A literal with half a byte, under a test that the tokenizer accepts. -/
theorem not_answers_halfByte :
    parseExpression 1000 (points "option[60].hex == 0xabc") = .error (.raised .value) ∧
      answers (parseExpression 1000 (points "option[60].hex == 0xabc")) = false := by
  have hraised : parseExpression 1000 (points "option[60].hex == 0xabc") = .error (.raised .value) := by
    decide +kernel
  exact ⟨hraised, by rw [hraised]; rfl⟩

end JenKea.Explain.Raises
