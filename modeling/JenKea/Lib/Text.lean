import Mathlib.Data.Int.Notation
import Mathlib.Data.List.Basic

/-!
# Text, as Python's `str` methods treat it

The few operations on text that a translated program calls: `strip`, `replace(" ", "")`, `or` on
strings, and `join`. They work on lists of characters, so that the kernel can evaluate them.
-/

namespace JenKea.Text

/-- The characters that Python's `str.strip` removes. -/
def isSpace (c : Char) : Bool :=
  let n := c.toNat
  (9 ≤ n && n ≤ 13) || (28 ≤ n && n ≤ 32) || n == 0x85 || n == 0xa0 || n == 0x1680 ||
    (0x2000 ≤ n && n ≤ 0x200a) || n == 0x2028 || n == 0x2029 || n == 0x202f || n == 0x205f ||
    n == 0x3000

/-- `text.strip()`. -/
def strip (text : String) : String :=
  String.ofList ((text.toList.dropWhile isSpace).reverse.dropWhile isSpace).reverse

/-- `text.replace(" ", "")`. -/
def withoutBlanks (text : String) : String :=
  String.ofList (text.toList.filter (· ≠ ' '))

/-- `a or b` on two strings: the first one that is not empty. -/
def orElse (a b : String) : String := if a = "" then b else a

/-- `text.rstrip(c)`. -/
def rstrip (text : String) (c : Char) : String :=
  String.ofList (text.toList.reverse.dropWhile (· == c)).reverse

/-- `text.endswith(c)`. -/
def endsWith (text : String) (c : Char) : Bool := text.toList.getLast? == some c

/-- `text` without the characters that `p` holds of: `re.sub` of a set by nothing. -/
def without (p : Char → Bool) (text : String) : String :=
  String.ofList (text.toList.filter fun c => !p c)

/-- `text[:n]`. -/
def take (n : ℕ) (text : String) : String := String.ofList (text.toList.take n)

/-- The value of decimal digits, single underscores between them left out. -/
def digits? (cs : List Char) : Option ℕ :=
  if (cs.splitOn '_').all fun part => part ≠ [] ∧ part.all Char.isDigit then
    some ((cs.filter (· ≠ '_')).foldl (fun n c => 10 * n + (c.toNat - 48)) 0)
  else none

/-- `int(text)`, in digits of ASCII. -/
def int? (text : String) : Option ℤ :=
  match (strip text).toList with
  | '-' :: cs => (digits? cs).map fun n => Int.negOfNat n
  | '+' :: cs => (digits? cs).map Int.ofNat
  | cs => (digits? cs).map Int.ofNat

/-- The two digits of a byte in hexadecimal. -/
def hexByte (b : UInt8) : String :=
  String.ofList [Nat.digitChar (b.toNat / 16), Nat.digitChar (b.toNat % 16)]

/-- `bytes.hex()`. -/
def hex (bytes : List UInt8) : String := String.join (bytes.map hexByte)

/-- A character of a text that stands between `q` and `q`, as `repr` writes it. A character beyond
ASCII is printed as it is. -/
def reprChar (q c : Char) : List Char :=
  if c = q ∨ c = '\\' then ['\\', c]
  else if c = '\n' then ['\\', 'n']
  else if c = '\r' then ['\\', 'r']
  else if c = '\t' then ['\\', 't']
  else if c.toNat < 32 ∨ c.toNat = 127 then
    ['\\', 'x', Nat.digitChar (c.toNat / 16), Nat.digitChar (c.toNat % 16)]
  else [c]

/-- The single quote. -/
def singleQuote : Char := Char.ofNat 39

/-- The double quote. -/
def doubleQuote : Char := Char.ofNat 34

/-- `repr(text)`: single quotes, or double ones around a text that holds a single quote and no double
one. -/
def repr (text : String) : String :=
  let q := if text.toList.contains singleQuote && !text.toList.contains doubleQuote then doubleQuote
    else singleQuote
  String.ofList (q :: text.toList.flatMap (reprChar q) ++ [q])

/-- `", ".join(names)`. -/
def commaJoin : List String → String
  | [] => ""
  | [name] => name
  | name :: names => name ++ ", " ++ commaJoin names

/-! ## Blanks -/

/-- A printable character of ASCII is no blank. -/
theorem isSpace_of_printable {c : Char} (h : 33 ≤ c.toNat) (h' : c.toNat < 127) :
    isSpace c = false := by
  unfold isSpace
  simp only [Bool.or_eq_false_iff, Bool.and_eq_false_iff, decide_eq_false_iff_not,
    beq_eq_false_iff_ne]
  omega

/-- A digit is no blank. -/
theorem isSpace_of_isDigit {c : Char} (h : c.isDigit = true) : isSpace c = false := by
  simp only [Char.isDigit, Bool.and_eq_true, decide_eq_true_eq, ge_iff_le,
    UInt32.le_iff_toNat_le] at h
  have hlow : 48 ≤ c.toNat := h.1
  have hhigh : c.toNat ≤ 57 := h.2
  exact isSpace_of_printable (by omega) (by omega)

/-- A list that starts with no blank. -/
theorem dropWhile_isSpace {c : Char} {cs : List Char} (h : isSpace c = false) :
    (c :: cs).dropWhile isSpace = c :: cs := by
  rw [List.dropWhile_cons, h]
  rfl

/-- A text that starts and ends with no blank is stripped of nothing. -/
theorem strip_of_ends {text : String} {c d : Char} (hhead : text.toList.head? = some c)
    (hlast : text.toList.getLast? = some d) (hc : isSpace c = false) (hd : isSpace d = false) :
    strip text = text := by
  have hfirst : text.toList.dropWhile isSpace = text.toList := by
    cases hcs : text.toList with
    | nil => rfl
    | cons x cs =>
      rw [hcs, List.head?_cons, Option.some.injEq] at hhead
      rw [hhead, dropWhile_isSpace hc]
  have hsecond : text.toList.reverse.dropWhile isSpace = text.toList.reverse := by
    rw [← List.head?_reverse] at hlast
    cases hcs : text.toList.reverse with
    | nil => rfl
    | cons x cs =>
      rw [hcs, List.head?_cons, Option.some.injEq] at hlast
      rw [hlast, dropWhile_isSpace hd]
  rw [strip, hfirst, hsecond, List.reverse_reverse, String.ofList_toList]

end JenKea.Text
