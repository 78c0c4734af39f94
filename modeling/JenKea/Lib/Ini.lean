import Mathlib.Data.List.Basic
import JenKea.Lib.Map
import JenKea.Lib.Text

/-!
# Configuration files

The files of Python's `configparser`: a configuration is written as sections of `key = value` lines, and
read back line by line. What is read is what was written where the names and values of the configuration
are such that a file holds them; of a value this is to have no carriage return and no white space around
its lines.
-/

namespace JenKea

open Text

/-- A configuration: the options of its sections, and those that every section falls back to. -/
structure Ini where
  defaults : Map String String
  sections : Map String (Map String String)
  deriving DecidableEq

namespace Ini

/-! ## Lines -/

/-- The lines of a value or of a file. -/
abbrev Lines := List (List Char)

/-- `line.lstrip()`. -/
def lstrip (cs : List Char) : List Char := cs.dropWhile isSpace

/-- `line.rstrip()`. -/
def rstrip (cs : List Char) : List Char := (cs.reverse.dropWhile isSpace).reverse

/-- `line.strip()`. -/
def strip (cs : List Char) : List Char := rstrip (lstrip cs)

/-- A line that is a comment. -/
def isComment (cs : List Char) : Bool := cs.head? = some '#' || cs.head? = some ';'

/-- The text that a file opened for reading gives: every line ends in `\n`. -/
def universal : List Char → List Char
  | [] => []
  | '\r' :: '\n' :: cs => '\n' :: universal cs
  | '\r' :: cs => '\n' :: universal cs
  | c :: cs => c :: universal cs

/-- The lines of a file. What follows the last line end is a line when it is not empty. -/
def lines (text : List Char) : Lines :=
  let pieces := (universal text).splitOn '\n'
  if pieces.getLast? = some [] then pieces.dropLast else pieces

/-! ## Reading -/

/-- The name in a section header, `\[(?P<header>.+)\]`. -/
def header : List Char → Option (List Char)
  | '[' :: cs =>
    let name := ((cs.reverse.dropWhile (· ≠ ']')).drop 1).reverse
    if name = [] then none else some name
  | _ => none

/-- What a key ends at. -/
def isDelimiter (c : Char) : Bool := c = '=' || c = ':'

/-- The key and the value of an option line. -/
def option (cs : List Char) : Option (String × List Char) :=
  match cs.dropWhile (fun c => !isDelimiter c) with
  | [] => none
  | _ :: value =>
    some ((String.ofList (rstrip (cs.takeWhile fun c => !isDelimiter c))).toLower, strip value)

/-- The name of the section that others fall back to. -/
def defaultSection : String := "DEFAULT"

/-- What has been read: the options so far, by their lines; where the reader is; and how far the line that
opened the option is indented. -/
structure Reading where
  defaults : Map String Lines
  sections : Map String (Map String Lines)
  sectname : Option String
  optname : Option String
  indent : ℕ

namespace Reading

/-- Nothing read. -/
def start : Reading := ⟨.empty, .empty, none, none, 0⟩

/-- `cursect`. -/
def cursect (r : Reading) : Map String Lines :=
  match r.sectname with
  | none => .empty
  | some s => if s = defaultSection then r.defaults else (r.sections.get s).getD .empty

/-- The options of the section that the reader is in, replaced. -/
def withCursect (r : Reading) (options : Map String Lines) : Reading :=
  match r.sectname with
  | none => r
  | some s =>
    if s = defaultSection then { r with defaults := options }
    else { r with sections := r.sections.put s options }

/-- `cursect[optname].append(value)`, inside an option. -/
def append (r : Reading) (value : List Char) : Reading :=
  match r.optname with
  | none => r
  | some o => r.withCursect (r.cursect.put o (((r.cursect.get o).getD []) ++ [value]))

/-- A section header. A section stands once; the default section may come again. -/
def enter (r : Reading) (name : String) : Option Reading :=
  if name ∈ r.sections.keys then none
  else if name = defaultSection then some { r with sectname := some name, optname := none }
  else some { r with
    sections := r.sections.put name .empty, sectname := some name, optname := none }

/-- An option line. A key stands once in its section. -/
def open? (r : Reading) (key : String) (value : List Char) : Option Reading :=
  if r.sectname = none ∨ key = "" ∨ (r.cursect.get key).isSome then none
  else some { r.withCursect (r.cursect.put key [value]) with optname := some key }

/-- One line of `_read`; nothing where it raises. -/
def readLine (r : Reading) (line : List Char) : Option Reading :=
  let value := strip line
  if isComment value then some r
  else if value = [] then some (r.append [])
  else
    let indent := (line.takeWhile isSpace).length
    if r.optname.isSome ∧ r.indent < indent then some (r.append value)
    else
      let r := { r with indent := indent }
      match header value with
      | some name => r.enter (String.ofList name)
      | none => (option value).bind fun x => r.open? x.1 x.2

end Reading

/-- The lines of a value, joined. -/
def join (value : Lines) : String := String.ofList (rstrip (['\n'].intercalate value))

/-- What was read, its values joined. -/
def Reading.toIni (r : Reading) : Ini :=
  ⟨r.defaults.mapValues join, r.sections.mapValues fun options => options.mapValues join⟩

/-- `parser.read`. -/
def read (text : String) : Option Ini :=
  ((lines text.toList).foldlM Reading.readLine Reading.start).map Reading.toIni

/-! ## Writing -/

/-- `key = value`, each further line of the value after a tab. -/
def writeOption (x : String × String) : List Char :=
  x.1.toList ++ " = ".toList ++ (x.2.toList.flatMap fun c => if c = '\n' then ['\n', '\t'] else [c]) ++
    ['\n']

/-- `_write_section`. -/
def writeSection (x : String × Map String String) : List Char :=
  '[' :: x.1.toList ++ "]\n".toList ++ x.2.entries.flatMap writeOption ++ ['\n']

/-- `parser.write`. -/
def write (p : Ini) : String :=
  String.ofList ((if p.defaults.entries = [] then [] else writeSection (defaultSection, p.defaults)) ++
    p.sections.entries.flatMap writeSection)

/-! ## Configurations that a file holds -/

/-- No white space at either end. -/
def Trimmed (cs : List Char) : Prop :=
  (∀ c, cs.head? = some c → isSpace c = false) ∧ ∀ c, cs.getLast? = some c → isSpace c = false

instance (cs : List Char) : Decidable (Trimmed cs) :=
  decidable_of_iff (cs.head?.all (fun c => !isSpace c) ∧ cs.getLast?.all fun c => !isSpace c) (by
    simp [Trimmed, Option.all_eq_true])

/-- A value that a file holds. -/
structure RegularValue (value : List Char) : Prop where
  noReturn : '\r' ∉ value
  trimmed : ∀ l ∈ value.splitOn '\n', Trimmed l
  noComment : ∀ l ∈ (value.splitOn '\n').tail, isComment l = false
  ends : ∀ c, value.getLast? = some c → isSpace c = false

/-- An option that a file holds. -/
structure RegularOption (key : String) (value : List Char) : Prop where
  nonempty : key ≠ ""
  oneLine : '\n' ∉ key.toList ∧ '\r' ∉ key.toList
  trimmed : Trimmed key.toList
  noComment : isComment key.toList = false
  noDelimiter : ∀ c ∈ key.toList, isDelimiter c = false
  lower : key.toLower = key
  noHeader : header (strip (key.toList ++ " = ".toList ++ (value.splitOn '\n').headD [])) = none
  regular : RegularValue value

/-- A section that a file holds. -/
structure RegularSection (name : String) (options : Map String String) : Prop where
  nonempty : name ≠ ""
  oneLine : '\n' ∉ name.toList ∧ '\r' ∉ name.toList
  regular : ∀ x ∈ options.entries, RegularOption x.1 x.2.toList

/-- A configuration that a file holds. -/
structure Regular (p : Ini) : Prop where
  defaults : ∀ x ∈ p.defaults.entries, RegularOption x.1 x.2.toList
  sections : ∀ x ∈ p.sections.entries, RegularSection x.1 x.2
  noDefault : defaultSection ∉ p.sections.keys

instance (value : List Char) : Decidable (RegularValue value) :=
  decidable_of_iff ('\r' ∉ value ∧ (∀ l ∈ value.splitOn '\n', Trimmed l) ∧
      (∀ l ∈ (value.splitOn '\n').tail, isComment l = false) ∧ value.getLast?.all fun c => !isSpace c) (by
    simp only [Option.all_eq_true, Bool.not_eq_true']
    exact ⟨fun ⟨h₁, h₂, h₃, h₄⟩ => ⟨h₁, h₂, h₃, h₄⟩, fun ⟨h₁, h₂, h₃, h₄⟩ => ⟨h₁, h₂, h₃, h₄⟩⟩)

instance (key : String) (value : List Char) : Decidable (RegularOption key value) :=
  decidable_of_iff (key ≠ "" ∧ ('\n' ∉ key.toList ∧ '\r' ∉ key.toList) ∧ Trimmed key.toList ∧
      isComment key.toList = false ∧ (key.toList.all fun c => !isDelimiter c) ∧ key.toLower = key ∧
        header (strip (key.toList ++ " = ".toList ++ (value.splitOn '\n').headD [])) = none ∧
          RegularValue value) (by
    simp only [List.all_eq_true, Bool.not_eq_true']
    exact ⟨fun ⟨h₁, h₂, h₃, h₄, h₅, h₆, h₇, h₈⟩ => ⟨h₁, h₂, h₃, h₄, h₅, h₆, h₇, h₈⟩,
      fun ⟨h₁, h₂, h₃, h₄, h₅, h₆, h₇, h₈⟩ => ⟨h₁, h₂, h₃, h₄, h₅, h₆, h₇, h₈⟩⟩)

instance (name : String) (options : Map String String) : Decidable (RegularSection name options) :=
  decidable_of_iff (name ≠ "" ∧ ('\n' ∉ name.toList ∧ '\r' ∉ name.toList) ∧
      ∀ x ∈ options.entries, RegularOption x.1 x.2.toList)
    ⟨fun ⟨h₁, h₂, h₃⟩ => ⟨h₁, h₂, h₃⟩, fun ⟨h₁, h₂, h₃⟩ => ⟨h₁, h₂, h₃⟩⟩

instance (p : Ini) : Decidable (Regular p) :=
  decidable_of_iff ((∀ x ∈ p.defaults.entries, RegularOption x.1 x.2.toList) ∧
      (∀ x ∈ p.sections.entries, RegularSection x.1 x.2) ∧ defaultSection ∉ p.sections.keys)
    ⟨fun ⟨h₁, h₂, h₃⟩ => ⟨h₁, h₂, h₃⟩, fun ⟨h₁, h₂, h₃⟩ => ⟨h₁, h₂, h₃⟩⟩

end Ini

end JenKea
