import JenKea.Api.Config
import JenKea.Compare.SecretKeys
import JenKea.Lib.Dict

/-!
# Where a file and a daemon differ, in a sentence

`_is_default`, `_lacks` and `difference_text` of `jen/services/kea_api_config.py`. The walk over what the file
says comes first; when the daemon carries all of it, the walk over what the daemon runs asks for what the file
does not say and Kea's written-out defaults do not explain. How a scalar is printed is left open: `dumps` is
`json.dumps`, and `withoutUserinfo` takes the user name and the password out of an address.
-/

namespace JenKea.Compare

open Json Api

/-! ## Defaults -/

/-- `DefaultsSet`: the key paths that Kea writes out for one version, the lists among them that are not empty, and
the values that were recorded for the scalars, if they were. -/
structure Defaults where
  paths : List String
  populated : Fields := []
  scalars : Option Fields := none

/-- `_INDEX.sub("[]", path)`. -/
def blankPath (path : String) : String := String.ofList (blankIndexes none path.toList)

/-- `_same_scalar`: equal, and a boolean is never a number. -/
def sameScalar : Json → Json → Bool
  | .bool a, .bool b => a == b
  | .bool _, _ => false
  | _, .bool _ => false
  | a, b => a.pyEq b

/-- The value of a key in the first of some objects that has it. -/
def inherited (key : String) : List Json → Option Json
  | [] => none
  | .obj fs :: chain => (lookup key fs).or (inherited key chain)
  | _ :: chain => inherited key chain

/-- The part of `_is_default` that judges a scalar: by the nearest enclosing scope that has the key, else by the
value that was recorded. `chain` is the running objects from the one that holds the key up to the section. -/
def isScalarDefault (d : Defaults) (path : String) (chain : List Json) (value : Json) : Bool :=
  match d.scalars with
  | none => true
  | some scalars =>
    match inherited (lastSegment path) chain.tail with
    | some w => sameScalar w value
    | none => (lookup (blankPath path) scalars).any fun w => sameScalar w value

mutual

/-- `_is_default`. -/
def isDefault (d : Defaults) (path : String) (chain : List Json) (value : Json) : Bool :=
  d.paths.contains (blankPath path) &&
    match value with
    | .obj fs => areDefaults d path (.obj fs :: chain) fs
    | .arr xs => xs.isEmpty || (lookup (blankPath path) d.populated).any fun l => l.pyEq (.arr xs)
    | .null => isScalarDefault d path chain .null
    | .bool b => isScalarDefault d path chain (.bool b)
    | .int n => isScalarDefault d path chain (.int n)
    | .float q => isScalarDefault d path chain (.float q)
    | .str s => isScalarDefault d path chain (.str s)

/-- `_is_default` of the values of an object. -/
def areDefaults (d : Defaults) (path : String) (chain : List Json) : Fields → Bool
  | [] => true
  | (k, v) :: fs => isDefault d (path ++ "." ++ k) chain v && areDefaults d path chain fs

end

/-! ## The way back -/

/-- The key of the daemon's object that a key of the file's accounts for. -/
def accounts (mine : Fields) (k : String) : Option String :=
  match lookup k mine with
  | some _ => some k
  | none =>
    match lookup (renamedKey k) mine with
    | some (.arr [_]) => some (renamedKey k)
    | _ => none

/-- The keys of the daemon's object that the keys of the file's account for. -/
def accounted (mine said : Fields) : List String := said.filterMap fun f => accounts mine f.1

/-- The first key that the daemon runs and the file does not say, and that is no default. -/
def unsaid (d : Defaults) (mine said : Fields) (path : String) (scope : List Json) : Option (String × Json) :=
  (mine.find? fun f => !(accounted mine said).contains f.1 && !isDefault d (keyPath path f.1) scope f.2).map
    fun f => (keyPath path f.1, f.2)

mutual

/-- `_lacks`: where the daemon runs something that the file does not say. -/
def lacks (d : Defaults) (running candidate : Json) (path : String) (scope : List Json) :
    Option (String × Json) :=
  match candidate with
  | .obj said =>
    match running with
    | .obj mine =>
      (lacksFields d mine said path (.obj mine :: scope)).or (unsaid d mine said path (.obj mine :: scope))
    | _ => none
  | .arr said =>
    match running with
    | .arr mine => if mine.length = said.length then lacksList d mine said path scope 0 else none
    | _ => none
  | _ => none
termination_by structural candidate

/-- `_lacks` below the keys that the file says. -/
def lacksFields (d : Defaults) (mine said : Fields) (path : String) (scope : List Json) :
    Option (String × Json) :=
  match said with
  | [] => none
  | (k, v) :: said =>
    match lookup k mine with
    | some r => (lacks d r v (keyPath path k) scope).or (lacksFields d mine said path scope)
    | none =>
      match lookup (renamedKey k) mine with
      | some (.arr [r]) => (lacks d r v (keyPath path k) scope).or (lacksFields d mine said path scope)
      | _ => lacksFields d mine said path scope
termination_by structural said

/-- `_lacks` over the elements of two lists of one length, from the index `i` on. -/
def lacksList (d : Defaults) (mine said : List Json) (path : String) (scope : List Json) (i : ℕ) :
    Option (String × Json) :=
  match mine, said with
  | r :: mine, c :: said =>
    (lacks d r c s!"{path}[{i}]" scope).or (lacksList d mine said path scope (i + 1))
  | _, _ => none
termination_by structural said

end

/-! ## The sentence -/

/-- What was found: where, what the file says there, and what the daemon runs; none where it is nothing
(`_MISSING`). -/
structure Found where
  path : String
  mine : Option Json
  theirs : Option Json

/-- What the two walks find. -/
def find (running said : Json) (path : String) (defaults : Option Defaults) : Option Found :=
  match walk running said none path with
  | some found => some ⟨found.path, some found.candidate, found.running⟩
  | none => defaults.bind fun d =>
      (lacks d running said "" []).map fun found => ⟨path ++ "." ++ found.1, none, some found.2⟩

/-- `_is_container`. -/
def isContainer : Option Json → Bool
  | some (.obj _) | some (.arr _) => true
  | _ => false

/-- What a container is, by its size. -/
def shape : Json → String
  | .obj fs => let n := fs.length; s!"an object with {n} key" ++ if n = 1 then "" else "s"
  | .arr xs => let n := xs.length; s!"a list of {n} " ++ if n = 1 then "entry" else "entries"
  | _ => ""

/-- `_kind`. -/
def kind : Option Json → String
  | none => "nothing"
  | some .null => "a null"
  | some (.bool _) => "a boolean"
  | some (.int _) | some (.float _) => "a number"
  | some (.str _) => "a string"
  | some v => shape v

/-- The first sixty characters. -/
def cut (text : String) : String := if text.length ≤ 60 then text else Text.take 59 text ++ "…"

/-- The length of the list that took the place of a key which Kea renamed, where the file says the key. -/
def entries (found : Found) : Option ℕ :=
  match found.mine, found.theirs with
  | some _, some (.arr theirs) =>
    if renamedKey (lastSegment found.path) ≠ "" then some theirs.length else none
  | _, _ => none

section Printing

variable (withoutUserinfo : String → String) (dumps : Json → String)

/-- `_leaf`. -/
def leaf : Option Json → String
  | none => "nothing"
  | some (.obj fs) => shape (.obj fs)
  | some (.arr xs) => shape (.arr xs)
  | some (.str s) => cut (dumps (.str (withoutUserinfo s)))
  | some v => cut (dumps v)

/-- What is said of what was found. -/
def sentence (found : Found) : String :=
  let path := found.path
  if secretPath path then s!"at {path}: the file and the daemon differ (the values are not shown)"
  else
    match entries found with
    | some n =>
      let key := lastSegment path
      let renamed := renamedKey key
      s!"at {path}: the file says one {key}, the daemon runs {n} {renamed}"
    | none => values path found.mine found.theirs
where
  /-- The two values, or what they are. -/
  values (path : String) (mine theirs : Option Json) : String :=
    if isContainer mine != isContainer theirs then
      let mine := kind mine
      let theirs := kind theirs
      s!"at {path}: the file says {mine}, the daemon {theirs}"
    else
      let mine := leaf withoutUserinfo dumps mine
      let theirs := leaf withoutUserinfo dumps theirs
      if mine = theirs then
        s!"at {path}: the file and the daemon differ only in what is not shown ({mine}): a user name or password inside an address, or past the 60th character"
      else s!"at {path}: the file says {mine}, the daemon {theirs}"

/-- `difference_text`. -/
def differenceText (file live : Option Cfg) (service : Service) (defaults : Option Defaults) : String :=
  let path := (serviceKey service).getD service.toText
  ((find (sectionOf live service) (sectionOf file service) path defaults).map
    (sentence withoutUserinfo dumps)).getD ""

end Printing

end JenKea.Compare
