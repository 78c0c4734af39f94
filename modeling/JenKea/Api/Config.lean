import JenKea.Lib.Json
import JenKea.Server

/-!
# Configurations

What `kea_api_config.py` asks of a configuration by itself, without a daemon: its section of a
service, whether a running configuration carries everything a candidate says (`_walk`), and the
guard that keeps a control socket, a hook library, and a certificate off the API
(`_api_only_guard`).

`_walk` is a subset test. What the daemon runs may say more than the candidate, since `config-get`
writes Kea's own defaults out, so a candidate that only deletes is carried by the configuration
that it came from.
-/

namespace JenKea.Api

/-- What a modelled function can raise. -/
inductive Exc where
  /-- A method of a dictionary, called on another value. -/
  | attributeError
  /-- A value that cannot be iterated. -/
  | typeError
  /-- A key that is not there. -/
  | keyError (key : String)
  /-- `RevisionStoreUnreadable`. -/
  | storeUnreadable
  /-- An exception of a called function, with the name of its class. -/
  | other (kind : String)
  deriving DecidableEq, Repr

/-- A configuration: the entries of the object that it is. -/
abbrev Cfg : Type := List (String × Json)

/-- `_section`: the section of a service. It is an empty object when the configuration has none, or
has one that is false to Python. -/
def sectionOf (cfg : Option Cfg) (service : Service) : Json :=
  match Json.lookup ((serviceKey service).getD "") (cfg.getD []) with
  | some v => if v.falsy then .obj [] else v
  | none => .obj []

/-! ## The walk -/

/-- `RENAMED_KEYS.get(k, "")`: the list that Kea reports in the place of a key. -/
def renamedKey (k : String) : String :=
  if k = "hosts-database" then "hosts-databases"
  else if k = "control-socket" then "control-sockets"
  else ""

/-- `SPACE_INSENSITIVE_PATHS`: where the strings are that Kea renders anew. -/
def spaceInsensitivePaths : List String :=
  ["subnet4[].pools[].pool", "subnet6[].pools[].pool", "subnet6[].pd-pools[].prefix"]

/-- `_INDEX.sub("[]", path)`, on the characters still to read: `digits` are the characters since an
open bracket, the last one first, when only digits followed it. -/
def blankIndexes (digits : Option (List Char)) : List Char → List Char
  | [] => match digits with
    | none => []
    | some ds => '[' :: ds.reverse
  | c :: cs => match digits with
    | none => if c = '[' then blankIndexes (some []) cs else c :: blankIndexes none cs
    | some ds =>
      if c.isDigit then blankIndexes (some (c :: ds)) cs
      else if c = ']' ∧ ds ≠ [] then '[' :: ']' :: blankIndexes none cs
      else if c = '[' then '[' :: ds.reverse ++ blankIndexes (some []) cs
      else '[' :: ds.reverse ++ c :: blankIndexes none cs

/-- `_space_insensitive`: whether a path, with its indexes blanked, is one of
`spaceInsensitivePaths` or ends in one. -/
def spaceInsensitive (path : String) : Bool :=
  let blank := blankIndexes none path.toList
  spaceInsensitivePaths.any fun known =>
    blank == known.toList || ('.' :: known.toList).isSuffixOf blank

/-- `OMITTED_AT_DEFAULT`: whether `config-get` leaves this key of `interfaces-config` out at this
value. -/
def omittedAtDefault (k : String) (v : Json) : Bool :=
  (k == "service-sockets-require-all" && v == .bool false) ||
    (k == "service-sockets-max-retries" && v == .int 0)

/-- The first thing that a candidate says and the daemon does not run: where it is, what the
candidate says, and what the daemon runs there; `none` where the daemon says nothing
(`_MISSING`). -/
structure Difference where
  path : String
  candidate : Json
  running : Option Json
  deriving DecidableEq

/-- The last lines of `_walk`: a candidate that is neither an object nor a list. A string at some
paths is compared without its spaces, and a boolean is never a number. -/
def walkLeaf (running candidate : Json) (path : String) : Option Difference :=
  let same := match running, candidate with
    | .str r, .str c =>
      if spaceInsensitive path then Text.withoutBlanks r == Text.withoutBlanks c else r == c
    | .bool r, .bool c => r == c
    | .bool _, _ => false
    | _, .bool _ => false
    | r, c => r.pyEq c
  if same then none else some ⟨path, candidate, some running⟩

/-- The path of a key below `path`. -/
def keyPath (path k : String) : String := if path = "" then k else path ++ "." ++ k

mutual

/-- `_walk`: `none` when the running configuration carries everything that the candidate says. -/
def walk (running candidate : Json) (under : Option String) (path : String) : Option Difference :=
  match candidate with
  | .obj said =>
    match running with
    | .obj mine => walkFields mine said under path
    | _ => some ⟨path, .obj said, some running⟩
  | .arr said =>
    match running with
    | .arr mine =>
      if mine.length = said.length then walkList mine said under path 0
      else some ⟨path, .arr said, some running⟩
    | _ => some ⟨path, .arr said, some running⟩
  | .null => walkLeaf running .null path
  | .bool b => walkLeaf running (.bool b) path
  | .int n => walkLeaf running (.int n) path
  | .float q => walkLeaf running (.float q) path
  | .str s => walkLeaf running (.str s) path

/-- `_walk` over the entries of an object. A key that the daemon does not report is carried by the
list that Kea renamed it to, when that list has the one element. -/
def walkFields (mine said : List (String × Json)) (under : Option String) (path : String) :
    Option Difference :=
  match said with
  | [] => none
  | (k, v) :: said =>
    match Json.lookup k mine with
    | some r => (walk r v (some k) (keyPath path k)).or (walkFields mine said under path)
    | none =>
      match Json.lookup (renamedKey k) mine with
      | some (.arr [r]) => (walk r v (some k) (keyPath path k)).or (walkFields mine said under path)
      | some (.arr rs) => some ⟨keyPath path k, v, some (.arr rs)⟩
      | _ =>
        if under = some "interfaces-config" ∧ omittedAtDefault k v then
          walkFields mine said under path
        else some ⟨keyPath path k, v, none⟩

/-- `_walk` over the elements of two lists of one length, from the index `i` on. -/
def walkList (mine said : List Json) (under : Option String) (path : String) (i : ℕ) :
    Option Difference :=
  match mine, said with
  | r :: mine, c :: said =>
    (walk r c under s!"{path}[{i}]").or (walkList mine said under path (i + 1))
  | _, _ => none

end

/-- `_carries`: whether the running configuration carries everything that the candidate says. -/
def carries (running candidate : Json) : Bool := (walk running candidate none "").isNone

/-- `file_in_daemon` without the defaults: whether everything that a file says is carried by what
the daemon runs. -/
def fileInDaemon (file live : Option Cfg) (service : Service) : Bool :=
  carries (sectionOf live service) (sectionOf file service)

/-- A candidate that only deletes is carried by what it was made from. -/
example : carries (.obj [("a", .int 1), ("b", .int 2)]) (.obj [("a", .int 1)]) = true := by decide

theorem walkLeaf_self (v : Json) (path : String) (h : v.pyEq v) : walkLeaf v v path = none := by
  cases v <;> simp_all [walkLeaf]

theorem walkList_self {xs : List Json}
    (h : ∀ x ∈ xs, ∀ under path, walk x x under path = none) (under : Option String)
    (path : String) (i : ℕ) : walkList xs xs under path i = none := by
  induction xs generalizing i with
  | nil => rfl
  | cons x xs ih =>
    rw [walkList, h x (by simp), Option.none_or]
    exact ih (fun y hy => h y (by simp [hy])) (i + 1)

theorem walkFields_self {mine said : List (String × Json)}
    (hmine : ∀ f ∈ said, Json.lookup f.1 mine = some f.2)
    (h : ∀ f ∈ said, ∀ under path, walk f.2 f.2 under path = none) (under : Option String)
    (path : String) : walkFields mine said under path = none := by
  induction said with
  | nil => rfl
  | cons f said ih =>
    have hf : Json.lookup f.1 mine = some f.2 := hmine f (by simp)
    rw [walkFields, hf]
    dsimp only
    rw [h f (by simp), Option.none_or]
    exact ih (fun g hg => hmine g (by simp [hg])) fun g hg => h g (by simp [hg])

/-- A configuration carries itself. -/
theorem walk_self {v : Json} (hv : v.WF) (under : Option String) (path : String) :
    walk v v under path = none := by
  induction v generalizing under path with
  | arr xs ih =>
    have hxs : ∀ x ∈ xs, x.WF := Json.wfList_iff.mp hv
    simp only [walk, if_true]
    exact walkList_self (fun x hx => ih x hx (hxs x hx)) under path 0
  | obj fs ih =>
    have hfs : ∀ f ∈ fs, f.2.WF := Json.wfFields_iff.mp hv.2
    have hmine : ∀ f ∈ fs, Json.lookup f.1 fs = some f.2 := fun f hf =>
      Json.lookup_of_mem hv.1 hf
    exact walkFields_self hmine (fun f hf => ih f hf (hfs f hf)) under path
  | null => exact walkLeaf_self .null path (by simp [Json.pyEq])
  | bool b => exact walkLeaf_self (.bool b) path (by simp [Json.pyEq])
  | int n => exact walkLeaf_self (.int n) path (by simp [Json.pyEq])
  | float q => exact walkLeaf_self (.float q) path (by simp [Json.pyEq])
  | str s => exact walkLeaf_self (.str s) path (by simp [Json.pyEq])

theorem carries_self {v : Json} (hv : v.WF) : carries v v = true := by
  rw [carries, walk_self hv]
  rfl

/-- What is written after a configuration hides nothing that it says. -/
theorem carries_append {fields : Cfg} (h : (Json.obj fields).WF) (more : Cfg) :
    carries (.obj (fields ++ more)) (.obj fields) = true := by
  have hfields : ∀ f ∈ fields, f.2.WF := Json.wfFields_iff.mp h.2
  have hmine : ∀ f ∈ fields, Json.lookup f.1 (fields ++ more) = some f.2 := by
    intro f hf
    rw [Json.lookup_append, Json.lookup_of_mem h.1 hf, Option.some_or]
  have hwalk : walk (.obj (fields ++ more)) (.obj fields) none "" = none :=
    walkFields_self hmine (fun f hf => walk_self (hfields f hf)) none ""
  rw [carries, hwalk]
  rfl

/-! ## The guard of the API path -/

/-- `sec.get(key)`, which only a dictionary answers. -/
def getKey (sec : Json) (key : String) : Except Exc Json :=
  match sec with
  | .obj fields => .ok ((Json.lookup key fields).getD .null)
  | _ => .error .attributeError

/-- `list(value)` of a value that is true: the keys of a dictionary, the characters of a string. -/
def pyList : Json → Except Exc (List Json)
  | .arr xs => .ok xs
  | .obj fields => .ok (fields.map fun f => .str f.1)
  | .str s => .ok (s.toList.map fun c => .str (String.ofList [c]))
  | _ => .error .typeError

/-- `_hooks`: the hook libraries of a section, each with its parameters, in order. -/
def hooks (sec : Json) : Except Exc (List Json) := do
  let value ← getKey sec "hooks-libraries"
  if value.falsy then return []
  pyList value

/-- The parts of a path, without the empty parts and `.`; `..` takes the part before it away. The
parts read so far are in `parts`, the last one first, and `part` is the one being read. -/
def normParts (rooted : Bool) (parts : List (List Char)) (part : List Char) :
    List Char → List (List Char)
  | [] => (pushPart rooted parts part.reverse).reverse
  | c :: cs =>
    if c = '/' then normParts rooted (pushPart rooted parts part.reverse) [] cs
    else normParts rooted parts (c :: part) cs
where
  /-- One part after the others. -/
  pushPart (rooted : Bool) (parts : List (List Char)) (part : List Char) : List (List Char) :=
    if part = [] ∨ part = ['.'] then parts
    else if part ≠ ['.', '.'] then part :: parts
    else match parts with
      | [] => if rooted then [] else [part]
      | last :: before => if last = ['.', '.'] then part :: parts else before

/-- `posixpath.normpath`, with the doubled root that it keeps made one. -/
def canonicalPath (path : String) : List Char :=
  let rooted := path.toList.head? = some '/'
  let parts := normParts rooted [] [] path.toList
  let text := (parts.intersperse ['/']).flatten
  if rooted then '/' :: text else if text = [] then ['.'] else text

/-- `remote_tls_paths`: the three files of Jen's own certificate directory, under the key that a
control socket names each of them by. -/
def tlsPaths (service : Service) : List (String × String) :=
  let root := "/etc/kea/tls/" ++ service.toText
  [("trust-anchor", root ++ "/ca.crt"), ("cert-file", root ++ "/server.crt"),
    ("key-file", root ++ "/server.key")]

mutual

/-- Whether a value names a file of `tls` under its key, anywhere in it. -/
def namesTls (tls : String × String) : Json → Bool
  | .arr xs => namesTlsList tls xs
  | .obj fs => namesTlsFields tls fs
  | _ => false

/-- `namesTls` on the elements of a list. -/
def namesTlsList (tls : String × String) : List Json → Bool
  | [] => false
  | x :: xs => namesTls tls x || namesTlsList tls xs

/-- `namesTls` on the entries of an object. -/
def namesTlsFields (tls : String × String) : List (String × Json) → Bool
  | [] => false
  | (k, v) :: fs =>
    (match v with
      | .str path => k == tls.1 && canonicalPath path == canonicalPath tls.2
      | v => namesTls tls v) || namesTlsFields tls fs

end

/-- `referenced_tls_paths`: the files of `tlsPaths` that a configuration names. -/
def referencedTlsPaths (cfg : Cfg) (service : Service) : List String :=
  ((tlsPaths service).filter fun tls => namesTlsFields tls cfg).map Prod.snd

/-- `GUARD_SENTENCE`. -/
def guardSentence : String :=
  "a change to the control socket, a hook library or its parameters, or TLS material goes through the file path"

/-- The part of `_api_only_guard` that compares the control sockets. -/
def socketsDiffer (before after : Json) (key : String) : Except Exc Bool := do
  let b ← getKey before key
  let a ← getKey after key
  return !(b.orNull.pyEq a.orNull)

/-- `_api_only_guard`: a candidate that changes the control socket, a hook library, or the TLS
files does not go over the API. -/
def apiOnlyGuard (service : Service) (running : Option Cfg) (candidate : Cfg) :
    Except Exc String := do
  let before := sectionOf running service
  let after := sectionOf (some candidate) service
  if ← socketsDiffer before after "control-sockets" then return guardSentence
  if ← socketsDiffer before after "control-socket" then return guardSentence
  let mine ← hooks before
  let theirs ← hooks after
  if !(Json.pyEqList mine theirs) then return guardSentence
  if referencedTlsPaths (running.getD []) service ≠ referencedTlsPaths candidate service then
    return guardSentence
  return ""

example : canonicalPath "//etc/kea/tls/dhcp4/../dhcp4//ca.crt" =
    "/etc/kea/tls/dhcp4/ca.crt".toList := by decide

end JenKea.Api
