import JenKea.Lib.Text

/-!
# Keys whose value is a secret

`is_secret_key` of `jen/services/secret_keys.py`, and the paths that it is asked about (`_secret_path` of
`jen/services/kea_api_config.py`). A path is a text: a key that holds a dot is two segments of it.
-/

namespace JenKea.Compare

/-! ## A key -/

/-- `_CAMEL.sub("_", name)`: an underscore before a capital letter that follows a small one or a digit, all of
ASCII. `previous` is the character before. -/
def snakeCase (previous : Option Char) : List Char → List Char
  | [] => []
  | c :: cs =>
    if c.isUpper ∧ previous.any (fun p => p.isLower || p.isDigit) then '_' :: c :: snakeCase (some c) cs
    else c :: snakeCase (some c) cs

/-- `c.lower()`. Two characters beyond ASCII have a letter of it in their small form; the other ones keep out of
what is looked for here, in either form. -/
def lowerChar (c : Char) : List Char :=
  if c.toNat = 0x212A then ['k']
  else if c.toNat = 0x130 then ['i', Char.ofNat 0x307]
  else [c.toLower]

/-- The words of `_SECRET_NAME_RE`. -/
def secretWords : List String :=
  ["password", "passwd", "passphrase", "pass", "pwd", "secret", "secret_key", "token", "api_key", "apikey",
    "private_key", "authorization", "credentials"]

/-- `is_secret_key`: the name ends in one of the words, alone or after an underscore. -/
def isSecretKey (name : String) : Bool :=
  let text := ((snakeCase none (Text.strip name).toList).flatMap lowerChar).map fun c => if c = '-' then '_' else c
  secretWords.any fun word => text == word.toList || ('_' :: word.toList).isSuffixOf text

/-! ## A path -/

/-- The characters that a path is split at. -/
def isSeparator (c : Char) : Bool := c == '.' || c == '[' || c == ']'

/-- `re.split(r"[.\[\]]+", path)`, without the empty pieces. -/
def segments (path : String) : List String :=
  ((path.toList.splitOnP isSeparator).filter fun piece => !piece.isEmpty).map String.ofList

/-- `_secret_path`: a segment of the path is the name of a secret. -/
def secretPath (path : String) : Bool := (segments path).any isSecretKey

/-- `re.split(r"[.\[\]]+", path)[-1]`. -/
def lastSegment (path : String) : String :=
  String.ofList ((path.toList.splitOnP isSeparator).getLast?.getD [])

/-! ### The segments of a longer path -/

theorem segments_append {c : Char} (hc : isSeparator c = true) (cs ds : List Char) :
    segments (String.ofList (cs ++ c :: ds)) = segments (String.ofList cs) ++ segments (String.ofList ds) := by
  unfold segments
  rw [String.toList_ofList, String.toList_ofList, String.toList_ofList, List.splitOnP_append_cons cs ds hc,
    List.filter_append, List.map_append]

theorem secretPath_append {c : Char} (hc : isSeparator c = true) (cs ds : List Char) :
    secretPath (String.ofList (cs ++ c :: ds)) =
      (secretPath (String.ofList cs) || secretPath (String.ofList ds)) := by
  unfold secretPath
  rw [segments_append hc, List.any_append]

/-- There is no separator, or there is a last one. -/
theorem exists_last_separator (cs : List Char) :
    (∀ x ∈ cs, isSeparator x = false) ∨
      ∃ before c last, isSeparator c = true ∧ (∀ x ∈ last, isSeparator x = false) ∧ cs = before ++ c :: last := by
  induction cs with
  | nil => exact Or.inl fun x hx => absurd hx List.not_mem_nil
  | cons d cs ih =>
    rcases ih with hnone | ⟨before, c, last, hc, hlast, rfl⟩
    · cases hd : isSeparator d with
      | true => exact Or.inr ⟨[], d, cs, hd, hnone, rfl⟩
      | false => exact Or.inl (List.forall_mem_cons.mpr ⟨hd, hnone⟩)
    · exact Or.inr ⟨d :: before, c, last, hc, hlast, rfl⟩

/-- The last segment of a path that names no secret names none. -/
theorem secretPath_lastSegment {path : String} (h : secretPath path = false) :
    secretPath (lastSegment path) = false := by
  have hof : path = String.ofList path.toList := String.ofList_toList.symm
  unfold lastSegment
  rcases exists_last_separator path.toList with hnone | ⟨before, c, last, hc, hlast, heq⟩
  · rw [List.splitOnP_eq_singleton hnone]
    show secretPath (String.ofList path.toList) = false
    rw [← hof]
    exact h
  · rw [heq, List.splitOnP_append_cons before last hc, List.splitOnP_eq_singleton hlast, List.getLast?_concat]
    rw [hof, heq, secretPath_append hc, Bool.or_eq_false_iff] at h
    exact h.2

end JenKea.Compare
