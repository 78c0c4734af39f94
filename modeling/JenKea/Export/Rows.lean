import JenKea.Export.Envelope
import JenKea.Lib.Loop

/-!
# The rows of a table

What a row of the database is in an export file, `_clean_row`, and what a row of a file is bound to a statement
as, `_decode_import_rows`. A value that is exported is bound as it was (`decodeValue_cleanCell`).
-/

namespace JenKea.Export

open Json (Fields lookup)

/-- A value that the database driver gives. Numbers, dates and times that JSON has no form for are their text. -/
inductive Cell where
  | null
  | int (n : ℤ)
  | float (q : ℚ)
  | text (s : String)
  | bytes (b : List UInt8)
  | datetime (iso : String)
  | other (s : String)
  deriving DecidableEq

abbrev Row : Type := List (String × Cell)

/-- A value that is bound to a statement. -/
inductive Value where
  | json (v : Json)
  | bytes (b : List UInt8)
  deriving DecidableEq

/-! ## The errors of an import -/

/-- A plugin whose data did not come back. -/
structure Failure where
  plugin : String
  tables : List String
  why : String
  deriving DecidableEq

/-- What an import raises. -/
inductive ImportError where
  | valueError (text : String)
  | scopeRefused (text : String)
  | binaryValueError (text : String)
  | runtimeError (text : String)
  | pluginRestoreError (failures : List Failure)
  | databaseError (text : String)
  deriving DecidableEq

/-- What `PluginRestoreError` says of a failure. -/
def Failure.text (f : Failure) : String :=
  f.plugin ++ " (table" ++ (if f.tables.length = 1 then "" else "s") ++ " " ++
    (if f.tables = [] then "?" else ", ".intercalate f.tables) ++ "): " ++ f.why

def ImportError.text : ImportError → String
  | .valueError text | .scopeRefused text | .binaryValueError text | .runtimeError text | .databaseError text => text
  | .pluginRestoreError failures =>
    "plugin data was NOT fully restored — " ++ "; ".intercalate (failures.map Failure.text)

/-! ## The values of a row -/

def hexDigit (c : Char) : Option ℕ :=
  if '0' ≤ c ∧ c ≤ '9' then some (c.toNat - '0'.toNat)
  else if 'a' ≤ c ∧ c ≤ 'f' then some (c.toNat - 'a'.toNat + 10)
  else if 'A' ≤ c ∧ c ≤ 'F' then some (c.toNat - 'A'.toNat + 10)
  else none

/-- The bytes of pairs of hexadecimal digits. -/
def hexPairs : List Char → Option (List UInt8)
  | [] => some []
  | c :: d :: cs =>
    match hexDigit c, hexDigit d, hexPairs cs with
    | some m, some n, some bytes => some (UInt8.ofNat (16 * m + n) :: bytes)
    | _, _, _ => none
  | [_] => none

/-- `bytes.fromhex`, of a text that `_HEX_PAIRS` matches. -/
def fromHex (text : String) : Option (List UInt8) := hexPairs (dropNewline text.toList)

abbrev BIN_TAG : String := "$bin"

/-- Where a value stands. -/
def place (table column : String) (n : ℕ) : String := s!"{table}.{column} (row {n})"

/-- One value of `_decode_import_rows`. -/
def decodeValue (table column : String) (n : ℕ) (binary : Bool) (format : ℤ) (v : Json) :
    Except ImportError Value :=
  match v with
  | .obj fields =>
    if Json.keysAre [BIN_TAG] fields then
      match lookup BIN_TAG fields with
      | some (.str h) =>
        match fromHex h with
        | some bytes => .ok (.bytes bytes)
        | none => .error (.binaryValueError (place table column n ++ ": the tagged binary value is not valid hex"))
      | _ => .error (.binaryValueError (place table column n ++ ": the tagged binary value is not valid hex"))
    else .ok (.json v)
  | .str text =>
    if binary then
      if 3 ≤ format then
        .error (.binaryValueError (place table column n ++
          s!": a format-{format} export tags every binary value, but this one is a bare string"))
      else
        match fromHex text with
        | some bytes => .ok (.bytes bytes)
        | none => .error (.binaryValueError (place table column n ++ ": " ++
            Text.repr (String.ofList (text.toList.take 24)) ++ " is not valid hex for a binary column"))
    else .ok (.json v)
  | _ => .ok (.json v)

/-- `_decode_import_rows`. -/
def decodeImportRows (table : String) (rows : List Fields) (cols binary : List String) (format : ℤ) :
    Except ImportError (List (List Value)) :=
  rows.zipIdx.mapM fun x => cols.mapM fun c =>
    decodeValue table c (x.2 + 1) (c ∈ binary) format ((lookup c x.1).getD .null)

/-! ## The values of an export -/

def hexChar (n : ℕ) : Char := if n < 10 then Char.ofNat ('0'.toNat + n) else Char.ofNat ('a'.toNat + (n - 10))

/-- `bytes.hex`. -/
def toHex (bytes : List UInt8) : String :=
  String.ofList (bytes.flatMap fun b => [hexChar (b.toNat / 16), hexChar (b.toNat % 16)])

/-- A value of `_clean_row`, as `json.dumps` writes it. -/
def cleanCell : Cell → Json
  | .null => .null
  | .int n => .int n
  | .float q => .float q
  | .text s => .str s
  | .bytes b => .obj [(BIN_TAG, .str (toHex b))]
  | .datetime iso => .str iso
  | .other s => .str s

/-- `_clean_row`. -/
def cleanRow (row : Row) : Fields := row.map fun x => (x.1, cleanCell x.2)

/-- What an exported value is bound as. -/
def boundOf : Cell → Value
  | .bytes b => .bytes b
  | cell => .json (cleanCell cell)

/-! ## An exported value is bound as it was -/

theorem hexDigit_hexChar : ∀ n < 16, hexDigit (hexChar n) = some n ∧ hexChar n ≠ '\n' := by decide

/-- The digits of a byte. -/
def hexByte (b : UInt8) : List Char := [hexChar (b.toNat / 16), hexChar (b.toNat % 16)]

theorem hexPairs_flatMap (bytes : List UInt8) : hexPairs (bytes.flatMap hexByte) = some bytes := by
  induction bytes with
  | nil => rfl
  | cons b bytes ih =>
    have hb : b.toNat < 256 := b.toNat_lt
    have hhigh := (hexDigit_hexChar (b.toNat / 16) (by omega)).1
    have hlow := (hexDigit_hexChar (b.toNat % 16) (by omega)).1
    have hsum : 16 * (b.toNat / 16) + b.toNat % 16 = b.toNat := by omega
    show hexPairs (hexChar (b.toNat / 16) :: hexChar (b.toNat % 16) :: bytes.flatMap hexByte) = _
    rw [hexPairs, hhigh, hlow, ih]
    dsimp only
    rw [hsum, UInt8.ofNat_toNat]

theorem fromHex_toHex (bytes : List UInt8) : fromHex (toHex bytes) = some bytes := by
  have hkept : dropNewline (bytes.flatMap hexByte) = bytes.flatMap hexByte := by
    refine if_neg fun hlast => ?_
    obtain ⟨b, -, hmem⟩ := List.mem_flatMap.mp (List.mem_of_getLast? hlast)
    have hb : b.toNat < 256 := b.toNat_lt
    have hhigh := (hexDigit_hexChar (b.toNat / 16) (by omega)).2
    have hlow := (hexDigit_hexChar (b.toNat % 16) (by omega)).2
    rcases List.mem_pair.mp hmem with heq | heq
    · exact hhigh heq.symm
    · exact hlow heq.symm
  unfold fromHex toHex
  rw [String.toList_ofList]
  show hexPairs (dropNewline (bytes.flatMap hexByte)) = _
  rw [hkept]
  exact hexPairs_flatMap bytes

/-- What a binary column holds. -/
def Cell.IsBinary : Cell → Prop
  | .null => True
  | .bytes _ => True
  | _ => False

instance : DecidablePred Cell.IsBinary
  | .null | .bytes _ => isTrue trivial
  | .int _ | .float _ | .text _ | .datetime _ | .other _ => isFalse id

/-- An exported value is bound as it was, where a binary column holds bytes. -/
theorem decodeValue_cleanCell {table column : String} {n : ℕ} {binary : Bool} {format : ℤ} {cell : Cell}
    (h : binary = true → cell.IsBinary) :
    decodeValue table column n binary format (cleanCell cell) = .ok (boundOf cell) := by
  have hplain : (∃ s, cleanCell cell = .str s) → ¬ cell.IsBinary → binary = false := fun _ hnot =>
    Bool.eq_false_iff.mpr fun hbinary => hnot (h hbinary)
  cases cell with
  | null => rfl
  | int n => rfl
  | float q => rfl
  | bytes b =>
    have hkeys : Json.keysAre [BIN_TAG] [(BIN_TAG, Json.str (toHex b))] = true := rfl
    have htag : lookup BIN_TAG [(BIN_TAG, Json.str (toHex b))] = some (.str (toHex b)) := if_pos rfl
    unfold cleanCell decodeValue
    dsimp only
    rw [if_pos hkeys, htag]
    dsimp only
    rw [fromHex_toHex]
    rfl
  | text s =>
    rw [hplain ⟨s, rfl⟩ id]
    rfl
  | datetime iso =>
    rw [hplain ⟨iso, rfl⟩ id]
    rfl
  | other s =>
    rw [hplain ⟨s, rfl⟩ id]
    rfl

/-- The value of a column. -/
def cellOf (row : Row) (column : String) : Cell := (row.lookup column).getD .null

theorem lookup_cleanRow (row : Row) (column : String) :
    (lookup column (cleanRow row)).getD .null = cleanCell (cellOf row column) := by
  unfold cellOf cleanRow
  induction row with
  | nil => rfl
  | cons x row ih =>
    obtain ⟨c, v⟩ := x
    rw [List.map_cons, Json.lookup_cons, List.lookup_cons]
    by_cases hc : c = column
    · subst hc
      simp
    · have hne : (column == c) = false := beq_eq_false_iff_ne.mpr (Ne.symm hc)
      rw [if_neg hc, hne]
      exact ih

/-- Exported rows are bound as they were. -/
theorem decodeImportRows_cleanRow {table : String} {rows : List Row} {cols binary : List String} {format : ℤ}
    (h : ∀ row ∈ rows, ∀ c ∈ cols, c ∈ binary → (cellOf row c).IsBinary) :
    decodeImportRows table (rows.map cleanRow) cols binary format =
      .ok (rows.map fun row => cols.map fun c => boundOf (cellOf row c)) := by
  have hrow : ∀ x ∈ rows.zipIdx, (cols.mapM fun c => decodeValue table c (x.2 + 1) (c ∈ binary) format
      ((lookup c (cleanRow x.1)).getD .null)) = pure (cols.map fun c => boundOf (cellOf x.1 c)) := by
    intro x hx
    refine Loop.mapM_eq_pure fun c hc => ?_
    rw [lookup_cleanRow]
    exact decodeValue_cleanCell fun hbinary => h x.1 (List.fst_mem_of_mem_zipIdx hx) c hc (of_decide_eq_true hbinary)
  unfold decodeImportRows
  rw [List.zipIdx_map, List.mapM_map]
  refine (Loop.mapM_eq_pure hrow).trans ?_
  have hfst : rows.zipIdx.map (fun x => cols.map fun c => boundOf (cellOf x.1 c)) =
      (rows.zipIdx.map Prod.fst).map fun row => cols.map fun c => boundOf (cellOf row c) := by
    rw [List.map_map]
    rfl
  rw [hfst, List.zipIdx_map_fst]
  rfl

end JenKea.Export
